/-
  File:      YottaTest/Multisite/Links.lean
  Subject:   multisite_replic.awk: the table of active links, as its lines.

  A line has three columns: `ACTIVE_LINKS_SRCTO`, a source and its receivers joined by commas, or
  `ACTIVE_LINKS_RCVFROM`, a receiver and its source. Each action of multisite_replic.csh reads the
  lines, and where it is accepted the lines the script wrote take their place.

  * `Instance`, `Row` -- names and lines;
  * `update_links_add`, `update_links_del`, `identify`, `stop_or_crash_action` -- what the script does;
  * `do_multisite_action`, `replic` -- one action, and a sequence of them;
  * `srctoPairs`, `rcvfromPairs` -- reading the lines back.
-/
import YottaTest.Awk.Text

namespace YottaTest.Multisite

open YottaTest.Awk

abbrev Text := List Char

/-! ## 1. Names and lines -/

/-- `INST` and a number. -/
def isInstance (text : Text) : Prop :=
  ∃ number, text = ['I', 'N', 'S', 'T'] ++ number ∧ number ≠ [] ∧ ∀ c ∈ number, c.isDigit = true

/-- The name of an instance. -/
structure Instance where
  text : Text
  wf : isInstance text

theorem Instance.ext_text {i j : Instance} (h : i.text = j.text) : i = j := by
  cases i
  cases j
  cases h
  rfl

instance : DecidableEq Instance := fun i j =>
  decidable_of_iff (i.text = j.text) ⟨Instance.ext_text, fun h => h ▸ rfl⟩

/-- Some names, one the beginning of another. -/
def inst1 : Instance := ⟨['I', 'N', 'S', 'T', '1'], ['1'], rfl, by decide, List.all_eq_true.1 rfl⟩
def inst2 : Instance := ⟨['I', 'N', 'S', 'T', '2'], ['2'], rfl, by decide, List.all_eq_true.1 rfl⟩
def inst3 : Instance := ⟨['I', 'N', 'S', 'T', '3'], ['3'], rfl, by decide, List.all_eq_true.1 rfl⟩
def inst10 : Instance := ⟨['I', 'N', 'S', 'T', '1', '0'], ['1', '0'], rfl, by decide, List.all_eq_true.1 rfl⟩

/-- The first column. -/
inductive Col1 where
  /-- `ACTIVE_LINKS_SRCTO` -/
  | srcto
  /-- `ACTIVE_LINKS_RCVFROM` -/
  | rcvfrom
  deriving DecidableEq, Repr

/-- A line of msr_active_links.txt. -/
structure Row where
  col1 : Col1
  col2 : Text
  col3 : Text
  deriving DecidableEq, Repr

/-- Which sides of a link a call is about: `SRC`, `RCV` (`RCVR` of a deletion), `BOTH`. -/
inductive Sides where
  | src
  | rcv
  | both
  deriving DecidableEq, Repr

/-- `"SRC" == type || "BOTH" == type`. -/
def Sides.hasSrc : Sides → Bool
  | .src | .both => true
  | .rcv => false

/-- `"RCV" == type || "BOTH" == type`. -/
def Sides.hasRcv : Sides → Bool
  | .rcv | .both => true
  | .src => false

/-! ## 2. The functions of the script -/

/-- The line with the receiver added, where it is the source's. -/
def addRow (arg1 arg2 : Text) (arg3 : Sides) (row : Row) : Row :=
  if arg3.hasSrc ∧ row.col1 = .srcto ∧ arg1 = row.col2 ∧ index row.col3 arg2 = 0 then
    { row with col3 := row.col3 ++ ',' :: arg2 }
  else row

/-- `none` is the error "receving from more than one host". -/
def update_links_add (rows : List Row) (arg1 arg2 : Text) (arg3 : Sides) : Option (List Row) :=
  let srcto := arg3.hasSrc && rows.any fun row => row.col1 = .srcto && arg1 = row.col2
  let ofReceiver := rows.filter fun row => arg3.hasRcv && row.col1 = .rcvfrom && arg2 = row.col2
  if ofReceiver.any fun row => arg1 ≠ row.col3 then none
  else
    let rcvfrom := ofReceiver.any fun row => arg1 = row.col3
    some (rows.map (addRow arg1 arg2 arg3)
      ++ (if arg3.hasSrc ∧ srcto = false then [⟨.srcto, arg1, arg2⟩] else [])
      ++ (if arg3.hasRcv ∧ rcvfrom = false then [⟨.rcvfrom, arg2, arg1⟩] else []))

/-- The receiver unplugged from the third column. -/
def unplug (aa arg2 : Text) : Text :=
  if index aa arg2 = 1 then sub (arg2 ++ [',']) [] aa else sub (',' :: arg2) [] aa

/-- What a deletion prints for a line. -/
def delRow (type : Sides) (arg1 arg2 : Text) (row : Row) : Option Row :=
  if type.hasRcv ∧ row.col1 = .rcvfrom ∧ row.col2 = arg2 then none
  else if type.hasSrc ∧ row.col1 = .srcto ∧ row.col2 = arg1 then
    if index row.col3 [','] = 0 ∨ arg1 = arg2 ∨ arg2 = [] then none
    else some { row with col3 := unplug row.col3 arg2 }
  else some row

def update_links_del (rows : List Row) (type : Sides) (arg1 arg2 : Text) : List Row :=
  rows.filterMap (delRow type arg1 arg2)

/-- A word `identify` puts into its result. -/
inductive Role where
  /-- `RCVR@` -/
  | rcvrAt
  /-- `SRC` -/
  | src
  /-- `SRC@` -/
  | srcAt
  /-- `RCVR` -/
  | rcvr
  deriving DecidableEq, Repr

/-- The result, as the words put together; only these are looked for in it. -/
def identify (rows : List Row) (whoami : Text) : List Role := rows.filterMap fun row =>
  if row.col1 = .rcvfrom ∧ row.col2 = whoami then some .rcvrAt
  else if row.col1 = .rcvfrom ∧ row.col3 = whoami then some .src
  else if row.col1 = .srcto ∧ row.col2 = whoami then some .srcAt
  else if row.col1 = .srcto ∧ index row.col3 whoami ≠ 0 then some .rcvr
  else none

/-- The lines after a STOP or CRASH of an instance; `none` where `identify` reports an error. -/
def stop_or_crash_action (rows : List Row) (rcvd_inst : Text) : Option (List Row) :=
  let output := identify rows rcvd_inst
  let rcvr := output.any fun role => role = .rcvrAt || role = .rcvr
  let src := output.any fun role => role = .srcAt || role = .src
  if output.all fun role => role = .src || role = .rcvr then none
  else if rcvr && src then some (update_links_del rows .both rcvd_inst rcvd_inst)
  else if rcvr then some (update_links_del rows .rcv rcvd_inst rcvd_inst)
  else some (update_links_del rows .src rcvd_inst rcvd_inst)

/-! ## 3. Actions -/

/-- The actions that write the links: of a link from a source to a receiver, of an instance, or of
    all links. -/
inductive Action where
  | start (s r : Instance)
  | startsrc (s r : Instance)
  | startrcv (s r : Instance)
  | stopsrc (s r : Instance)
  | stoprcv (s r : Instance)
  | stop (s r : Instance)
  | crash (s r : Instance)
  | stopInst (i : Instance)
  | crashInst (i : Instance)
  /-- STOP or CRASH of `ALL_LINKS` -/
  | allLinks

/-- The lines the script writes; `none` where it reports an error. -/
def do_multisite_action (rows : List Row) : Action → Option (List Row)
  | .start s r => update_links_add rows s.text r.text .both
  | .startsrc s r => update_links_add rows s.text r.text .src
  | .startrcv s r => update_links_add rows s.text r.text .rcv
  | .stoprcv _ r => some (update_links_del rows .rcv r.text r.text)
  | .stopsrc s r => some (update_links_del rows .src s.text r.text)
  | .stop s r | .crash s r => some (update_links_del rows .both s.text r.text)
  | .stopInst i | .crashInst i => stop_or_crash_action rows i.text
  | .allLinks => some []

/-- An action of multisite_replic.csh: it is accepted if the script reports no error and the command
    the action runs (its status is given here) succeeds. -/
def replic (rows : List Row) (act : Action × Bool) : List Row :=
  match do_multisite_action rows act.1 with
  | some rows' => if act.2 then rows' else rows
  | none => rows

/-- The table after a sequence of actions, from an empty one. -/
def table (acts : List (Action × Bool)) : List Row := acts.foldl replic []

/-! ## 4. Reading the table -/

/-- The pairs of source and receiver on the SRCTO lines. -/
def srctoPairs (rows : List Row) : List (Text × Text) := rows.flatMap fun row =>
  if row.col1 = .srcto then (row.col3.splitOn ',').map fun r => (row.col2, r) else []

/-- The pairs of source and receiver on the RCVFROM lines. -/
def rcvfromPairs (rows : List Row) : List (Text × Text) := rows.filterMap fun row =>
  if row.col1 = .rcvfrom then some (row.col3, row.col2) else none

/-- The receivers on a source's line. -/
def receivers (rows : List Row) (s : Text) : List Text :=
  ((srctoPairs rows).filter fun p => p.1 = s).map Prod.snd

end YottaTest.Multisite
