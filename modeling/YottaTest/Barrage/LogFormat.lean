/-
  File:      YottaTest/Barrage/LogFormat.lean
  Subject:   The log of barrage.m: what the test phase writes into `^LOG`, and what the analysis
             reads back.

  Nine writers fill a subscripted array, some fields only on success or only on an error, and one
  reader hard-codes the subscripts of each kind.

  * `Sub`, `Val`, `Arr` -- arrays of nodes; `Arr.ofItems` -- what a loop over items leaves;
  * `Test.compile`, `Test.link`, `Test.zrupdate`, `Test.executeRoutine`, … -- the writers, over
    what was chosen and which commands raised errors; `Outcome.entry` -- `record`;
  * `readEntry`, `replayAnalyzeParent` -- the reader; a read of an undefined node is a fault;
  * `Outcome.call` -- what the analysis has to be told, from the outcome itself;
  * **`readEntry_eq`** -- the reader tells the analysis exactly that, and reads an undefined node
    exactly when a zrupdate recorded an error: it looks for the error's text under `"exec"`;
  * **`replayAnalyzeParent_eq_iff`** -- the same over a whole log.

  The analysis reads nothing but the log and its own arrays, so the reader is modelled up to the
  calls it makes (`Call`); what they do is `replayAction`. What is printed is left out.
-/
import YottaTest.Barrage.Analyzer

namespace YottaTest.Barrage

/-! ## 1. Arrays -/

inductive Sub where
  | num (n : Nat)
  | str (s : String)
  deriving DecidableEq, Repr

inductive Val where
  | num (n : Int)
  | str (s : String)
  deriving DecidableEq, Repr

def Val.text : Val → String
  | .num n => toString n
  | .str s => s

def Val.toNat : Val → Nat
  | .num n => n.toNat
  | .str _ => 0

/-- A local array, or what is below a node of a global. -/
abbrev Arr := List Sub → Option Val

def Arr.empty : Arr := fun _ => none

def Arr.set (a : Arr) (k : List Sub) (v : Val) : Arr := fun k' => if k' = k then some v else a k'

/-- What `for i=1:1:object(0)` leaves when its passes leave these nodes below `object(i)`. -/
def Arr.ofItems (items : List Arr) : Arr
  | [.num 0] => some (.num items.length)
  | .num (i + 1) :: rest => (items[i]?).bind fun a => a rest
  | _ => none

/-! ## 2. The writers -/

namespace Test

/-- The name of a routine: `RTNPREFIX` and letters; the first may be an underscore. -/
structure RtnName where
  text : String
  letters : ∀ c ∈ text.toList, c.isAlpha = true ∨ c = '_'

def NOOP : Val := .num (-1)

/-- `$etrap` of the writers that record an error, or the line after the command it guards. -/
def finish (a : Arr) : Option String → Arr
  | none => a.set [.str "result"] (.str "success")
  | some zstatus => (a.set [.str "result"] (.str "error")).set [.str "error"] (.str zstatus)

/-- The string of a `$zroutines`: directories with their sources. -/
def zroutinesText (zro : List (LogZro String)) : String :=
  " ".intercalate <| zro.map fun z =>
    z.dir ++ (if z.starred then "*" else "") ++
      if z.srcs.length > 0 then "(" ++ " ".intercalate z.srcs ++ ")" else ""

/-- One directory of a `$zroutines`: `zroutines(i)`, `(i,"*")`, `(i,0)`, `(i,j)`. -/
def zroEntry (z : LogZro String) : Arr := fun k =>
  if k = [] then some (.str z.dir)
  else if k = [.str "*"] then some (.num (if z.starred then 1 else 0))
  else Arr.ofItems (z.srcs.map fun src => Arr.empty.set [] (.str src)) k

def setZroutines (zro : List (LogZro String)) : Arr := fun k =>
  if k = [] then some (.str (zroutinesText zro)) else Arr.ofItems (zro.map zroEntry) k

/-- One written source: its name, directory and version. -/
structure Written where
  name : RtnName
  dir : String
  ver : Nat

def writeSource (w : Written) : Arr :=
  ((Arr.empty.set [] (.str w.name.text)).set [.str "dir"] (.str w.dir)).set [.str "ver"]
    (.num w.ver)

/-- One deletion: nothing to delete, or a file by its name and directory. -/
inductive Deleted where
  | nothing
  | file (name : RtnName) (dir : String)

def delete : Deleted → Arr
  | .nothing => Arr.empty.set [] NOOP
  | .file name dir => (Arr.empty.set [] (.str name.text)).set [.str "dir"] (.str dir)

/-- One compile: no source in the directory, or a ZCOMPILE that may raise an error. -/
inductive Compiled where
  | nothing
  | zcompile (name : RtnName) (dir dst : String) (raised : Option String)

def compile : Compiled → Arr
  | .nothing => Arr.empty.set [] NOOP
  | .zcompile name dir dst raised =>
      finish (((Arr.empty.set [] (.str name.text)).set [.str "dir"] (.str dir)).set [.str "dst"]
        (.str dst)) raised

/-- One link: no object was found, or a ZLINK that may raise an error. -/
inductive Linked where
  | nothing
  | zlink (name : RtnName) (dir : String) (raised : Option String)

/-- The name and directory of an object whose command is guarded by
    `set $ecode="",objects(i)=NOOP`. -/
def guarded (name : RtnName) (dir : String) : Option String → Arr
  | none => ((Arr.empty.set [] (.str name.text)).set [.str "dir"] (.str dir)).set [.str "result"]
      (.str "success")
  | some _ => ((Arr.empty.set [] (.str name.text)).set [.str "dir"] (.str dir)).set [] NOOP

def link : Linked → Arr
  | .nothing => Arr.empty.set [] NOOP
  | .zlink name dir raised => guarded name dir raised

/-- One zrupdate: of a file that existed before (there may be none), of the wildcard, or of an
    existing file (there may be none). -/
inductive Zrupdated where
  | nothing
  | previous (name : RtnName) (dir : String) (raised : Option String)
  | wildcard (dir : String) (raised : Option String)
  | file (name : RtnName) (dir : String) (raised : Option String)

def zrupdate : Zrupdated → Arr
  | .nothing => Arr.empty.set [] NOOP
  | .previous name dir raised =>
      finish ((Arr.empty.set [] (.str name.text)).set [.str "dir"] (.str dir)) raised
  | .wildcard dir raised =>
      finish ((Arr.empty.set [] (.str "*")).set [.str "dir"] (.str dir)) raised
  | .file name dir raised => guarded name dir raised

/-- How an invocation of a routine ends: with an error, or with a text or none. The text is the
    one `generateRoutine` puts into a routine, its name and version. -/
inductive Invoked where
  | raised (zstatus : String)
  | none
  | text (name : RtnName) (version : Nat)

def Invoked.toText : Invoked → String
  | .text name version => name.text ++ " " ++ toString version
  | _ => ""

/-- One execution: the routine, the way it is invoked with the text of the expression, and how
    that ends. -/
structure Executed where
  name : RtnName
  choice : Nat
  expression : String
  invoked : Invoked

/-- The ways that read the routine's text: an empty one counts as a failed link. -/
def Executed.readsText (x : Executed) : Bool := 15 < x.choice ∧ x.choice < 21

/-- The error of an execution: the one its `$etrap` caught, or a text that could not be read. -/
def Executed.error (x : Executed) : Option String :=
  match x.invoked with
  | .raised zstatus => some zstatus
  | .none => if x.readsText then some "ZLINK" else Option.none
  | .text _ _ => Option.none

def invokeRoutine (x : Executed) (result : Arr) : Arr :=
  let result := result.set [.str "choice"] (.num x.choice)
  let result := result.set [.str "etrap"] (.num 0)
  let result := result.set [.str "expression"] (.str x.expression)
  let result :=
    if x.choice = 15 ∨ x.choice = 23 then result.set [.str "etrap"] (.num 1) else result
  match x.error with
  | some error => (result.set [.str "result"] (.str "error")).set [.str "error"] (.str error)
  | none => result.set [.str "result"] (.str x.invoked.toText)

def executeRoutine (x : Executed) : Arr :=
  invokeRoutine x (Arr.empty.set [] (.str x.name.text))

/-- One directory of the set-up, for sources or for objects. -/
def makeDir (d : String × Bool) : Arr :=
  (Arr.empty.set [] (.str d.1)).set [.str "src"] (.num (if d.2 then 1 else 0))

end Test

/-- The nine kinds of actions. -/
inductive Act where
  | setZroutines
  | writeSources
  | deleteSources
  | deleteObjects
  | compile
  | link
  | zrupdate
  | execute
  | makeDirs
  deriving DecidableEq, Repr

/-- The subscript `record` chooses. -/
def Act.subscript : Act → String
  | .setZroutines => "zro"
  | .writeSources => "wrtsrc"
  | .deleteSources => "dltsrc"
  | .deleteObjects => "dltobj"
  | .compile => "compile"
  | .link => "link"
  | .zrupdate => "zrupdate"
  | .execute => "exec"
  | .makeDirs => "mkdir"

/-- `^LOG(time,pid)`: its value and the nodes below it. -/
structure Entry where
  action : Act
  nodes : Arr

/-- `set ^LOG(time,$job)=action` and `merge ^LOG(time,$job,subscript)=object`. -/
def record (action : Act) (object : Arr) : Entry where
  action := action
  nodes := fun k => match k with
    | s :: rest => if s = .str action.subscript then object rest else none
    | [] => none

/-! ## 3. The reader -/

/-- How the reader can stop: at a node of `^LOG` that does not exist, or at an assert. -/
inductive LogFault where
  | undefined (subs : List Sub)
  | assert
  deriving DecidableEq, Repr

/-- What the analysis is called with, item by item; a zrupdate and an execution with the result
    and the error's text. -/
inductive Call where
  | setZroutines (z : Zro String)
  | writeSources (items : List (String × String × Nat))
  | deleteSources (items : List (String × String))
  | deleteObjects (items : List (String × String))
  | compile (items : List (String × String × String))
  | link (items : List (String × String))
  | zrupdate (items : List (String × Target String × String × String))
  | execute (name result error : String)
  | makeDirs (items : List (String × Bool))

/-- The modes besides analysis, and `name[BADRTN`. -/
structure Options where
  replay : Bool
  logToFile : Bool
  isBad : String → Bool

def Entry.read (e : Entry) (k : List Sub) : Except LogFault Val :=
  match e.nodes k with
  | some v => .ok v
  | none => .error (.undefined k)

/-- A read that is only made in some mode, for something the analysis does not use. -/
def Entry.readWhen (e : Entry) (c : Bool) (k : List Sub) : Except LogFault Unit :=
  if c then e.read k >>= fun _ => pure () else pure ()

/-- `$select("error"=result:^LOG(time,pid,…),1:"")`. -/
def Entry.selectError (e : Entry) (result : Val) (k : List Sub) : Except LogFault Val :=
  if result.text = "error" then e.read k else pure (.str "")

/-- `do assert(name'[".")`. -/
def assertName (name : Val) : Except LogFault Unit :=
  if '.' ∈ name.text.toList then .error .assert else .ok ()

/-- `for j=1:1:^LOG(time,pid,subscript,0) do`, from index `j` on, `n` items; an item that quits at
    NOOP gives nothing. -/
def forItems {α : Type} (item : Nat → Except LogFault (Option α)) :
    Nat → Nat → Except LogFault (List α)
  | 0, _ => .ok []
  | n + 1, j => do
      let a ← item j
      let as ← forItems item n (j + 1)
      pure (a.toList ++ as)

def readItems {α : Type} (e : Entry) (subscript : String)
    (item : Nat → Except LogFault (Option α)) : Except LogFault (List α) := do
  let count ← e.read [.str subscript, .num 0]
  forItems item count.toNat 1

/-- `merge zroutines=^LOG(time,pid,"zro")`: no node has to exist. -/
def mergeZro (e : Entry) : Zro String :=
  let node := fun k => e.nodes (.str "zro" :: k)
  { count := (node [.num 0]).map Val.toNat
    entry := fun i => if i = 0 then ZroEntry.empty else
      { dir := (node [.num i]).map Val.text
        starred := (node [.num i, .str "*"]).map fun v => v.toNat ≠ 0
        count := (node [.num i, .num 0]).map Val.toNat
        src := fun j => if j = 0 then none else (node [.num i, .num j]).map Val.text } }

def readWriteSource (e : Entry) (j : Nat) :
    Except LogFault (Option (String × String × Nat)) := do
  let name ← e.read [.str "wrtsrc", .num j]
  let dir ← e.read [.str "wrtsrc", .num j, .str "dir"]
  let ver ← e.read [.str "wrtsrc", .num j, .str "ver"]
  assertName name
  pure (some (dir.text, name.text, ver.toNat))

/-- An item with a name and a directory: of `"dltsrc"`, `"dltobj"` and `"link"`. -/
def readFile (e : Entry) (subscript : String) (j : Nat) :
    Except LogFault (Option (String × String)) := do
  let name ← e.read [.str subscript, .num j]
  if name = Test.NOOP then pure none
  else do
    assertName name
    let dir ← e.read [.str subscript, .num j, .str "dir"]
    pure (some (dir.text, name.text))

def readCompile (e : Entry) (j : Nat) : Except LogFault (Option (String × String × String)) := do
  let name ← e.read [.str "compile", .num j]
  if name = Test.NOOP then pure none
  else do
    assertName name
    let dir ← e.read [.str "compile", .num j, .str "dir"]
    let dst ← e.read [.str "compile", .num j, .str "dst"]
    pure (some (name.text, dir.text, dst.text))

def readZrupdate (e : Entry) (j : Nat) :
    Except LogFault (Option (String × Target String × String × String)) := do
  let name ← e.read [.str "zrupdate", .num j]
  if name = Test.NOOP then pure none
  else do
    assertName name
    let dir ← e.read [.str "zrupdate", .num j, .str "dir"]
    let result ← e.read [.str "zrupdate", .num j, .str "result"]
    let error ← e.selectError result [.str "exec", .str "error"]
    let target := if name.text = "*" then .wildcard else .routine name.text
    pure (some (dir.text, target, result.text, error.text))

def readExecute (o : Options) (e : Entry) : Except LogFault Call := do
  let name ← e.read [.str "exec"]
  e.readWhen o.replay [.str "exec", .str "choice"]
  e.readWhen (o.logToFile && o.isBad name.text) [.str "exec", .str "expression"]
  e.readWhen (o.logToFile && o.isBad name.text) [.str "exec", .str "etrap"]
  let result ← e.read [.str "exec", .str "result"]
  let error ← e.selectError result [.str "exec", .str "error"]
  pure (.execute name.text result.text error.text)

def readMakeDir (e : Entry) (j : Nat) : Except LogFault (Option (String × Bool)) := do
  let dir ← e.read [.str "mkdir", .num j]
  let isSrcDir ← e.read [.str "mkdir", .num j, .str "src"]
  pure (some (dir.text, isSrcDir.toNat ≠ 0))

/-- Identify the action and act accordingly, `analyze` being on. -/
def readEntry (o : Options) (e : Entry) : Except LogFault Call :=
  match e.action with
  | .setZroutines => pure (.setZroutines (mergeZro e))
  | .writeSources => Call.writeSources <$> readItems e "wrtsrc" (readWriteSource e)
  | .deleteSources => Call.deleteSources <$> readItems e "dltsrc" (readFile e "dltsrc")
  | .deleteObjects => Call.deleteObjects <$> readItems e "dltobj" (readFile e "dltobj")
  | .compile => Call.compile <$> readItems e "compile" (readCompile e)
  | .link => Call.link <$> readItems e "link" (readFile e "link")
  | .zrupdate => Call.zrupdate <$> readItems e "zrupdate" (readZrupdate e)
  | .execute => readExecute o e
  | .makeDirs => Call.makeDirs <$> readItems e "mkdir" (readMakeDir e)

/-- `for i=1:1 set pid=$order(^LOG(time,pid)) quit:(""=pid)  do`, from index `i` on. -/
def readPids (o : Options) : Nat → List (Nat × Entry) → Except LogFault (List (Nat × Call))
  | _, [] => .ok []
  | i, (pid, e) :: rest => do
      if i = 1 then pure () else .error .assert
      let call ← readEntry o e
      let calls ← readPids o (i + 1) rest
      pure ((pid, call) :: calls)

/-- The log in order of time, and below each time in order of the process. -/
abbrev Log := List (Nat × List (Nat × Entry))

/-- The loop over the log, up to the calls it makes: by time and process. -/
def replayAnalyzeParent (o : Options) : Log → Except LogFault (List (Nat × Nat × Call))
  | [] => .ok []
  | (time, pids) :: rest => do
      let calls ← readPids o 1 pids
      let later ← replayAnalyzeParent o rest
      pure ((calls.map fun c => (time, c.1, c.2)) ++ later)

/-! ## 4. What the analysis has to be told -/

/-- What a test process did in one action. -/
inductive Outcome where
  | setZroutines (zro : List (LogZro String))
  | writeSources (items : List Test.Written)
  | deleteSources (items : List Test.Deleted)
  | deleteObjects (items : List Test.Deleted)
  | compile (items : List Test.Compiled)
  | link (items : List Test.Linked)
  | zrupdate (items : List Test.Zrupdated)
  | execute (x : Test.Executed)
  | makeDirs (items : List (String × Bool))

/-- The entry a test process records. -/
def Outcome.entry : Outcome → Entry
  | .setZroutines zro => record .setZroutines (Test.setZroutines zro)
  | .writeSources items => record .writeSources (Arr.ofItems (items.map Test.writeSource))
  | .deleteSources items => record .deleteSources (Arr.ofItems (items.map Test.delete))
  | .deleteObjects items => record .deleteObjects (Arr.ofItems (items.map Test.delete))
  | .compile items => record .compile (Arr.ofItems (items.map Test.compile))
  | .link items => record .link (Arr.ofItems (items.map Test.link))
  | .zrupdate items => record .zrupdate (Arr.ofItems (items.map Test.zrupdate))
  | .execute x => record .execute (Test.executeRoutine x)
  | .makeDirs items => record .makeDirs (Arr.ofItems (items.map Test.makeDir))

namespace Test

/-- The result and the error's text of a command that may have raised an error. -/
def verdict : Option String → String × String
  | none => ("success", "")
  | some zstatus => ("error", zstatus)

def Deleted.call : Deleted → Option (String × String)
  | .nothing => none
  | .file name dir => some (dir, name.text)

def Compiled.call : Compiled → Option (String × String × String)
  | .nothing => none
  | .zcompile name dir dst _ => some (name.text, dir, dst)

/-- A link that raised an error is recorded as nothing. -/
def Linked.call : Linked → Option (String × String)
  | .zlink name dir none => some (dir, name.text)
  | _ => none

/-- A zrupdate of an existing file that raised an error is recorded as nothing. -/
def Zrupdated.call : Zrupdated → Option (String × Target String × String × String)
  | .previous name dir raised => some (dir, .routine name.text, verdict raised)
  | .wildcard dir raised => some (dir, .wildcard, verdict raised)
  | .file name dir none => some (dir, .routine name.text, verdict none)
  | _ => none

/-- The zrupdate recorded an error. -/
def Zrupdated.failed : Zrupdated → Bool
  | .previous _ _ raised => raised.isSome
  | .wildcard _ raised => raised.isSome
  | _ => false

def Executed.verdict (x : Executed) : String × String :=
  match x.error with
  | some error => ("error", error)
  | none => (x.invoked.toText, "")

end Test

/-- The call for an action, with the result and error the action itself had. -/
def Outcome.call : Outcome → Call
  | .setZroutines zro => .setZroutines (Zro.ofLog zro)
  | .writeSources items => .writeSources (items.map fun w => (w.dir, w.name.text, w.ver))
  | .deleteSources items => .deleteSources (items.filterMap Test.Deleted.call)
  | .deleteObjects items => .deleteObjects (items.filterMap Test.Deleted.call)
  | .compile items => .compile (items.filterMap Test.Compiled.call)
  | .link items => .link (items.filterMap Test.Linked.call)
  | .zrupdate items => .zrupdate (items.filterMap Test.Zrupdated.call)
  | .execute x => .execute x.name.text x.verdict.1 x.verdict.2
  | .makeDirs items => .makeDirs items

/-- No zrupdate of the action recorded an error. -/
def Outcome.noZrupdateError : Outcome → Bool
  | .zrupdate items => items.all fun z => !z.failed
  | _ => true

/-! ## 5. Reading items back -/

@[simp] theorem Arr.set_self (a : Arr) (k : List Sub) (v : Val) : a.set k v k = some v := by
  simp [Arr.set]

theorem Arr.ofItems_get {β : Type} (f : β → Arr) (xs : List β) (k : Nat) (rest : List Sub) :
    Arr.ofItems (xs.map f) (.num (k + 1) :: rest) = xs[k]?.bind fun x => f x rest := by
  cases h : xs[k]? <;> simp [Arr.ofItems, h]

theorem Arr.ofItems_item {β : Type} (f : β → Arr) (xs : List β) {k : Nat} (hk : k < xs.length)
    (rest : List Sub) : Arr.ofItems (xs.map f) (.num (k + 1) :: rest) = f xs[k] rest := by
  simp [Arr.ofItems, hk]

theorem Arr.ofItems_count {β : Type} (f : β → Arr) (xs : List β) :
    Arr.ofItems (xs.map f) [.num 0] = some (.num xs.length) := by
  simp [Arr.ofItems]

/-- A read of what `record` has merged. -/
theorem read_record (action : Act) (object : Arr) {subscript : String}
    (h : subscript = action.subscript) (k : List Sub) :
    (record action object).read (.str subscript :: k) =
      match object k with
      | some v => .ok v
      | none => .error (.undefined (.str subscript :: k)) := by
  subst h
  simp [Entry.read, record]

/-- A loop whose passes give the items' values, or stop at a bad item. -/
theorem forItems_eq {α β : Type} {item : Nat → Except LogFault (Option α)} {g : β → Option α}
    {bad : β → Bool} {fault : LogFault} :
    ∀ (xs : List β) (j : Nat),
      (∀ k (hk : k < xs.length),
        item (j + k) = if bad xs[k] then .error fault else .ok (g xs[k])) →
      forItems item xs.length j =
        if xs.any bad then .error fault else .ok (xs.filterMap g)
  | [], _, _ => rfl
  | x :: xs, j, h => by
      have h0 : item j = if bad x then .error fault else .ok (g x) := h 0 (by simp)
      have ih := forItems_eq xs (j + 1) fun k hk => by
        have := h (k + 1) (by simpa using hk)
        rwa [show j + (k + 1) = j + 1 + k by omega] at this
      simp only [List.length_cons, forItems, h0, ih, List.any_cons]
      by_cases hx : bad x = true
      · simp [hx, bind, Except.bind]
      · by_cases hxs : xs.any bad = true
        · simp [hx, hxs, bind, Except.bind]
        · cases hg : g x <;> simp [hg, hx, hxs, bind, Except.bind, pure, Except.pure]

/-- A loop over recorded items. -/
theorem readItems_eq {α β : Type} {action : Act} (subscript : String)
    (hs : subscript = action.subscript) {f : β → Arr} {xs : List β}
    {item : Nat → Except LogFault (Option α)} {g : β → Option α} (bad : β → Bool)
    (fault : LogFault)
    (h : ∀ k (hk : k < xs.length),
      item (k + 1) = if bad xs[k] then .error fault else .ok (g xs[k])) :
    readItems (record action (Arr.ofItems (xs.map f))) subscript item =
      if xs.any bad then .error fault else .ok (xs.filterMap g) := by
  unfold readItems
  rw [read_record action _ hs, Arr.ofItems_count]
  show forItems item xs.length 1 = _
  exact forItems_eq xs 1 fun k hk => by rw [Nat.add_comm]; exact h k hk

theorem readItems_ok {α β : Type} {action : Act} (subscript : String)
    (hs : subscript = action.subscript) {f : β → Arr} {xs : List β}
    {item : Nat → Except LogFault (Option α)} {g : β → Option α}
    (h : ∀ k (hk : k < xs.length), item (k + 1) = .ok (g xs[k])) :
    readItems (record action (Arr.ofItems (xs.map f))) subscript item = .ok (xs.filterMap g) := by
  have := readItems_eq subscript hs (f := f) (fun _ => false) .assert h
  simpa using this

/-- The node of a recorded item. -/
theorem read_item {β : Type} {action : Act} (subscript : String)
    (hs : subscript = action.subscript) {f : β → Arr} {xs : List β} {k : Nat}
    (hk : k < xs.length) (rest : List Sub) :
    (record action (Arr.ofItems (xs.map f))).read (.str subscript :: .num (k + 1) :: rest) =
      match f xs[k] rest with
      | some v => .ok v
      | none => .error (.undefined (.str subscript :: .num (k + 1) :: rest)) := by
  rw [read_record action _ hs, Arr.ofItems_item f xs hk]

theorem Test.RtnName.noDot (n : Test.RtnName) : '.' ∉ n.text.toList := fun h => by
  rcases n.letters '.' h with h | h
  · exact absurd h (by decide)
  · exact absurd h (by decide)

theorem Test.RtnName.ne_star (n : Test.RtnName) : n.text ≠ "*" := fun h => by
  have hmem : '*' ∈ n.text.toList := by rw [h]; decide
  rcases n.letters '*' hmem with h | h
  · exact absurd h (by decide)
  · exact absurd h (by decide)

@[simp] theorem assertName_rtn (n : Test.RtnName) : assertName (.str n.text) = .ok () :=
  if_neg n.noDot

/-! ## 6. One entry -/

theorem readFile_eq {β : Type} {action : Act} {subscript : String}
    (hs : subscript = action.subscript) {f : β → Arr} {g : β → Option (String × String)}
    (hf : ∀ x, (f x [] = some Test.NOOP ∧ g x = none) ∨
      ∃ (n : Test.RtnName) (dir : String), f x [] = some (.str n.text) ∧
        f x [.str "dir"] = some (.str dir) ∧ g x = some (dir, n.text)) (xs : List β) :
    readItems (record action (Arr.ofItems (xs.map f))) subscript
      (readFile (record action (Arr.ofItems (xs.map f))) subscript) = .ok (xs.filterMap g) := by
  refine readItems_ok subscript hs fun k hk => ?_
  unfold readFile
  rw [read_item subscript hs hk, read_item subscript hs hk]
  rcases hf xs[k] with ⟨h0, hg⟩ | ⟨n, dir, h0, hd, hg⟩
  · simp [h0, hg, bind, Except.bind, pure, Except.pure]
  · simp [h0, hd, hg, Test.NOOP, bind, Except.bind, pure, Except.pure, Val.text]

theorem readWriteSource_eq (xs : List Test.Written) :
    readItems (record .writeSources (Arr.ofItems (xs.map Test.writeSource))) "wrtsrc"
      (readWriteSource (record .writeSources (Arr.ofItems (xs.map Test.writeSource)))) =
      .ok (xs.map fun w => (w.dir, w.name.text, w.ver)) := by
  have h : xs.filterMap (fun w => some (w.dir, w.name.text, w.ver)) =
      xs.map fun w => (w.dir, w.name.text, w.ver) := by rw [List.filterMap_eq_map']
  refine (readItems_ok "wrtsrc" rfl fun k hk => ?_).trans (congrArg Except.ok h)
  unfold readWriteSource
  rw [read_item "wrtsrc" rfl hk, read_item "wrtsrc" rfl hk, read_item "wrtsrc" rfl hk]
  simp [Test.writeSource, Arr.set, bind, Except.bind, pure, Except.pure, Val.text, Val.toNat]

theorem readCompile_eq (xs : List Test.Compiled) :
    readItems (record .compile (Arr.ofItems (xs.map Test.compile))) "compile"
      (readCompile (record .compile (Arr.ofItems (xs.map Test.compile)))) =
      .ok (xs.filterMap Test.Compiled.call) := by
  refine readItems_ok "compile" rfl fun k hk => ?_
  unfold readCompile
  rw [read_item "compile" rfl hk, read_item "compile" rfl hk, read_item "compile" rfl hk]
  cases xs[k] with
  | nothing => simp [Test.compile, Test.Compiled.call, bind, Except.bind, pure, Except.pure]
  | zcompile name dir dst raised =>
      -- "result" and "error" are other nodes than the three that are read
      cases raised <;>
        simp [Test.compile, Test.finish, Test.Compiled.call, Test.NOOP, Arr.set, bind,
          Except.bind, pure, Except.pure, Val.text]

theorem readMakeDir_eq (xs : List (String × Bool)) :
    readItems (record .makeDirs (Arr.ofItems (xs.map Test.makeDir))) "mkdir"
      (readMakeDir (record .makeDirs (Arr.ofItems (xs.map Test.makeDir)))) = .ok xs := by
  have h : xs.filterMap some = xs := by simp
  refine (readItems_ok "mkdir" rfl fun k hk => ?_).trans (congrArg Except.ok h)
  unfold readMakeDir
  rw [read_item "mkdir" rfl hk, read_item "mkdir" rfl hk]
  obtain ⟨dir, isSrc⟩ := xs[k]
  cases isSrc <;>
    simp [Test.makeDir, Arr.set, bind, Except.bind, pure, Except.pure, Val.text, Val.toNat]

/-- The nodes of a zrupdate that was not recorded as NOOP. -/
theorem zrupdate_nodes (name dir : String) (raised : Option String) :
    let a := Test.finish ((Arr.empty.set [] (.str name)).set [.str "dir"] (.str dir)) raised
    a [] = some (.str name) ∧ a [.str "dir"] = some (.str dir) ∧
      a [.str "result"] = some (.str (Test.verdict raised).1) := by
  cases raised <;> simp [Test.finish, Test.verdict, Arr.set]

/-- **The error's text of a zrupdate is looked for below "exec", where no zrupdate writes.** -/
theorem selectError_zrupdate (object : Arr) (raised : Option String) :
    (record .zrupdate object).selectError (.str (Test.verdict raised).1)
      [.str "exec", .str "error"] =
      if raised.isSome then .error (.undefined [.str "exec", .str "error"])
      else .ok (.str (Test.verdict raised).2) := by
  cases raised with
  | none => rfl
  | some zstatus => rfl

theorem readZrupdate_eq (xs : List Test.Zrupdated) :
    readItems (record .zrupdate (Arr.ofItems (xs.map Test.zrupdate))) "zrupdate"
      (readZrupdate (record .zrupdate (Arr.ofItems (xs.map Test.zrupdate)))) =
      if xs.any Test.Zrupdated.failed then .error (.undefined [.str "exec", .str "error"])
      else .ok (xs.filterMap Test.Zrupdated.call) := by
  refine readItems_eq "zrupdate" rfl _ _ fun k hk => ?_
  unfold readZrupdate
  rw [read_item "zrupdate" rfl hk, read_item "zrupdate" rfl hk, read_item "zrupdate" rfl hk]
  have hselect := selectError_zrupdate (Arr.ofItems (xs.map Test.zrupdate))
  cases xs[k] with
  | nothing =>
      simp [Test.zrupdate, Test.Zrupdated.call, Test.Zrupdated.failed, bind, Except.bind, pure,
        Except.pure]
  | previous name dir raised =>
      obtain ⟨h0, h1, h2⟩ := zrupdate_nodes name.text dir raised
      simp only [Test.zrupdate, h0, h1, h2, Test.NOOP, bind, Except.bind, assertName_rtn,
        hselect raised, Test.Zrupdated.failed, Test.Zrupdated.call]
      cases raised <;> simp [Val.text, name.ne_star, pure, Except.pure, Test.verdict]
  | wildcard dir raised =>
      obtain ⟨h0, h1, h2⟩ := zrupdate_nodes "*" dir raised
      have hstar : assertName (.str "*") = .ok () := by decide
      simp only [Test.zrupdate, h0, h1, h2, Test.NOOP, bind, Except.bind, hstar, hselect raised,
        Test.Zrupdated.failed, Test.Zrupdated.call]
      cases raised <;> simp [Val.text, pure, Except.pure, Test.verdict]
  | file name dir raised =>
      cases raised with
      | none =>
          simp [Test.zrupdate, Test.guarded, Test.Zrupdated.call, Test.Zrupdated.failed,
            Test.verdict, Test.NOOP, Val.text, Arr.set, name.ne_star, bind, Except.bind, pure,
            Except.pure, Entry.selectError]
      | some zstatus =>
          simp [Test.zrupdate, Test.guarded, Test.Zrupdated.call, Test.Zrupdated.failed, Test.NOOP,
            Arr.set, bind, Except.bind, pure, Except.pure]

/-- A text of an invocation is not taken for an error. -/
theorem Test.Invoked.toText_ne_error (v : Test.Invoked) : v.toText ≠ "error" := by
  cases v with
  | raised zstatus => exact (by decide : "" ≠ "error")
  | none => decide
  | text name version =>
      intro h
      have hmem : ' ' ∈ (name.text ++ " " ++ toString version).toList := by simp
      rw [show name.text ++ " " ++ toString version = "error" from h] at hmem
      exact absurd hmem (by decide)

/-- The nodes of an execution that are always there, and its result. -/
theorem executeRoutine_nodes (x : Test.Executed) :
    Test.executeRoutine x [] = some (.str x.name.text) ∧
      (Test.executeRoutine x [.str "choice"]).isSome = true ∧
      (Test.executeRoutine x [.str "expression"]).isSome = true ∧
      (Test.executeRoutine x [.str "etrap"]).isSome = true ∧
      Test.executeRoutine x [.str "result"] = some (.str x.verdict.1) ∧
      (x.verdict.1 = "error" →
        Test.executeRoutine x [.str "error"] = some (.str x.verdict.2)) ∧
      (x.verdict.1 ≠ "error" → x.verdict.2 = "") := by
  have htext := x.invoked.toText_ne_error
  unfold Test.executeRoutine Test.invokeRoutine Test.Executed.verdict
  by_cases hc : x.choice = 15 ∨ x.choice = 23
  · cases x.error <;> simp [hc, Arr.set, htext]
  · cases x.error <;> simp [hc, Arr.set, htext]

theorem read_exec (x : Test.Executed) (k : List Sub) :
    (record .execute (Test.executeRoutine x)).read (.str "exec" :: k) =
      match Test.executeRoutine x k with
      | some v => .ok v
      | none => .error (.undefined (.str "exec" :: k)) :=
  read_record .execute _ rfl k

theorem readWhen_ok {e : Entry} {k : List Sub} {v : Val} (h : e.read k = .ok v) (c : Bool) :
    e.readWhen c k = .ok () := by
  cases c with
  | false => rfl
  | true => simp [Entry.readWhen, h, bind, Except.bind, pure, Except.pure]

theorem readExecute_eq (o : Options) (x : Test.Executed) :
    readExecute o (record .execute (Test.executeRoutine x)) =
      .ok (.execute x.name.text x.verdict.1 x.verdict.2) := by
  obtain ⟨hname, hchoice, hexpr, hetrap, hresult, herror, hnone⟩ := executeRoutine_nodes x
  obtain ⟨choice, hchoice⟩ := Option.isSome_iff_exists.1 hchoice
  obtain ⟨expr, hexpr⟩ := Option.isSome_iff_exists.1 hexpr
  obtain ⟨etrap, hetrap⟩ := Option.isSome_iff_exists.1 hetrap
  have hread : ∀ k v, Test.executeRoutine x k = some v →
      (record .execute (Test.executeRoutine x)).read (.str "exec" :: k) = .ok v := by
    intro k v h
    rw [read_exec, h]
  have hselect : (record .execute (Test.executeRoutine x)).selectError (.str x.verdict.1)
      [.str "exec", .str "error"] = .ok (.str x.verdict.2) := by
    by_cases h : x.verdict.1 = "error"
    · exact (if_pos h).trans (hread _ _ (herror h))
    · rw [hnone h]
      exact if_neg h
  unfold readExecute
  rw [hread _ _ hname, readWhen_ok (hread _ _ hchoice), hread _ _ hresult]
  simp only [bind, Except.bind, readWhen_ok (hread _ _ hexpr), readWhen_ok (hread _ _ hetrap),
    hselect]
  rfl

/-- The recorded nodes of a `$zroutines` are those the analyzer merges. -/
theorem mergeZro_eq (zro : List (LogZro String)) :
    mergeZro (record .setZroutines (Test.setZroutines zro)) = Zro.ofLog zro := by
  have hnode : ∀ k, (record .setZroutines (Test.setZroutines zro)).nodes (.str "zro" :: k) =
      Test.setZroutines zro k := fun _ => rfl
  have hitem : ∀ i rest, Test.setZroutines zro (.num (i + 1) :: rest) =
      zro[i]?.bind fun z => Test.zroEntry z rest := fun i rest => by
    rw [← Arr.ofItems_get]
    rfl
  have hsrc : ∀ (z : LogZro String) (j : Nat),
      (Test.zroEntry z [.num (j + 1)]).map Val.text = z.srcs[j]? := fun z j => by
    have : Test.zroEntry z [.num (j + 1)] =
        z.srcs[j]?.bind fun src => Arr.empty.set [] (.str src) [] := by
      rw [← Arr.ofItems_get]
      rfl
    rw [this]
    cases z.srcs[j]? <;> simp [Val.text]
  unfold mergeZro Zro.ofLog
  simp only [hnode]
  congr 1
  · simp [Test.setZroutines, Arr.ofItems, Val.toNat]
  · funext i
    cases i with
    | zero => rfl
    | succ i =>
        simp only [Nat.succ_ne_zero, if_false, hitem]
        cases zro[i]? with
        | none => simp [ZroEntry.empty]
        | some z =>
            simp only [Option.bind_some, Option.map_some, Option.getD_some, ZroEntry.ofLog]
            congr 1
            · cases hst : z.starred <;> simp [Test.zroEntry, hst, Val.toNat]
            · simp [Test.zroEntry, Arr.ofItems, Val.toNat]
            · funext j
              cases j with
              | zero => rfl
              | succ j =>
                  rw [if_neg (Nat.succ_ne_zero j)]
                  exact hsrc z j

/-- **One entry, read back**: the analysis is told what the action did, with the action's own
    results and errors -- or, if a zrupdate recorded an error, the reader stops at the node under
    which it looks for the error's text. -/
theorem readEntry_eq (o : Options) (x : Outcome) :
    readEntry o x.entry =
      if x.noZrupdateError then .ok x.call
      else .error (.undefined [.str "exec", .str "error"]) := by
  cases x with
  | setZroutines zro =>
      exact congrArg (fun z => Except.ok (Call.setZroutines z)) (mergeZro_eq zro)
  | writeSources items =>
      exact congrArg (Call.writeSources <$> ·) (readWriteSource_eq items)
  | deleteSources items =>
      refine congrArg (Call.deleteSources <$> ·) (readFile_eq rfl (fun x => ?_) items)
      cases x with
      | nothing => exact Or.inl ⟨rfl, rfl⟩
      | file name dir => exact Or.inr ⟨name, dir, rfl, rfl, rfl⟩
  | deleteObjects items =>
      refine congrArg (Call.deleteObjects <$> ·) (readFile_eq rfl (fun x => ?_) items)
      cases x with
      | nothing => exact Or.inl ⟨rfl, rfl⟩
      | file name dir => exact Or.inr ⟨name, dir, rfl, rfl, rfl⟩
  | compile items => exact congrArg (Call.compile <$> ·) (readCompile_eq items)
  | link items =>
      refine congrArg (Call.link <$> ·) (readFile_eq rfl (fun x => ?_) items)
      rcases x with _ | ⟨name, dir, _ | zstatus⟩
      · exact Or.inl ⟨rfl, rfl⟩
      · exact Or.inr ⟨name, dir, rfl, rfl, rfl⟩
      · exact Or.inl ⟨rfl, rfl⟩
  | zrupdate items =>
      refine (congrArg (Call.zrupdate <$> ·) (readZrupdate_eq items)).trans ?_
      have hany : (Outcome.zrupdate items).noZrupdateError = !items.any Test.Zrupdated.failed := by
        simp [Outcome.noZrupdateError, List.all_eq_not_any_not]
      rw [hany]
      cases items.any Test.Zrupdated.failed with
      | true => rfl
      | false => rfl
  | execute x => exact readExecute_eq o x
  | makeDirs items => exact congrArg (Call.makeDirs <$> ·) (readMakeDir_eq items)

/-! ## 7. A whole log -/

/-- One action of a test run. No two have one time: the clock is read under the lock on
    `^ACTION`. -/
structure Logged where
  time : Nat
  pid : Nat
  outcome : Outcome

/-- The log of a test run. -/
def logOf (run : List Logged) : Log := run.map fun r => (r.time, [(r.pid, r.outcome.entry)])

theorem replayAnalyzeParent_cons (o : Options) (r : Logged) (run : List Logged) :
    replayAnalyzeParent o (logOf (r :: run)) =
      if r.outcome.noZrupdateError then
        replayAnalyzeParent o (logOf run) >>= fun later =>
          .ok ((r.time, r.pid, r.outcome.call) :: later)
      else .error (.undefined [.str "exec", .str "error"]) := by
  show (readPids o 1 [(r.pid, r.outcome.entry)] >>= fun calls =>
    replayAnalyzeParent o (logOf run) >>= fun later =>
      pure ((calls.map fun c => (r.time, c.1, c.2)) ++ later)) = _
  have hpids : readPids o 1 [(r.pid, r.outcome.entry)] =
      if r.outcome.noZrupdateError then .ok [(r.pid, r.outcome.call)]
      else .error (.undefined [.str "exec", .str "error"]) := by
    simp only [readPids, readEntry_eq, if_true, pure, Except.pure, bind, Except.bind]
    cases r.outcome.noZrupdateError <;> rfl
  rw [hpids]
  cases r.outcome.noZrupdateError <;> rfl

/-- **The analysis of a log is told exactly what the run did, to the log's end, if and only if no
    zrupdate of the run recorded an error.** -/
theorem replayAnalyzeParent_eq_iff (o : Options) (run : List Logged) :
    replayAnalyzeParent o (logOf run) =
        .ok (run.map fun r => (r.time, r.pid, r.outcome.call)) ↔
      ∀ r ∈ run, r.outcome.noZrupdateError = true := by
  induction run with
  | nil => simp [logOf, replayAnalyzeParent]
  | cons r run ih =>
      rw [replayAnalyzeParent_cons, List.forall_mem_cons, ← ih]
      by_cases hr : r.outcome.noZrupdateError = true
      · rw [if_pos hr]
        constructor
        · intro h
          obtain ⟨later, hlater, h⟩ := bind_eq_ok.1 h
          simp only [List.map_cons, Except.ok.injEq, List.cons.injEq, true_and] at h
          rw [hlater, h]
          exact ⟨hr, rfl⟩
        · rintro ⟨-, h⟩
          rw [h]
          rfl
      · rw [if_neg hr]
        exact ⟨fun h => (nomatch h), fun h => absurd h.1 hr⟩

/-- A wildcard zrupdate that raised an error, with its text, stops the analysis of the log. -/
theorem replayAnalyzeParent_stops :
    replayAnalyzeParent ⟨false, false, fun _ => false⟩
        (logOf [⟨5, 100, .zrupdate [.wildcard "objABC" (some "%YDB-E-RCTLERR")]⟩]) =
        .error (.undefined [.str "exec", .str "error"]) ∧
      replayAnalyzeParent ⟨false, false, fun _ => false⟩
        (logOf [⟨5, 100, .zrupdate [.wildcard "objABC" (some "%YDB-E-RCTLERR")]⟩]) ≠
        .ok [(5, 100, .zrupdate [("objABC", .wildcard, "error", "%YDB-E-RCTLERR")])] := by
  have hstop : replayAnalyzeParent ⟨false, false, fun _ => false⟩
      (logOf [⟨5, 100, .zrupdate [.wildcard "objABC" (some "%YDB-E-RCTLERR")]⟩]) =
      .error (.undefined [.str "exec", .str "error"]) := rfl
  rw [hstop]
  exact ⟨rfl, fun h => (nomatch h)⟩

end YottaTest.Barrage
