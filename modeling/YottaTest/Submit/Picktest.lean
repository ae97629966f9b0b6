/-
  File:      YottaTest/Submit/Picktest.lean
  Subject:   distributed_test_pick.csh: how the servers of a distributed run share the tests.

  Before a server runs a test it looks for the test in a control file. If nobody has picked it, the
  server appends a line with its own name, and runs the test if that is the first line of the test.
  Some tests come in two variants, of which one is enough: the look-up is for both of them, the
  second look is for the test's own name.

  * `Host`, `Name`, `record` -- names, and a line of the control file;
  * `lookupNames` -- what the script looks for; `Variants`, `lookupNames_variants`;
  * `picktest`, `step`, `run` -- a server's next step, and the servers' steps in any order;
  * `OncePerName`, `OncePerTest`, `run_once` -- **a name is given to one server at most; a test with
    two variants too, as long as no server appends one variant when the other is in the file.**
-/
import YottaTest.Awk.Text
import YottaTest.Outref.Envir

namespace YottaTest.Picktest

open Function YottaTest.Awk
open YottaTest.Outref (fields isBlank fields_append fields_word)

abbrev Text := List Char

local instance lawfulText : LawfulBEq Text := inferInstance

/-! ## 1. Names and lines -/

/-- The name of a server, without its domain. -/
structure Host where
  text : Text
  ne_nil : text ≠ []
  valid : text.all (fun c => c.isAlphanum || c = '-') = true
  deriving DecidableEq

/-- The name of a test: its directory, an underscore and its number. -/
structure Name where
  text : Text
  ne_nil : text ≠ []
  valid : text.all (fun c => c.isAlphanum || c = '_' || c = '-' || c = '.') = true
  deriving DecidableEq

/-- A time, `%Y%m%d_%H%M%S`. -/
structure Stamp where
  text : Text
  ne_nil : text ≠ []
  valid : text.all (fun c => c.isDigit || c = '_') = true

/-- `%-Ns` -/
def ljust (n : Nat) (s : Text) : Text := s ++ List.replicate (n - s.length) ' '

/-- `printf "%-19s : %-15s : %s\n"`, without the end of the line. -/
def record (testname : Name) (short_host : Host) (picked_time : Stamp) : Text :=
  ljust 19 testname.text ++ " : ".toList ++ ljust 15 short_host.text ++ " : ".toList ++ picked_time.text

/-- `$n` -/
def field (n : Nat) (line : Text) : Text := (fields line)[n - 1]?.getD []

/-- `awk '$1 == ... {print $3 ; exit}'`: the third column of the first line for one of the names. -/
def awkFirst (names : List Text) (control : List Text) : Text :=
  ((control.find? fun line => field 1 line ∈ names).map (field 3)).getD []

/-! ## 2. The script -/

/-- `sed 's/\(word.\).*/\1/'` -/
def keepThrough (word : Text) : Text → Text
  | [] => []
  | c :: s =>
      if word.isPrefixOf (c :: s) && decide (word.length < (c :: s).length) then
        (c :: s).take (word.length + 1)
      else c :: keepThrough word s

/-- What is left of a text that begins with `._4*1`. -/
def afterVariant : Text → Option Text
  | _ :: '_' :: s => match s.dropWhile (· = '4') with
      | '1' :: rest => some rest
      | _ => none
  | _ => none

/-- `sed 's/word._4*1//'` -/
def dropVariant (word : Text) : Text → Text
  | [] => []
  | c :: s =>
      if word.isPrefixOf (c :: s) then
        match afterVariant ((c :: s).drop word.length) with
        | some rest => rest
        | none => c :: dropVariant word s
      else c :: dropVariant word s

def msreplic : Text := ['m', 's', 'r', 'e', 'p', 'l', 'i', 'c', '_']

def suppl_inst : Text := ['s', 'u', 'p', 'p', 'l', '_', 'i', 'n', 's', 't', '_']

/-- The names the first look is for. -/
def lookupNames (testname : Text) : List Text :=
  -- $testname =~ {suppl_inst,msreplic_}*
  if (suppl_inst.dropLast).isPrefixOf testname || msreplic.isPrefixOf testname then
    let tst := keepThrough suppl_inst (keepThrough msreplic testname)
    let run := dropVariant suppl_inst (dropVariant msreplic testname)
    [tst ++ '_' :: '4' :: '1' :: run, tst ++ '_' :: '1' :: run]
  else [testname]

/-- Where a server is in the script. -/
inductive Pc where
  | idle
  /-- before the first look -/
  | look (testname : Name)
  /-- the test was not picked -/
  | echo (testname : Name)
  /-- the server's line is appended -/
  | reread (testname : Name)

/-- The control file, the servers, and the tests each was told to run. -/
structure State where
  control : List Text
  pc : Host → Pc
  told : Host → Name → Bool

/-- The script prints a name; a server that reads its own runs the test. -/
def report (s : State) (short_host : Host) (testname : Name) (whopicked : Text) : State :=
  { s with
    pc := update s.pc short_host .idle
    told := if whopicked = short_host.text then
        update s.told short_host (update (s.told short_host) testname true)
      else s.told }

/-- The next step of a server. -/
def picktest (s : State) (short_host : Host) (picked_time : Stamp) : State :=
  match s.pc short_host with
  | .idle => s
  | .look testname =>
      let picked := awkFirst (lookupNames testname.text) s.control
      if picked = [] then { s with pc := update s.pc short_host (.echo testname) }
      else report s short_host testname ('_' :: picked ++ ['_'])
  | .echo testname =>
      { s with
        control := s.control ++ [record testname short_host picked_time]
        pc := update s.pc short_host (.reread testname) }
  | .reread testname => report s short_host testname (awkFirst [testname.text] s.control)

inductive Event where
  /-- a server comes to a test -/
  | submit (short_host : Host) (testname : Name)
  /-- a server goes on -/
  | next (short_host : Host) (picked_time : Stamp)

def submit (s : State) (short_host : Host) (testname : Name) : State :=
  match s.pc short_host with
  | .idle => { s with pc := update s.pc short_host (.look testname) }
  | _ => s

def step (s : State) : Event → State
  | .submit short_host testname => submit s short_host testname
  | .next short_host picked_time => picktest s short_host picked_time

/-- Earlier picks may be in the control file. -/
def start (earlier : List (Name × Host × Stamp)) : State :=
  ⟨earlier.map fun e => record e.1 e.2.1 e.2.2, fun _ => .idle, fun _ _ => false⟩

def run (s : State) (events : List Event) : State := events.foldl step s

/-! ## 3. What is claimed -/

/-- A line of the file is about the test. -/
def Picked (control : List Text) (testname : Text) : Prop := ∃ line ∈ control, field 1 line = testname

/-- The two names of one test. -/
def Variants (a b : Text) : Prop :=
  ∃ word c run, (word = msreplic ∨ word = suppl_inst) ∧ (¬ msreplic <:+: run ∧ ¬ suppl_inst <:+: run) ∧
    a = word ++ c :: '_' :: '1' :: run ∧ b = word ++ c :: '_' :: '4' :: '1' :: run

/-- A name is given to one server at most. -/
def OncePerName (s : State) : Prop :=
  ∀ testname h h', s.told h testname = true → s.told h' testname = true → h = h'

/-- Two variants are given to one server at most. -/
def OncePerTest (s : State) : Prop :=
  ∀ a b : Name, Variants a.text b.text → ∀ x ∈ [a, b], ∀ y ∈ [a, b], ∀ h h',
    s.told h x = true → s.told h' y = true → h = h'

/-- A server appends its line for a test: the other names it looked for are not in the file. -/
def Alone (s : State) : Event → Prop
  | .submit _ _ => True
  | .next short_host _ => match s.pc short_host with
      | .echo testname => ∀ name ∈ lookupNames testname.text, name ≠ testname.text → ¬ Picked s.control name
      | _ => True

/-- It is so at every step. -/
def AloneRun : State → List Event → Prop
  | _, [] => True
  | s, e :: events => Alone s e ∧ AloneRun (step s e) events

/-! ## 4. Columns -/

theorem not_isBlank_of_isAlphanum {c : Char} (h : c.isAlphanum = true) : isBlank c = false := by
  rw [Bool.eq_false_iff]
  intro hblank
  unfold isBlank at hblank
  simp only [Bool.or_eq_true, decide_eq_true_eq] at hblank
  rcases hblank with (rfl | rfl) | rfl
  · exact absurd h (by decide)
  · exact absurd h (by decide)
  · exact absurd h (by decide)

theorem Host.word (h : Host) : ∀ c ∈ h.text, isBlank c = false := by
  intro c hc
  have hvalid := List.all_eq_true.1 h.valid c hc
  simp only [Bool.or_eq_true, decide_eq_true_eq] at hvalid
  rcases hvalid with hvalid | rfl
  · exact not_isBlank_of_isAlphanum hvalid
  · rfl

theorem Name.word (n : Name) : ∀ c ∈ n.text, isBlank c = false := by
  intro c hc
  have hvalid := List.all_eq_true.1 n.valid c hc
  simp only [Bool.or_eq_true, decide_eq_true_eq] at hvalid
  rcases hvalid with ((hvalid | rfl) | rfl) | rfl
  · exact not_isBlank_of_isAlphanum hvalid
  · rfl
  · rfl
  · rfl

theorem fields_ljust {w : Text} (hne : w ≠ []) (hw : ∀ c ∈ w, isBlank c = false) (n : Nat) (v : Text) :
    fields (ljust n w ++ ' ' :: v) = w :: fields v := by
  have hpad : ∀ k, fields (List.replicate k ' ' ++ ' ' :: v) = fields v := by
    intro k
    induction k with
    | zero => exact fields_append (by decide) [] v
    | succ k ih => exact (fields_append (by decide) [] _).trans ih
  unfold ljust
  rw [List.append_assoc]
  cases hk : n - w.length with
  | zero =>
      rw [List.replicate_zero, List.nil_append, fields_append (by decide), fields_word hne hw]
      rfl
  | succ k =>
      rw [List.replicate_succ, List.cons_append, fields_append (by decide), fields_word hne hw, hpad]
      rfl

/-- **What awk reads in a line is what the script put there.** -/
theorem fields_record (n : Name) (h : Host) (t : Stamp) :
    ∃ last, fields (record n h t) = n.text :: [':'] :: h.text :: [':'] :: last := by
  refine ⟨fields t.text, ?_⟩
  have hcolon : ∀ v, fields (':' :: ' ' :: v) = [':'] :: fields v := by
    intro v
    exact (fields_append (u := [':']) (by decide) v).trans
      (congrArg (· ++ fields v) (fields_word (by decide) (forall_mem_of_all (by decide))))
  have htext : record n h t = ljust 19 n.text ++ ' ' :: ':' :: ' ' ::
      (ljust 15 h.text ++ ' ' :: ':' :: ' ' :: t.text) := by simp [record]
  rw [htext, fields_ljust n.ne_nil n.word, hcolon, fields_ljust h.ne_nil h.word, hcolon]

@[simp] theorem field_one_record (n : Name) (h : Host) (t : Stamp) : field 1 (record n h t) = n.text := by
  obtain ⟨last, hfields⟩ := fields_record n h t
  rw [field, hfields]
  rfl

@[simp] theorem field_three_record (n : Name) (h : Host) (t : Stamp) : field 3 (record n h t) = h.text := by
  obtain ⟨last, hfields⟩ := fields_record n h t
  rw [field, hfields]
  rfl

/-! ## 5. The look-up for two variants -/

theorem keepThrough_found {word : Text} (hne : word ≠ []) (c : Char) (s : Text) :
    keepThrough word (word ++ c :: s) = word ++ [c] := by
  obtain ⟨d, w, rfl⟩ := List.exists_cons_of_ne_nil hne
  have hpre : (d :: w).isPrefixOf (d :: (w ++ c :: s)) = true := List.isPrefixOf_iff_prefix.2 ⟨c :: s, rfl⟩
  have htake : (d :: (w ++ c :: s)).take ((d :: w).length + 1) = d :: w ++ [c] := by
    have h : (d :: w ++ [c] ++ s).take (d :: w ++ [c]).length = d :: w ++ [c] := List.take_left
    simpa using h
  rw [List.cons_append, keepThrough, hpre, htake, if_pos]
  simp

theorem keepThrough_of_not_infix {word : Text} : ∀ {s : Text}, ¬ word <:+: s → keepThrough word s = s
  | [], _ => rfl
  | c :: s, h => by
      have hpre : word.isPrefixOf (c :: s) = false := by
        rw [Bool.eq_false_iff]
        exact fun hp => h (List.isPrefixOf_iff_prefix.1 hp).isInfix
      rw [keepThrough, hpre, keepThrough_of_not_infix fun hs => h (hs.trans (List.suffix_cons c s).isInfix)]
      rfl

/-- There is nothing after the word. -/
theorem keepThrough_of_length : ∀ {word s : Text}, s.length ≤ word.length → keepThrough word s = s
  | _, [], _ => rfl
  | word, c :: s, h => by
      have hlen : decide (word.length < (c :: s).length) = false := decide_eq_false (Nat.not_lt.2 h)
      have hrest : s.length ≤ word.length := Nat.le_trans (Nat.le_succ _) h
      rw [keepThrough, hlen, Bool.and_false, keepThrough_of_length hrest]
      rfl

theorem dropVariant_found {word s rest : Text} (hne : word ≠ []) (h : afterVariant s = some rest) :
    dropVariant word (word ++ s) = rest := by
  obtain ⟨d, w, rfl⟩ := List.exists_cons_of_ne_nil hne
  have hpre : (d :: w).isPrefixOf (d :: (w ++ s)) = true := List.isPrefixOf_iff_prefix.2 ⟨s, rfl⟩
  have hdrop : (d :: w ++ s).drop (d :: w).length = s := List.drop_left
  rw [List.cons_append, dropVariant, hpre, if_pos rfl, ← List.cons_append, hdrop, h]

theorem dropVariant_of_not_infix {word : Text} : ∀ {s : Text}, ¬ word <:+: s → dropVariant word s = s
  | [], _ => rfl
  | c :: s, h => by
      have hpre : word.isPrefixOf (c :: s) = false := by
        rw [Bool.eq_false_iff]
        exact fun hp => h (List.isPrefixOf_iff_prefix.1 hp).isInfix
      rw [dropVariant, hpre, dropVariant_of_not_infix fun hs => h (hs.trans (List.suffix_cons c s).isInfix)]
      rfl

/-- The other kind of test is not found in a name of suppl_inst. -/
theorem msreplic_not_infix {c : Char} {u run : Text} (hu : u = ['_'] ∨ u = ['_', '4'])
    (hrun : ¬ msreplic <:+: run) : ¬ msreplic <:+: suppl_inst ++ c :: (u ++ '1' :: run) := by
  have hone : '1' ∉ msreplic := by decide
  have hn : 'n' ∉ msreplic := by decide
  have hne : msreplic ≠ [] := by decide
  have htext : suppl_inst ++ c :: (u ++ '1' :: run) = (suppl_inst ++ c :: u) ++ '1' :: run := by simp
  have hcut : suppl_inst ++ c :: u = ['s', 'u', 'p', 'p', 'l', '_', 'i'] ++ 'n' :: (['s', 't', '_', c] ++ u) := rfl
  rw [htext, infix_append_sep hne hone, hcut, infix_append_sep hne hn]
  intro h
  rcases h with (h | h) | h
  · exact absurd h.length_le (by decide)
  · refine absurd h.length_le ?_
    rcases hu with rfl | rfl
    · simp [msreplic]
    · simp [msreplic]
  · exact hrun h

/-- **The look-up for one variant is for both.** -/
theorem lookupNames_variants {a b : Text} (h : Variants a b) :
    lookupNames a = [b, a] ∧ lookupNames b = [b, a] := by
  obtain ⟨word, c, run, hword, ⟨hm, hs⟩, rfl, rfl⟩ := h
  have hone : afterVariant (c :: '_' :: '1' :: run) = some run := by simp [afterVariant]
  have hfortyone : afterVariant (c :: '_' :: '4' :: '1' :: run) = some run := by simp [afterVariant]
  rcases hword with rfl | rfl
  · have hkeep : ∀ s, keepThrough suppl_inst (keepThrough msreplic (msreplic ++ c :: s)) = msreplic ++ [c] := by
      intro s
      rw [keepThrough_found (by decide), keepThrough_of_length (by simp [msreplic, suppl_inst])]
    have hpre : ∀ s, msreplic.isPrefixOf (msreplic ++ s) = true := fun s =>
      List.isPrefixOf_iff_prefix.2 ⟨s, rfl⟩
    unfold lookupNames
    simp only [hpre, Bool.or_true, if_true, hkeep, dropVariant_found (by decide : msreplic ≠ []) hone,
      dropVariant_found (by decide : msreplic ≠ []) hfortyone, dropVariant_of_not_infix hs]
    simp
  · have hnot1 : ¬ msreplic <:+: suppl_inst ++ c :: '_' :: '1' :: run := msreplic_not_infix (Or.inl rfl) hm
    have hnot41 : ¬ msreplic <:+: suppl_inst ++ c :: '_' :: '4' :: '1' :: run :=
      msreplic_not_infix (Or.inr rfl) hm
    have hpre : ∀ s, suppl_inst.dropLast.isPrefixOf (suppl_inst ++ s) = true := fun s =>
      List.isPrefixOf_iff_prefix.2 ⟨'_' :: s, rfl⟩
    unfold lookupNames
    simp only [hpre, Bool.true_or, if_true, keepThrough_of_not_infix hnot1, keepThrough_of_not_infix hnot41,
      keepThrough_found (by decide : suppl_inst ≠ []), dropVariant_of_not_infix hnot1,
      dropVariant_of_not_infix hnot41, dropVariant_found (by decide : suppl_inst ≠ []) hone,
      dropVariant_found (by decide : suppl_inst ≠ []) hfortyone]
    simp

/-! ## 6. The first line of a test -/

theorem Host.ext_text {h h' : Host} (heq : h.text = h'.text) : h = h' := by
  cases h
  cases h'
  cases heq
  rfl

theorem Name.ext_text {n n' : Name} (heq : n.text = n'.text) : n = n' := by
  cases n
  cases n'
  cases heq
  rfl

/-- Every line is a record. -/
def Records (control : List Text) : Prop := ∀ line ∈ control, ∃ n h t, line = record n h t

theorem Records.append {control : List Text} (h : Records control) (n : Name) (host : Host) (t : Stamp) :
    Records (control ++ [record n host t]) := by
  intro line hline
  rcases List.mem_append.1 hline with hline | hline
  · exact h line hline
  · exact ⟨n, host, t, List.mem_singleton.1 hline⟩

/-- Nothing is found exactly if nobody picked any of the names. -/
theorem awkFirst_eq_nil {control : List Text} (h : Records control) (names : List Text) :
    awkFirst names control = [] ↔ ∀ name ∈ names, ¬ Picked control name := by
  unfold awkFirst
  cases hfind : control.find? fun line => field 1 line ∈ names with
  | none =>
      rw [List.find?_eq_none] at hfind
      refine iff_of_true rfl fun name hname hpicked => ?_
      obtain ⟨line, hline, rfl⟩ := hpicked
      exact hfind line hline (decide_eq_true hname)
  | some line =>
      have hmem := List.mem_of_find?_eq_some hfind
      have hname : field 1 line ∈ names := by simpa using List.find?_some hfind
      obtain ⟨n, host, t, rfl⟩ := h line hmem
      refine iff_of_false ?_ fun hnone => hnone _ hname ⟨_, hmem, rfl⟩
      rw [Option.map_some, field_three_record]
      exact host.ne_nil

/-- What is found stays what is found. -/
theorem awkFirst_append {control : List Text} {names : List Text} (h : awkFirst names control ≠ [])
    (line : Text) : awkFirst names (control ++ [line]) = awkFirst names control := by
  unfold awkFirst at h ⊢
  rw [List.find?_append]
  cases hfind : control.find? fun line => field 1 line ∈ names with
  | none => rw [hfind] at h; exact absurd rfl h
  | some l => rfl

theorem picked_append {control : List Text} (n : Name) (host : Host) (t : Stamp) (name : Text) :
    Picked (control ++ [record n host t]) name ↔ Picked control name ∨ n.text = name := by
  unfold Picked
  simp

/-- A server has looked for a test, and found it free. -/
def Free (s : State) (host : Host) (n : Name) : Prop :=
  s.pc host = .echo n ∨ s.pc host = .reread n ∨ s.told host n = true

structure Inv (earlier : List (Name × Host × Stamp)) (s : State) : Prop where
  records : Records s.control
  /-- lines stay -/
  grows : ∀ name, Picked (start earlier).control name → Picked s.control name
  /-- a server goes on only with a test that nobody had picked before -/
  free : ∀ host n, Free s host n → ∀ name ∈ lookupNames n.text, ¬ Picked (start earlier).control name
  /-- and runs it only if its line is the first one -/
  told : ∀ host n, s.told host n = true → awkFirst [n.text] s.control = host.text

variable {earlier : List (Name × Host × Stamp)} {s : State}

theorem inv_start (earlier : List (Name × Host × Stamp)) : Inv earlier (start earlier) where
  records line hline := by
    obtain ⟨e, -, rfl⟩ := List.mem_map.1 hline
    exact ⟨_, _, _, rfl⟩
  grows _ h := h
  free host n h := by
    rcases h with h | h | h <;> cases h
  told host n h := by cases h

/-- A server goes on, without anything told. -/
theorem Inv.goto (h : Inv earlier s) {host : Host} {pc : Pc}
    (hpc : ∀ n, pc = .echo n ∨ pc = .reread n → ∀ name ∈ lookupNames n.text,
      ¬ Picked (start earlier).control name) : Inv earlier { s with pc := update s.pc host pc } where
  records := h.records
  grows := h.grows
  free q n hfree := by
    by_cases hq : q = host
    · subst hq
      dsimp only [Free] at hfree
      rw [update_self, ← or_assoc] at hfree
      rcases hfree with hfree | hfree
      · exact hpc n hfree
      · exact h.free q n (Or.inr (Or.inr hfree))
    · dsimp only [Free] at hfree
      rw [update_of_ne hq] at hfree
      exact h.free q n hfree
  told := h.told

/-- A server is told what it read. -/
theorem Inv.report (h : Inv earlier s) {host : Host} {n : Name} {whopicked : Text}
    (htold : whopicked = host.text → awkFirst [n.text] s.control = host.text ∧
      ∀ name ∈ lookupNames n.text, ¬ Picked (start earlier).control name) :
    Inv earlier (report s host n whopicked) := by
  have hidle : Inv earlier { s with pc := update s.pc host .idle } := h.goto fun n hn => by simp at hn
  unfold Picktest.report
  by_cases heq : whopicked = host.text
  · rw [if_pos heq]
    obtain ⟨hfirst, hnames⟩ := htold heq
    have hset : ∀ q m, update s.told host (update (s.told host) n true) q m = true →
        s.told q m = true ∨ (q = host ∧ m = n) := by
      intro q m hq
      by_cases hqh : q = host
      · subst hqh
        by_cases hm : m = n
        · exact Or.inr ⟨rfl, hm⟩
        · exact Or.inl (by simpa [hm] using hq)
      · exact Or.inl (by simpa [hqh] using hq)
    refine ⟨h.records, h.grows, fun q m hfree => ?_, fun q m hq => ?_⟩
    · rcases hfree with hpc | hpc | hq
      · exact hidle.free q m (Or.inl hpc)
      · exact hidle.free q m (Or.inr (Or.inl hpc))
      · rcases hset q m hq with hq | ⟨rfl, rfl⟩
        · exact h.free q m (Or.inr (Or.inr hq))
        · exact hnames
    · rcases hset q m hq with hq | ⟨rfl, rfl⟩
      · exact h.told q m hq
      · exact hfirst
  · rw [if_neg heq]
    exact hidle

/-- **A server's step.** -/
theorem Inv.picktest (h : Inv earlier s) (host : Host) (t : Stamp) : Inv earlier (picktest s host t) := by
  unfold Picktest.picktest
  cases hpc : s.pc host with
  | idle => exact h
  | look n =>
      dsimp only
      split
      · rename_i hnone
        refine h.goto fun m hm name hname hpicked => ?_
        have heq : n = m := by simpa using hm
        subst heq
        exact (awkFirst_eq_nil h.records _).1 hnone name hname (h.grows name hpicked)
      · refine h.report fun heq => ?_
        -- no host name begins with an underscore
        have hvalid := host.valid
        rw [← heq] at hvalid
        simp at hvalid
  | echo n =>
      have hfree := h.free host n (Or.inl hpc)
      have hgoto : Inv earlier { s with pc := update s.pc host (.reread n) } := by
        refine h.goto fun m hm => ?_
        have heq : n = m := by simpa using hm
        exact heq ▸ hfree
      refine ⟨h.records.append n host t, fun name hname => ?_, hgoto.free, fun q m hq => ?_⟩
      · exact (picked_append n host t name).2 (Or.inl (h.grows name hname))
      · have hfirst := h.told q m hq
        have hne : awkFirst [m.text] s.control ≠ [] := hfirst ▸ q.ne_nil
        exact (awkFirst_append hne _).trans hfirst
  | reread n => exact h.report fun heq => ⟨heq, h.free host n (Or.inr (Or.inl hpc))⟩

theorem Inv.submit (h : Inv earlier s) (host : Host) (n : Name) : Inv earlier (submit s host n) := by
  unfold Picktest.submit
  split
  · exact h.goto fun m hm => by simp at hm
  · exact h

theorem Inv.step (h : Inv earlier s) (e : Event) : Inv earlier (step s e) := by
  cases e with
  | submit host n => exact h.submit host n
  | next host t => exact h.picktest host t

theorem Inv.run : ∀ (events : List Event) {s : State}, Inv earlier s → Inv earlier (run s events)
  | [], _, h => h
  | e :: events, _, h => Inv.run events (h.step e)

theorem Inv.oncePerName (h : Inv earlier s) : OncePerName s := fun n q q' hq hq' =>
  Host.ext_text ((h.told q n hq).symm.trans (h.told q' n hq'))

/-! ## 7. Two variants -/

/-- What a step does to the file. -/
theorem step_control (s : State) (e : Event) : (step s e).control = s.control ∨
    ∃ host t n, e = .next host t ∧ s.pc host = .echo n ∧
      (step s e).control = s.control ++ [record n host t] := by
  cases e with
  | submit host n =>
      left
      dsimp only [step, submit]
      split <;> rfl
  | next host t =>
      dsimp only [step, picktest]
      cases hpc : s.pc host with
      | idle => exact Or.inl rfl
      | look n =>
          left
          dsimp only
          split <;> rfl
      | echo n => exact Or.inr ⟨host, t, n, rfl, hpc, rfl⟩
      | reread n => exact Or.inl rfl

/-- The two variants of a test are not both in the file, if they were free. -/
def Separate (earlier : List (Name × Host × Stamp)) (s : State) : Prop :=
  ∀ a b, Variants a b → Picked s.control a → Picked s.control b →
    Picked (start earlier).control a ∨ Picked (start earlier).control b

theorem variants_ne {a b : Text} (h : Variants a b) : a ≠ b := by
  obtain ⟨word, c, run, -, -, rfl, rfl⟩ := h
  intro heq
  have hlen := congrArg List.length heq
  simp at hlen

theorem Separate.step (h : Separate earlier s) {e : Event} (halone : Alone s e) :
    Separate earlier (step s e) := by
  rcases step_control s e with heq | ⟨host, t, n, rfl, hpc, heq⟩
  · unfold Separate
    rw [heq]
    exact h
  · intro a b hvar ha hb
    obtain ⟨hla, hlb⟩ := lookupNames_variants hvar
    have hne := variants_ne hvar
    dsimp only [Alone] at halone
    rw [hpc] at halone
    rw [heq, picked_append] at ha hb
    rcases ha with ha | ha
    · rcases hb with hb | hb
      · exact h a b hvar ha hb
      · refine absurd ha (halone a ?_ fun hab => hne (hab.trans hb))
        rw [hb, hlb]
        simp
    · rcases hb with hb | hb
      · refine absurd hb (halone b ?_ fun hba => hne (ha.symm.trans hba.symm))
        rw [ha, hla]
        simp
      · exact absurd (ha.symm.trans hb) hne

theorem Separate.run : ∀ {events : List Event} {s : State}, Separate earlier s → AloneRun s events →
    Separate earlier (run s events)
  | [], _, h, _ => h
  | _ :: _, _, h, halone => by
      have hrun := Separate.run (h.step halone.1) halone.2
      exact hrun

theorem Inv.picked (h : Inv earlier s) {host : Host} {n : Name} (htold : s.told host n = true) :
    Picked s.control n.text := by
  have hfirst := h.told host n htold
  by_contra hnone
  rw [(awkFirst_eq_nil h.records _).2 fun name hname => List.mem_singleton.1 hname ▸ hnone] at hfirst
  exact host.ne_nil hfirst.symm

theorem Inv.oncePerTest (h : Inv earlier s) (hsep : Separate earlier s) : OncePerTest s := by
  intro a b hvar x hx y hy host host' hxt hyt
  obtain ⟨hla, hlb⟩ := lookupNames_variants hvar
  -- one server told one variant, and one the other
  have hboth : ∀ p q, s.told p a = true → s.told q b = true → False := by
    intro p q hp hq
    rcases hsep a.text b.text hvar (h.picked hp) (h.picked hq) with hpicked | hpicked
    · exact h.free p a (Or.inr (Or.inr hp)) a.text (by rw [hla]; simp) hpicked
    · exact h.free q b (Or.inr (Or.inr hq)) b.text (by rw [hlb]; simp) hpicked
  rcases List.mem_cons.1 hx with rfl | hx
  · rcases List.mem_cons.1 hy with rfl | hy
    · exact h.oncePerName _ _ _ hxt hyt
    · obtain rfl := List.mem_singleton.1 hy
      exact (hboth _ _ hxt hyt).elim
  · obtain rfl := List.mem_singleton.1 hx
    rcases List.mem_cons.1 hy with rfl | hy
    · exact (hboth _ _ hyt hxt).elim
    · obtain rfl := List.mem_singleton.1 hy
      exact h.oncePerName _ _ _ hxt hyt

/-- **A test is given to one server at most**: a name in every run, and two variants in every run in
    which no server appends a variant when the other one is in the file. -/
theorem run_once (earlier : List (Name × Host × Stamp)) (events : List Event) :
    OncePerName (run (start earlier) events) ∧
      (AloneRun (start earlier) events → OncePerTest (run (start earlier) events)) := by
  have hinv := (inv_start earlier).run events
  refine ⟨hinv.oncePerName, fun halone => hinv.oncePerTest (Separate.run ?_ halone)⟩
  exact fun a b _ ha _ => Or.inl ha

/-! ## 8. Both variants -/

def hostA : Host := ⟨['a'], by decide, by decide⟩

def hostB : Host := ⟨['b'], by decide, by decide⟩

def stamp : Stamp := ⟨['1'], by decide, by decide⟩

def variant1 : Name := ⟨suppl_inst ++ ['A', '_', '1'], by decide, by decide⟩

def variant41 : Name := ⟨suppl_inst ++ ['A', '_', '4', '1'], by decide, by decide⟩

/-- A server picks suppl_inst_A, and only then another one comes to its other variant. -/
def oneAfterTheOther : List Event :=
  [.submit hostA variant1, .next hostA stamp, .next hostA stamp, .next hostA stamp,
    .submit hostB variant41, .next hostB stamp]

theorem run_once_alone : (run (start []) oneAfterTheOther).told hostA variant1 = true ∧
    (run (start []) oneAfterTheOther).told hostB variant41 = false ∧
    OncePerTest (run (start []) oneAfterTheOther) := by
  refine ⟨by decide, by decide, (run_once [] oneAfterTheOther).2 ⟨trivial, trivial, ?_, trivial, trivial, trivial,
    trivial⟩⟩
  -- the file is empty when the line is appended
  intro name _ _ ⟨line, hline, _⟩
  exact List.not_mem_nil hline

/-- **Two servers look at the same time for the two variants of suppl_inst_A, and both run it.** -/
theorem both_variants :
    ¬ OncePerTest (run (start []) [.submit hostA variant1, .submit hostB variant41, .next hostA stamp,
      .next hostB stamp, .next hostA stamp, .next hostB stamp, .next hostA stamp, .next hostB stamp]) := by
  intro h
  have hvar : Variants variant1.text variant41.text := by
    refine ⟨suppl_inst, 'A', [], Or.inr rfl, ⟨?_, ?_⟩, rfl, rfl⟩
    · exact fun hin => absurd hin.length_le (by decide)
    · exact fun hin => absurd hin.length_le (by decide)
  have heq := h variant1 variant41 hvar variant1 (by simp) variant41 (by simp) hostA hostB (by decide)
    (by decide)
  exact absurd heq (by decide)

end YottaTest.Picktest
