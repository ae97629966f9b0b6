/-
  File:      YottaTest/Port/Acquire.lean
  Subject:   portno_acquire.csh: how the processes of a machine share the port numbers.

  A process that wants a port appends a line to the port's file in /tmp, if the file does not exist,
  and has the port if its line is the first one. The processes take their steps in any order; one
  step is one test, one append, one look at the first line or one removal. A process knows its line by its
  id and its directory, which it looks for with grep at the beginning of the line.

  * `Call`, `Pc`, `State` -- a call of the script, where a process is in it, and the machine;
  * `acquire`, `step`, `run` -- the next step of a process, and a sequence of events;
  * `Signs` -- what tells whose a line is; `Inv` -- who holds a port, or is about to remove its file,
    stands first in the file;
  * `run_exclusive` -- **no two processes hold the same port**, if none takes the line of another one for
    its own;
  * `prefix_clash` -- two with one id, and a directory whose path begins with that of the other.
-/
import YottaTest.Awk.Text
import YottaTest.Lib.Digits
import YottaTest.Lib.Reserve

namespace YottaTest.Port

open Function YottaTest.Lib YottaTest.Awk

abbrev Text := List Char

/-! ## 1. The script -/

def port_upperlimit : Nat := 49000

def increment : Nat := 1

/-- The variables of one call. -/
structure Call where
  portno : Nat
  port_start : Nat
  port_max : Nat
  tst_working_dir : Text
  test_subtest_name : Text
  second_round : Bool
  deriving DecidableEq, Repr

/-- An existing reservation file at the end of the range starts the second round. -/
def Call.next (c : Call) : Call :=
  if !c.second_round && decide (c.port_max ≤ c.portno) then
    { c with portno := c.port_start, second_round := true }
  else c

/-- Where a process is in the script. -/
inductive Pc where
  /-- outside of the script -/
  | idle
  /-- before the `while` -/
  | loop (c : Call)
  /-- the reservation file did not exist -/
  | echo (c : Call)
  /-- its line is appended -/
  | reserved (c : Call)
  /-- is_port_in_use.csh found the port in use -/
  | inUse (c : Call)
  /-- its line is the first one, of a port in use -/
  | rm (c : Call)
  /-- is_port_in_use.csh did not find the port in use -/
  | unused (c : Call)

/-- The variables of the call a process is in. -/
def Pc.call : Pc → Option Call
  | .idle => none
  | .loop c | .echo c | .reserved c | .inUse c | .rm c | .unused c => some c

/-- The port whose file the process is about to write, look at or remove. -/
def Pc.port : Pc → Option Nat
  | .idle | .loop _ => none
  | .echo c | .reserved c | .inUse c | .rm c | .unused c => some c.portno

variable {P : Type}

/-- The reservation files, where the processes are, and the ports they were given. -/
structure State (P : Type) where
  files : Log Nat Text
  pc : P → Pc
  held : P → Nat → Bool

/-- `$$` -/
def pidText (pid : Nat) : Text := Nat.toDigits 10 pid

/-- `"$$ $tst_working_dir $test_subtest_name"` -/
def line (pid : Nat) (c : Call) : Text :=
  pidText pid ++ ' ' :: c.tst_working_dir ++ ' ' :: c.test_subtest_name

/-- What can happen. -/
inductive Event (P : Type) where
  /-- a process begins a call -/
  | source (p : P) (c : Call)
  /-- a process goes on -/
  | next (p : P) (used : Bool)
  /-- a process is done with a port and removes its reservation file -/
  | release (p : P) (portno : Nat)

/-- Files may be there from the beginning. -/
def start (files : Log Nat Text) : State P := ⟨files, fun _ => .idle, fun _ _ => false⟩

/-- No port is held twice. -/
def Exclusive (s : State P) : Prop := ∀ p q portno, s.held p portno = true → s.held q portno = true → p = q

section Script

variable [DecidableEq P]

def State.goto (s : State P) (p : P) (pc : Pc) : State P := { s with pc := update s.pc p pc }

theorem State.goto_self (s : State P) (p : P) (pc : Pc) : (s.goto p pc).pc p = pc := update_self ..

theorem State.goto_of_ne {p q : P} (hq : q ≠ p) (s : State P) (pc : Pc) : (s.goto p pc).pc q = s.pc q :=
  update_of_ne hq ..

-- the ids of the processes, and whether a text begins with a match of a directory, read as a regular
-- expression of grep
variable (pid : P → Nat) (dirMatch : Text → Text → Bool)

/-- `$grep "^$$ $tst_working_dir"` on a line. -/
def grep (pid : Nat) (tst_working_dir l : Text) : Bool :=
  (pidText pid ++ [' ']).isPrefixOf l && dirMatch tst_working_dir (l.drop (pidText pid ++ [' ']).length)

/-- `head -n 1 $port_reservation_file |& $grep …`; the message of head about a missing file does not begin
    with a number. -/
def grepFirst (pid : Nat) (c : Call) (files : Log Nat Text) : Bool :=
  match files.first c.portno with
  | none => false
  | some l => grep dirMatch pid c.tst_working_dir l

/-- The next step of a process; `used` is the answer of is_port_in_use.csh. -/
def acquire (p : P) (used : Bool) (s : State P) : State P :=
  match s.pc p with
  | .idle => s
  | .loop c =>
      if c.portno < port_upperlimit then
        let c := { c with portno := c.portno + increment }
        if (s.files c.portno).isSome then s.goto p (.loop c.next) else s.goto p (.echo c)
      else s.goto p .idle
  | .echo c => { s.goto p (.reserved c) with files := s.files.reserve c.portno (line (pid p) c) }
  | .reserved c => s.goto p (if used then .inUse c else .unused c)
  | .inUse c => s.goto p (if grepFirst dirMatch (pid p) c s.files then .rm c else .loop c)
  | .rm c => { s.goto p (.loop c) with files := s.files.drop c.portno }
  | .unused c =>
      if grepFirst dirMatch (pid p) c s.files then
        -- the loop is left; a port at the limit is not returned
        if c.portno < port_upperlimit then
          { s.goto p .idle with held := update s.held p (update (s.held p) c.portno true) }
        else s.goto p .idle
      else s.goto p (.loop c)

/-- The script is sourced. -/
def source (p : P) (c : Call) (s : State P) : State P :=
  match s.pc p with
  | .idle => s.goto p (.loop c)
  | _ => s

def step (s : State P) : Event P → State P
  | .source p c => source p c s
  | .next p used => acquire pid dirMatch p used s
  | .release p portno =>
      if s.held p portno then
        { s with
          files := s.files.drop portno
          held := update s.held p (update (s.held p) portno false) }
      else s

def run (s : State P) (events : List (Event P)) : State P := events.foldl (step pid dirMatch) s

end Script

/-! ## 2. Whose file it is -/

/-- A line that begins with the process id and a blank. -/
def Marked (pid : Nat) (l : Text) : Prop := pidText pid ++ [' '] <+: l

theorem blank_notMem_pidText (pid : Nat) : ' ' ∉ pidText pid := notMem_toDigits (by decide) pid

/-- The process id ends at the blank. -/
theorem Marked.unique {p q : Nat} {l : Text} (hp : Marked p l) (hq : Marked q l) : p = q := by
  obtain ⟨v, rfl⟩ := hq
  unfold Marked at hp
  rw [List.append_assoc, List.singleton_append,
    token_sep_prefix (blank_notMem_pidText p) (blank_notMem_pidText q)] at hp
  exact toDigits_inj hp.symm

theorem marked_line (pid : Nat) (c : Call) : Marked pid (line pid c) := by
  unfold Marked line
  refine ⟨c.tst_working_dir ++ ' ' :: c.test_subtest_name, ?_⟩
  simp

theorem marked_of_grep {dirMatch : Text → Text → Bool} {pid : Nat} {dir l : Text}
    (h : grep dirMatch pid dir l = true) : Marked pid l :=
  List.isPrefixOf_iff_prefix.1 (Bool.and_eq_true_iff.1 h).1

theorem grep_of_grepFirst {dirMatch : Text → Text → Bool} {pid : Nat} {c : Call} {files : Log Nat Text}
    (h : grepFirst dirMatch pid c files = true) :
    ∃ l, files.first c.portno = some l ∧ grep dirMatch pid c.tst_working_dir l = true := by
  unfold grepFirst at h
  cases hfirst : files.first c.portno with
  | none => rw [hfirst] at h; cases h
  | some l =>
      rw [hfirst] at h
      exact ⟨l, rfl, h⟩

/-- **What tells whose a line is**: the directories the processes may have, the lines that may then be
    written, and which of these are whose. A line is of one process at most, and grep finds only a line of
    the process. -/
structure Signs (P : Type) (pid : P → Nat) (dirMatch : Text → Text → Bool) where
  dir : P → Text → Prop
  written : Text → Prop
  own : P → Text → Prop
  written_line : ∀ {p : P} {c : Call}, dir p c.tst_working_dir → written (line (pid p) c)
  own_of_grep : ∀ {p : P} {d l : Text}, dir p d → written l → grep dirMatch (pid p) d l = true → own p l
  unique : ∀ {p q : P} {l : Text}, own p l → own q l → p = q

/-- A process holds the port, or is about to remove its file. -/
def Owns (s : State P) (p : P) (portno : Nat) : Prop :=
  s.held p portno = true ∨ ∃ c, s.pc p = .rm c ∧ c.portno = portno

variable {pid : P → Nat} {dirMatch : Text → Text → Bool}

structure Inv (signs : Signs P pid dirMatch) (s : State P) : Prop where
  /-- whoever owns a port stands first in its file -/
  first : ∀ p portno, Owns s p portno → ∃ l, s.files.first portno = some l ∧ signs.own p l
  /-- and a process that holds it is not on its way to it again -/
  away : ∀ p portno, s.held p portno = true → (s.pc p).port ≠ some portno
  /-- a process is on its way to a port only if one of the processes made its file -/
  written : ∀ p portno, (s.pc p).port = some portno → ∀ l, s.files.first portno = some l → signs.written l
  dir : ∀ p c, (s.pc p).call = some c → signs.dir p c.tst_working_dir

section Inv

variable {signs : Signs P pid dirMatch} {s : State P} {p : P} {portno : Nat}

theorem Inv.unique (h : Inv signs s) {q : P} (hp : Owns s p portno) (hq : Owns s q portno) : p = q := by
  obtain ⟨l, hl, hown⟩ := h.first p portno hp
  obtain ⟨l', hl', hown'⟩ := h.first q portno hq
  rw [hl, Option.some.injEq] at hl'
  exact signs.unique hown (hl' ▸ hown')

theorem Inv.exclusive (h : Inv signs s) : Exclusive s :=
  fun _ _ _ hp hq => h.unique (Or.inl hp) (Or.inl hq)

/-- What grep finds in the file of its port is its own line. -/
theorem Inv.own_of_grepFirst (h : Inv signs s) {c : Call} (hcall : (s.pc p).call = some c)
    (hport : (s.pc p).port = some c.portno) (hgrep : grepFirst dirMatch (pid p) c s.files = true) :
    ∃ l, s.files.first c.portno = some l ∧ signs.own p l := by
  obtain ⟨l, hl, hfound⟩ := grep_of_grepFirst hgrep
  exact ⟨l, hl, signs.own_of_grep (h.dir p c hcall) (h.written p c.portno hport l hl) hfound⟩

theorem inv_start (files : Log Nat Text) : Inv signs (start files) where
  first p portno h := by
    rcases h with h | ⟨c, h, -⟩
    · cases h
    · cases h
  away p portno h := by cases h
  written p portno h := by cases h
  dir p c h := by cases h

/-! ## 3. What a step keeps -/

/-- Appending a line. -/
theorem Inv.reserve (h : Inv signs s) (n : Nat) {l : Text} (hl : signs.written l) :
    Inv signs { s with files := s.files.reserve n l } where
  first q m howns := by
    obtain ⟨l', hl', hown⟩ := h.first q m howns
    exact ⟨l', Log.first_reserve hl' n l, hown⟩
  away := h.away
  written q m hm l' hl' := by
    by_cases hmn : m = n
    · subst hmn
      rcases Log.first_reserve_cases hl' with hold | rfl
      · exact h.written q m hm l' hold
      · exact hl
    · have hold : s.files.first m = some l' := by
        rw [← hl']
        exact (Log.first_reserve_of_ne hmn s.files l).symm
      exact h.written q m hm l' hold
  dir := h.dir

/-- Removing a file nobody owns. -/
theorem Inv.drop (h : Inv signs s) {n : Nat} (hfree : ∀ q, ¬ Owns s q n) :
    Inv signs { s with files := s.files.drop n } where
  first q m howns := by
    have hne : m ≠ n := fun he => hfree q (he ▸ howns)
    obtain ⟨l, hl, hown⟩ := h.first q m howns
    exact ⟨l, (Log.first_drop_of_ne hne).trans hl, hown⟩
  away := h.away
  written q m hm l hl := by
    by_cases hmn : m = n
    · subst hmn
      have hnone : (s.files.drop m).first m = some l := hl
      rw [Log.first_drop_self] at hnone
      cases hnone
    · exact h.written q m hm l ((Log.first_drop_of_ne hmn).symm.trans hl)
  dir := h.dir

variable [DecidableEq P]

/-- A process goes on: only to a port it was on its way to, or whose file is missing, and to the
    removal of a file only if it stands first in it. -/
theorem Inv.goto (h : Inv signs s) {pc : Pc}
    (hport : ∀ n, pc.port = some n → (s.pc p).port = some n ∨ s.files n = none)
    (hrm : ∀ c, pc = .rm c → ∃ l, s.files.first c.portno = some l ∧ signs.own p l)
    (hcall : ∀ c, pc.call = some c → signs.dir p c.tst_working_dir) : Inv signs (s.goto p pc) where
  first q n howns := by
    rcases howns with hheld | ⟨c, hc, hn⟩
    · exact h.first q n (Or.inl hheld)
    · by_cases hq : q = p
      · subst hq
        rw [s.goto_self] at hc
        exact hn ▸ hrm c hc
      · rw [State.goto_of_ne hq] at hc
        exact h.first q n (Or.inr ⟨c, hc, hn⟩)
  away q n hheld := by
    by_cases hq : q = p
    · subst hq
      rw [s.goto_self]
      intro hpc
      rcases hport n hpc with hbefore | hnone
      · exact h.away q n hheld hbefore
      · obtain ⟨l, hl, -⟩ := h.first q n (Or.inl hheld)
        rw [Log.first, hnone] at hl
        cases hl
    · rw [State.goto_of_ne hq]
      exact h.away q n hheld
  written q n hn l hl := by
    by_cases hq : q = p
    · subst hq
      rw [s.goto_self] at hn
      rcases hport n hn with hbefore | hnone
      · exact h.written q n hbefore l hl
      · have hfirst : s.files.first n = some l := hl
        rw [Log.first, hnone] at hfirst
        cases hfirst
    · rw [State.goto_of_ne hq] at hn
      exact h.written q n hn l hl
  dir q c hc := by
    by_cases hq : q = p
    · subst hq
      rw [s.goto_self] at hc
      exact hcall c hc
    · rw [State.goto_of_ne hq] at hc
      exact h.dir q c hc

/-- A port is given to the process that stands first in its file. -/
theorem Inv.give (h : Inv signs s) {n : Nat} {l : Text} (hl : s.files.first n = some l)
    (hown : signs.own p l) (hpc : (s.pc p).port ≠ some n) :
    Inv signs { s with held := update s.held p (update (s.held p) n true) } where
  first q m howns := by
    by_cases hqm : q = p ∧ m = n
    · obtain ⟨rfl, rfl⟩ := hqm
      exact ⟨l, hl, hown⟩
    · refine h.first q m (howns.imp_left fun hheld => ?_)
      by_cases hq : q = p
      · subst hq
        have hm : m ≠ n := fun hm => hqm ⟨rfl, hm⟩
        simpa [hm] using hheld
      · simpa [hq] using hheld
  away q m hheld := by
    by_cases hqm : q = p ∧ m = n
    · obtain ⟨rfl, rfl⟩ := hqm
      exact hpc
    · refine h.away q m ?_
      by_cases hq : q = p
      · subst hq
        have hm : m ≠ n := fun hm => hqm ⟨rfl, hm⟩
        simpa [hm] using hheld
      · simpa [hq] using hheld
  written := h.written
  dir := h.dir

/-- A port is given up. -/
theorem Inv.giveUp (h : Inv signs s) (p : P) (n : Nat) :
    Inv signs { s with held := update s.held p (update (s.held p) n false) } := by
  have hheld : ∀ q m, update s.held p (update (s.held p) n false) q m = true → s.held q m = true := by
    intro q m h
    by_cases hq : q = p
    · subst hq
      by_cases hm : m = n
      · subst hm
        simp at h
      · simpa [hm] using h
    · simpa [hq] using h
  exact ⟨fun q m howns => h.first q m (howns.imp_left (hheld q m)),
    fun q m hm => h.away q m (hheld q m hm), h.written, h.dir⟩

/-- **The next step of a process.** -/
theorem Inv.acquire (h : Inv signs s) (p : P) (used : Bool) :
    Inv signs (acquire pid dirMatch p used s) := by
  have hdir := h.dir p
  unfold Port.acquire
  cases hpc : s.pc p with
  | idle => exact h
  | loop c =>
      rw [hpc] at hdir
      have hnext : signs.dir p
          (Call.next { c with portno := c.portno + increment }).tst_working_dir := by
        unfold Call.next
        split
        · exact hdir c rfl
        · exact hdir c rfl
      dsimp only
      split
      · split
        · exact h.goto (fun n hn => absurd hn (by simp [Pc.port])) (fun c hc => by cases hc)
            fun c' hc' => Option.some.inj hc' ▸ hnext
        · rename_i hmissing
          refine h.goto (fun n hn => Or.inr ?_) (fun c hc => by cases hc) fun c' hc' => ?_
          · cases hn
            simpa using hmissing
          · cases hc'
            exact hdir c rfl
      · exact h.goto (fun n hn => by cases hn) (fun c hc => by cases hc) fun c hc => by cases hc
  | echo c =>
      rw [hpc] at hdir
      have hgoto : Inv signs (s.goto p (.reserved c)) :=
        h.goto (fun n hn => Or.inl (hpc ▸ hn)) (fun c hc => by cases hc) hdir
      exact hgoto.reserve c.portno (signs.written_line (hdir c rfl))
  | reserved c =>
      rw [hpc] at hdir
      cases used with
      | false => exact h.goto (fun n hn => Or.inl (hpc ▸ hn)) (fun c hc => by cases hc) hdir
      | true => exact h.goto (fun n hn => Or.inl (hpc ▸ hn)) (fun c hc => by cases hc) hdir
  | inUse c =>
      rw [hpc] at hdir
      dsimp only
      split
      · rename_i hgrep
        refine h.goto (fun n hn => Or.inl (hpc ▸ hn)) (fun c' hc' => ?_) hdir
        cases hc'
        exact h.own_of_grepFirst (by rw [hpc]; rfl) (by rw [hpc]; rfl) hgrep
      · exact h.goto (fun n hn => by cases hn) (fun c hc => by cases hc) hdir
  | rm c =>
      rw [hpc] at hdir
      have hgoto : Inv signs (s.goto p (.loop c)) :=
        h.goto (fun n hn => by cases hn) (fun c hc => by cases hc) hdir
      refine hgoto.drop fun q howns => ?_
      -- only this process owns the file, and it does not hold the port
      have hq : q ≠ p := by
        intro hq
        subst hq
        rcases howns with hheld | ⟨c', hc', -⟩
        · exact h.away q c.portno hheld (by rw [hpc]; rfl)
        · rw [s.goto_self] at hc'
          cases hc'
      have hown : Owns s p c.portno := Or.inr ⟨c, hpc, rfl⟩
      have hother : Owns s q c.portno := howns.imp_right fun hrm => by rwa [State.goto_of_ne hq] at hrm
      exact hq (h.unique hother hown)
  | unused c =>
      rw [hpc] at hdir
      dsimp only
      have hidle : Inv signs (s.goto p .idle) :=
        h.goto (fun n hn => by cases hn) (fun c hc => by cases hc) fun c hc => by cases hc
      split
      · rename_i hgrep
        split
        · obtain ⟨l, hl, hown⟩ := h.own_of_grepFirst (by rw [hpc]; rfl) (by rw [hpc]; rfl) hgrep
          refine hidle.give hl hown ?_
          rw [s.goto_self]
          exact fun hnone => by cases hnone
        · exact hidle
      · exact h.goto (fun n hn => by cases hn) (fun c hc => by cases hc) hdir

/-- **A step of the machine**; a call has a directory of its process. -/
theorem Inv.step (h : Inv signs s) {e : Event P}
    (hdir : ∀ p c, e = .source p c → signs.dir p c.tst_working_dir) :
    Inv signs (step pid dirMatch s e) := by
  cases e with
  | source p c =>
      unfold Port.step source
      dsimp only
      split
      · exact h.goto (fun n hn => by cases hn) (fun c hc => by cases hc) fun c' hc' =>
          Option.some.inj hc' ▸ hdir p c rfl
      · exact h
  | next p used => exact h.acquire p used
  | release p portno =>
      unfold Port.step
      dsimp only
      split
      · rename_i hheld
        refine (h.giveUp p portno).drop fun q howns => ?_
        have hq : q = p := by
          have hbefore : Owns s q portno := by
            refine howns.imp_left fun hq => ?_
            by_cases hqp : q = p
            · exact hqp ▸ hheld
            · simpa [hqp] using hq
          exact h.unique hbefore (Or.inl hheld)
        subst hq
        rcases howns with hgiven | ⟨c, hc, hn⟩
        · simp at hgiven
        · exact h.away q portno hheld (by rw [hc, ← hn]; rfl)
      · exact h

theorem inv_run : ∀ (events : List (Event P)) {s : State P}, Inv signs s →
    (∀ p c, .source p c ∈ events → signs.dir p c.tst_working_dir) → Inv signs (run pid dirMatch s events)
  | [], _, h, _ => h
  | e :: events, _, h, hdir => by
      have hstep := h.step (e := e) fun p c he => hdir p c (he ▸ List.mem_cons_self)
      exact inv_run events hstep fun p c hmem => hdir p c (List.mem_cons_of_mem e hmem)

end Inv

/-! ## 4. Processes with directories -/

/-- The directory of a process is not found at the beginning of the line of another one with its id. -/
def Distinct (pid : P → Nat) (dirMatch : Text → Text → Bool) (dir : P → Text) : Prop :=
  ∀ p q, p ≠ q → pid p = pid q → ∀ subtest, dirMatch (dir p) (dir q ++ ' ' :: subtest) = false

/-- Each process has one directory, and the lines are told apart by it. -/
def byDirectory {dir : P → Text} (h : Distinct pid dirMatch dir) : Signs P pid dirMatch where
  dir p d := d = dir p
  written l := ∃ (q : P) (subtest : Text), l = pidText (pid q) ++ ' ' :: dir q ++ ' ' :: subtest
  own p l := ∃ subtest, l = pidText (pid p) ++ ' ' :: dir p ++ ' ' :: subtest ∧
    grep dirMatch (pid p) (dir p) l = true
  written_line := fun {p c} hd => ⟨p, c.test_subtest_name, by rw [← hd]; rfl⟩
  own_of_grep := by
    rintro p d l rfl ⟨q, subtest, rfl⟩ hgrep
    have hmarked : Marked (pid q) (pidText (pid q) ++ ' ' :: dir q ++ ' ' :: subtest) :=
      ⟨dir q ++ ' ' :: subtest, by simp⟩
    have hpid : pid p = pid q := (marked_of_grep hgrep).unique hmarked
    by_cases hpq : p = q
    · subst hpq
      exact ⟨subtest, rfl, hgrep⟩
    · have hmatch := (Bool.and_eq_true_iff.1 hgrep).2
      have hdrop : (pidText (pid q) ++ ' ' :: dir q ++ ' ' :: subtest).drop
          (pidText (pid p) ++ [' ']).length = dir q ++ ' ' :: subtest := by
        rw [hpid]
        simp
      rw [hdrop, h p q hpq hpid subtest] at hmatch
      cases hmatch
  unique := by
    rintro p q l ⟨subtest, rfl, hgrep⟩ ⟨subtest', hl, -⟩
    by_contra hpq
    have hmarked : Marked (pid p) (pidText (pid q) ++ ' ' :: dir q ++ ' ' :: subtest') := by
      rw [← hl]
      exact ⟨dir p ++ ' ' :: subtest, by simp⟩
    have hpid : pid p = pid q :=
      hmarked.unique ⟨dir q ++ ' ' :: subtest', by simp⟩
    have hmatch := (Bool.and_eq_true_iff.1 hgrep).2
    have hdrop : (pidText (pid p) ++ ' ' :: dir p ++ ' ' :: subtest).drop
        (pidText (pid p) ++ [' ']).length = dir q ++ ' ' :: subtest' := by
      rw [hl, hpid]
      simp
    rw [hdrop, h p q hpq hpid subtest'] at hmatch
    cases hmatch

/-- **No two processes ever hold the same port**, whatever they do in whatever order, if those with the same
    id have directories that are not found in each other's lines. -/
theorem run_exclusive [DecidableEq P] (pid : P → Nat) (dirMatch : Text → Text → Bool) (dir : P → Text)
    (h : Distinct pid dirMatch dir) (files : Log Nat Text) {events : List (Event P)}
    (hdir : ∀ p c, .source p c ∈ events → c.tst_working_dir = dir p) :
    Exclusive (run pid dirMatch (start files) events) := by
  have hinv : Inv (byDirectory h) (run pid dirMatch (start files) events) :=
    inv_run events (inv_start files) hdir
  exact hinv.exclusive

/-- A call that begins at 36000. -/
def callFrom (tst_working_dir : Text) : Call := ⟨36000, 36000, 36128, tst_working_dir, ['s'], false⟩

/-- Two processes find no file for port 36001; the second one appends its line first and looks at it, then
    the first one does. -/
def bothFindNone (dir : Bool → Text) : List (Event Bool) :=
  [.source false (callFrom (dir false)), .source true (callFrom (dir true)), .next false false,
    .next true false, .next true false, .next true false, .next true false, .next false false,
    .next false false, .next false false]

theorem callFrom_dir {dir : Bool → Text} (p : Bool) (c : Call) (h : .source p c ∈ bothFindNone dir) :
    c.tst_working_dir = dir p := by
  simp only [bothFindNone, List.mem_cons, Event.source.injEq, List.not_mem_nil, reduceCtorEq, or_false] at h
  rcases h with ⟨rfl, rfl⟩ | ⟨rfl, rfl⟩
  · rfl
  · rfl

/-- In two directories, even with the same id: one of them gets the port. -/
theorem run_exclusive_two :
    let dir : Bool → Text := fun p => if p then ['/', 't', '/', 'b'] else ['/', 't', '/', 'a']
    let s := run (fun _ => 12) List.isPrefixOf (start fun _ => none) (bothFindNone dir)
    s.held true 36001 = true ∧ ∀ q, s.held q 36001 = true → true = q := by
  intro dir s
  have hdistinct : Distinct (fun _ => 12) List.isPrefixOf dir := by
    intro p q hpq _ subtest
    cases p with
    | false =>
        cases q with
        | false => exact absurd rfl hpq
        | true => rfl
    | true =>
        cases q with
        | false => rfl
        | true => exact absurd rfl hpq
  have hexclusive : Exclusive s := run_exclusive (fun _ => 12) List.isPrefixOf dir hdistinct _ callFrom_dir
  have hheld : s.held true 36001 = true := by decide
  exact ⟨hheld, fun q hq => hexclusive true q 36001 hheld hq⟩

/-- **The path of one directory begins with that of the other**: the lines are different, but the first
    process takes that of the second one for its own, and both hold the port. -/
theorem prefix_clash :
    let dir : Bool → Text := fun p => if p then ['/', 't', '/', 'a', 'b'] else ['/', 't', '/', 'a']
    let s := run (fun _ => 12) List.isPrefixOf (start fun _ => none) (bothFindNone dir)
    (∀ p q, p ≠ q → pidText 12 ++ ' ' :: dir p ≠ pidText 12 ++ ' ' :: dir q) ∧
      (∀ p c, .source p c ∈ bothFindNone dir → c.tst_working_dir = dir p) ∧ ¬ Exclusive s := by
  intro dir s
  refine ⟨by decide, callFrom_dir, fun h => ?_⟩
  have hboth : s.held false 36001 = true ∧ s.held true 36001 = true := by decide
  exact Bool.false_ne_true (h false true 36001 hboth.1 hboth.2)

end YottaTest.Port
