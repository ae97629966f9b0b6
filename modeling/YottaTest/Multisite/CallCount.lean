/-
  File:      YottaTest/Multisite/CallCount.lean
  Subject:   multisite_replic.csh: how concurrent calls get different call numbers.

  A call takes the number after the highest msr_execute script there is, appends its process id to
  the file of that number, and looks for the id in the file. If the id is found in the first line
  only, the number is taken; if another call was first, this one waits and starts again. The text
  search finds an id also within a longer one, and then the assignment of the line numbers fails.

  * `Pc`, `State`, `next`, `run` -- a call, the directory, and the steps of the calls in any order;
  * `grepN`, `own` -- the search, and what follows from the lines it finds;
  * `run_unique` -- no two calls have the same number, whatever their ids are;
  * `Correct`, `run_correct_iff` -- **besides, each test succeeds exactly for the first line: this
    holds in every run exactly if no process id is part of another.**
-/
import Mathlib.Data.List.Infix
import Mathlib.Data.Set.Defs
import YottaTest.Lib.Digits
import YottaTest.Lib.Reserve

namespace YottaTest.MsrExecute

open Function YottaTest.Lib

abbrev Text := List Char

/-! ## 1. The script -/

/-- Where a call is in the `while`. -/
inductive Pc where
  /-- before `ls` -/
  | ls
  /-- before `echo $ppid` -/
  | echo (call_count : Nat)
  /-- before `grep -n $ppid` -/
  | grep (call_count : Nat)
  /-- in waitforfilecreate -/
  | wait (call_count : Nat)
  /-- out of the loop -/
  | own (call_count : Nat)
  /-- its msr_execute script is written -/
  | created (call_count : Nat)
  /-- ended by an error -/
  | error (call_count : Nat)
  deriving DecidableEq, Repr

/-- The numbers of the msr_execute scripts, the `_pid.out` files, and the calls by process id. -/
structure State where
  scripts : List Nat
  pidFiles : Log Nat Nat
  pc : Nat → Pc

def State.goto (s : State) (ppid : Nat) (pc : Pc) : State := { s with pc := update s.pc ppid pc }

/-- The last script number and 1. -/
def callCount (scripts : List Nat) : Nat := scripts.foldl max 0 + 1

/-- The line of a process in a `_pid.out` file. -/
def pidText (ppid : Nat) : Text := Nat.toDigits 10 ppid

/-- `grep -n $ppid`: the numbers of the lines that contain the text. -/
def grepN (ppid : Nat) (file : List Nat) : List Nat :=
  ((file.zipIdx 1).filter fun l => pidText ppid <:+: pidText l.1).map Prod.snd

/-- `set linenum = ...` and the test. Two numbers are more than `set` takes, and none leaves the
    expression of the test incomplete: the script ends. -/
def ownership (call_count : Nat) : List Nat → Pc
  | [linenum] => if 1 = linenum then .own call_count else .wait call_count
  | _ => .error call_count

/-- The next step of a call; waitforfilecreate comes back also without the file, after its time. -/
def next (s : State) (ppid : Nat) : State :=
  match s.pc ppid with
  | .ls => s.goto ppid (.echo (callCount s.scripts))
  | .echo n => { s.goto ppid (.grep n) with pidFiles := s.pidFiles.reserve n ppid }
  | .grep n => s.goto ppid (ownership n (grepN ppid ((s.pidFiles n).getD [])))
  | .wait _ => s.goto ppid .ls
  | .own n => { s.goto ppid (.created n) with scripts := n :: s.scripts }
  | .created _ => s
  | .error _ => s

/-- Scripts of earlier calls may be there. -/
def start (scripts : List Nat) : State := ⟨scripts, fun _ => none, fun _ => .ls⟩

/-- The calls take their steps in this order. -/
def run (s : State) (ppids : List Nat) : State := ppids.foldl next s

/-- A call has the number. -/
def Has (s : State) (ppid n : Nat) : Prop := s.pc ppid = .own n ∨ s.pc ppid = .created n

/-- What a state shows of the protocol. -/
structure Correct (s : State) : Prop where
  unique : ∀ p q n, Has s p n → Has s q n → p = q
  test : ∀ p n, s.pc p = .grep n →
    (ownership n (grepN p ((s.pidFiles n).getD [])) = .own n ↔ s.pidFiles.first n = some p)

theorem State.goto_self (s : State) (ppid : Nat) (pc : Pc) : (s.goto ppid pc).pc ppid = pc := update_self ..

theorem State.goto_of_ne {ppid q : Nat} (hq : q ≠ ppid) (s : State) (pc : Pc) :
    (s.goto ppid pc).pc q = s.pc q :=
  update_of_ne hq ..

/-! ## 2. The search -/

theorem ownership_eq_own {n : Nat} {lines : List Nat} : ownership n lines = .own n ↔ lines = [1] := by
  match lines with
  | [] => simp [ownership]
  | [linenum] =>
      by_cases h : 1 = linenum
      · simp [ownership, h]
      · have hne : linenum ≠ 1 := fun he => h he.symm
        simp [ownership, h, hne]
  | _ :: _ :: _ => simp [ownership]

theorem ownership_cases (n : Nat) (lines : List Nat) :
    ownership n lines = .own n ∨ ownership n lines = .wait n ∨ ownership n lines = .error n := by
  unfold ownership
  split
  · split <;> simp
  · simp

/-- The number of the process's own line is among those found. -/
theorem mem_grepN {ppid : Nat} {file : List Nat} {k : Nat} (h : file[k]? = some ppid) :
    k + 1 ∈ grepN ppid file := by
  refine List.mem_map.2 ⟨(ppid, k + 1), List.mem_filter.2 ⟨?_, decide_eq_true (List.infix_refl _)⟩, rfl⟩
  rw [List.mk_mem_zipIdx_iff_le_and_getElem?_sub]
  exact ⟨by omega, by simpa using h⟩

/-- **Whoever finds the id in line 1 only is in line 1.** -/
theorem first_of_grepN {ppid : Nat} {file : List Nat} (hin : ppid ∈ file) (h : grepN ppid file = [1]) :
    file.head? = some ppid := by
  obtain ⟨k, hk⟩ := List.mem_iff_getElem?.1 hin
  have hmem := mem_grepN hk
  rw [h, List.mem_singleton] at hmem
  have hzero : k = 0 := by omega
  rw [List.head?_eq_getElem?, ← hzero, hk]

/-- A first line that is found nowhere else. -/
theorem grepN_cons {ppid : Nat} {file : List Nat} (h : ∀ q ∈ file, ¬ pidText ppid <:+: pidText q) :
    grepN ppid (ppid :: file) = [1] := by
  have hrest : ((file.zipIdx 2).filter fun l => decide (pidText ppid <:+: pidText l.1)) = [] := by
    rw [List.filter_eq_nil_iff]
    intro l hl
    have hq : l.1 ∈ file := by
      obtain ⟨q, k⟩ := l
      exact List.fst_mem_of_mem_zipIdx hl
    simpa using h l.1 hq
  rw [grepN, List.zipIdx_cons, List.filter_cons, if_pos (decide_eq_true (List.infix_refl _)), hrest]
  rfl

/-! ## 3. No number twice -/

/-- A call past its append is in the file of its number, and one that has the number is first there. -/
structure Inv (s : State) : Prop where
  listed : ∀ p n, s.pc p = .grep n ∨ Has s p n → ∃ file, s.pidFiles n = some file ∧ p ∈ file
  first : ∀ p n, Has s p n → s.pidFiles.first n = some p

theorem inv_start (scripts : List Nat) : Inv (start scripts) where
  listed p n h := by
    rcases h with h | h | h <;> cases h
  first p n h := by
    rcases h with h | h <;> cases h

variable {s : State} {p : Nat}

/-- A call goes on without touching the files. -/
theorem Inv.goto (h : Inv s) {pc : Pc} (hgrep : ∀ n, pc ≠ .grep n)
    (hhas : ∀ n, pc = .own n ∨ pc = .created n →
      s.pidFiles.first n = some p) : Inv (s.goto p pc) := by
  have hfirst : ∀ q n, Has (s.goto p pc) q n → s.pidFiles.first n = some q := by
    intro q n hq
    by_cases hqp : q = p
    · subst hqp
      unfold Has at hq
      rw [s.goto_self] at hq
      exact hhas n hq
    · unfold Has at hq
      rw [State.goto_of_ne hqp] at hq
      exact h.first q n hq
  refine ⟨fun q n hq => ?_, hfirst⟩
  rcases hq with hq | hq
  · by_cases hqp : q = p
    · subst hqp
      rw [s.goto_self] at hq
      exact absurd hq (hgrep n)
    · rw [State.goto_of_ne hqp] at hq
      exact h.listed q n (Or.inl hq)
  · obtain ⟨file, hfile⟩ := Log.first_eq_some.1 (hfirst q n hq)
    exact ⟨q :: file, hfile, List.mem_cons_self⟩

/-- A call appends its line. -/
theorem Inv.reserve (h : Inv s) (p n : Nat) :
    Inv { s.goto p (.grep n) with pidFiles := s.pidFiles.reserve n p } := by
  have hpast : ∀ q m, Has (s.goto p (.grep n)) q m → Has s q m := by
    intro q m hq
    by_cases hqp : q = p
    · subst hqp
      unfold Has at hq
      rw [s.goto_self] at hq
      rcases hq with hq | hq <;> cases hq
    · unfold Has at hq
      rwa [State.goto_of_ne hqp] at hq
  have hkept : ∀ {q m : Nat} {file : List Nat}, s.pidFiles m = some file → q ∈ file →
      ∃ file', s.pidFiles.reserve n p m = some file' ∧ q ∈ file' := by
    intro q m file hfile hq
    by_cases hm : m = n
    · subst hm
      exact ⟨_, Log.reserve_self _ m p, by rw [hfile]; exact List.mem_append_left _ hq⟩
    · exact ⟨file, (Log.reserve_of_ne hm _ p).trans hfile, hq⟩
  refine ⟨fun q m hq => ?_, fun q m hq => Log.first_reserve (h.first q m (hpast q m hq)) n p⟩
  rcases hq with hq | hq
  · by_cases hqp : q = p
    · subst hqp
      have hm : m = n := by
        have heq := (s.goto_self q (.grep n)).symm.trans hq
        cases heq
        rfl
      subst hm
      exact ⟨_, Log.reserve_self _ m q, List.mem_append_right _ List.mem_cons_self⟩
    · obtain ⟨file, hfile, hmem⟩ := h.listed q m (Or.inl ((State.goto_of_ne hqp s _).symm.trans hq))
      exact hkept hfile hmem
  · obtain ⟨file, hfile, hmem⟩ := h.listed q m (Or.inr (hpast q m hq))
    exact hkept hfile hmem

/-- **A step of a call.** -/
theorem Inv.next (h : Inv s) (p : Nat) : Inv (next s p) := by
  unfold MsrExecute.next
  cases hpc : s.pc p with
  | ls => exact h.goto (fun n => by simp) (fun n hn => by simp at hn)
  | echo n => exact h.reserve p n
  | grep n =>
      obtain ⟨file, hfile, hmem⟩ := h.listed p n (Or.inl hpc)
      dsimp only
      rw [hfile, Option.getD_some]
      rcases ownership_cases n (grepN p file) with hown | hwait | herror
      · rw [hown]
        refine h.goto (fun m => by simp) fun m hm => ?_
        have heq : n = m := by simpa using hm
        subst heq
        rw [Log.first, hfile]
        exact first_of_grepN hmem (ownership_eq_own.1 hown)
      · rw [hwait]
        exact h.goto (fun m => by simp) (fun m hm => by simp at hm)
      · rw [herror]
        exact h.goto (fun m => by simp) (fun m hm => by simp at hm)
  | wait n => exact h.goto (fun n => by simp) (fun n hn => by simp at hn)
  | own n =>
      have hgoto : Inv (s.goto p (.created n)) := by
        refine h.goto (fun m => by simp) fun m hm => ?_
        have heq : m = n := by simpa [eq_comm] using hm
        exact heq ▸ h.first p n (Or.inl hpc)
      exact ⟨hgoto.listed, hgoto.first⟩
  | created n => exact h
  | error n => exact h

theorem Inv.run : ∀ (ppids : List Nat) {s : State}, Inv s → Inv (run s ppids)
  | [], _, h => h
  | p :: ppids, _, h => Inv.run ppids (h.next p)

theorem Inv.unique (h : Inv s) {p q n : Nat} (hp : Has s p n) (hq : Has s q n) : p = q :=
  Option.some.inj ((h.first p n hp).symm.trans (h.first q n hq))

/-- **No two calls have the same number**, whatever their process ids are. -/
theorem run_unique (scripts ppids : List Nat) (p q n : Nat) (hp : Has (run (start scripts) ppids) p n)
    (hq : Has (run (start scripts) ppids) q n) : p = q :=
  ((inv_start scripts).run ppids).unique hp hq

/-! ## 4. The tests -/

/-- No process id of the set is part of another. -/
def Apart (pids : Set Nat) : Prop := ∀ p ∈ pids, ∀ q ∈ pids, pidText p <:+: pidText q → p = q

/-- Whoever is first in a file is at its test or past it, and is there once. -/
structure Turn (pids : Set Nat) (s : State) : Prop where
  members : ∀ n file, s.pidFiles n = some file → ∀ q ∈ file, q ∈ pids
  turn : ∀ q n file, s.pidFiles n = some (q :: file) → (s.pc q = .grep n ∨ Has s q n) ∧ q ∉ file

theorem turn_start (pids : Set Nat) (scripts : List Nat) : Turn pids (start scripts) where
  members n file h := by cases h
  turn q n file h := by cases h

variable {pids : Set Nat}

/-- A call that is first in no file goes on, or the one that is first takes its number. -/
theorem Turn.goto (h : Turn pids s) {pc : Pc}
    (hfirst : ∀ n file, s.pidFiles n = some (p :: file) → pc = .own n ∨ pc = .created n) :
    Turn pids (s.goto p pc) where
  members := h.members
  turn q n file hq := by
    refine ⟨?_, (h.turn q n file hq).2⟩
    unfold Has
    by_cases hqp : q = p
    · subst hqp
      rw [s.goto_self]
      exact Or.inr (hfirst n file hq)
    · rw [State.goto_of_ne hqp]
      exact (h.turn q n file hq).1

theorem Turn.reserve (h : Turn pids s) {n : Nat} (hp : p ∈ pids) (hpc : s.pc p = .echo n) :
    Turn pids { s.goto p (.grep n) with pidFiles := s.pidFiles.reserve n p } := by
  have hother : ∀ {q m : Nat} {file : List Nat}, s.pidFiles m = some (q :: file) → q ≠ p := by
    intro q m file hq hqp
    subst hqp
    rcases (h.turn q m file hq).1 with hgrep | hown | hcreated
    · rw [hpc] at hgrep
      cases hgrep
    · rw [hpc] at hown
      cases hown
    · rw [hpc] at hcreated
      cases hcreated
  have hold : ∀ {q m : Nat} {file : List Nat}, s.pidFiles m = some (q :: file) →
      ((s.goto p (.grep n)).pc q = .grep m ∨ Has (s.goto p (.grep n)) q m) ∧ q ∉ file := by
    intro q m file hq
    refine ⟨?_, (h.turn q m file hq).2⟩
    unfold Has
    rw [State.goto_of_ne (hother hq)]
    exact (h.turn q m file hq).1
  constructor
  · intro m file hfile q hq
    by_cases hm : m = n
    · subst hm
      have heq : (s.pidFiles m).getD [] ++ [p] = file := Option.some.inj ((Log.reserve_self _ m p).symm.trans hfile)
      rw [← heq] at hq
      rcases List.mem_append.1 hq with hq | hq
      · cases hf : s.pidFiles m with
        | none => rw [hf] at hq; cases hq
        | some file' => rw [hf] at hq; exact h.members m file' hf q hq
      · exact List.mem_singleton.1 hq ▸ hp
    · exact h.members m file ((Log.reserve_of_ne hm _ p).symm.trans hfile) q hq
  · intro q m file hq
    by_cases hm : m = n
    · subst hm
      have heq : (s.pidFiles m).getD [] ++ [p] = q :: file :=
        Option.some.inj ((Log.reserve_self _ m p).symm.trans hq)
      cases hf : (s.pidFiles m).getD [] with
      | nil =>
          rw [hf] at heq
          obtain ⟨rfl, rfl⟩ := List.cons.inj heq
          exact ⟨Or.inl (s.goto_self p _), List.not_mem_nil⟩
      | cons r rest =>
          rw [hf] at heq
          obtain ⟨rfl, rfl⟩ := List.cons.inj heq
          have hsome : s.pidFiles m = some (r :: rest) := by
            cases hnone : s.pidFiles m with
            | none => rw [hnone] at hf; cases hf
            | some file' => rw [hnone] at hf; exact congrArg some hf
          have hrest := hold hsome
          refine ⟨hrest.1, fun hmem => ?_⟩
          rcases List.mem_append.1 hmem with hmem | hmem
          · exact hrest.2 hmem
          · exact hother hsome (List.mem_singleton.1 hmem)
    · exact hold ((Log.reserve_of_ne hm _ p).symm.trans hq)

/-- A call that is first, where no id is part of another, finds itself in line 1 only. -/
theorem Turn.grepN (h : Turn pids s) (hapart : Apart pids) {n : Nat} {file : List Nat}
    (hfile : s.pidFiles n = some (p :: file)) : grepN p (p :: file) = [1] := by
  have hmembers := h.members n _ hfile
  refine grepN_cons fun q hq hin => ?_
  have heq := hapart p (hmembers p List.mem_cons_self) q (hmembers q (List.mem_cons_of_mem p hq)) hin
  exact (h.turn p n file hfile).2 (heq ▸ hq)

theorem Turn.next (h : Turn pids s) (hapart : Apart pids) (hp : p ∈ pids) : Turn pids (next s p) := by
  unfold MsrExecute.next
  cases hpc : s.pc p with
  | ls =>
      refine h.goto fun n file hfile => ?_
      simpa [Has, hpc] using (h.turn p n file hfile).1
  | echo n => exact h.reserve hp hpc
  | grep n =>
      refine h.goto fun m file hfile => Or.inl ?_
      have hm : n = m := by simpa [Has, hpc] using (h.turn p m file hfile).1
      subst hm
      rw [hfile, Option.getD_some]
      exact ownership_eq_own.2 (h.grepN hapart hfile)
  | wait n =>
      refine h.goto fun m file hfile => ?_
      simpa [Has, hpc] using (h.turn p m file hfile).1
  | own n =>
      have hgoto : Turn pids (s.goto p (.created n)) := by
        refine h.goto fun m file hfile => Or.inr ?_
        have hm : n = m := by simpa [Has, hpc] using (h.turn p m file hfile).1
        rw [hm]
      exact ⟨hgoto.members, hgoto.turn⟩
  | created n => exact h
  | error n => exact h

theorem Turn.run (hapart : Apart pids) : ∀ (ppids : List Nat) {s : State}, (∀ p ∈ ppids, p ∈ pids) →
    Turn pids s → Turn pids (run s ppids)
  | [], _, _, h => h
  | p :: ppids, _, hin, h =>
      Turn.run hapart ppids (fun q hq => hin q (List.mem_cons_of_mem p hq))
        (h.next hapart (hin p List.mem_cons_self))

theorem correct_of_turn (h : Inv s) (ht : Turn pids s) (hapart : Apart pids) : Correct s where
  unique p q n hp hq := h.unique hp hq
  test p n hpc := by
    rw [ownership_eq_own]
    constructor
    · intro hgrep
      obtain ⟨file, hfile, hmem⟩ := h.listed p n (Or.inl hpc)
      rw [hfile] at hgrep
      rw [Log.first, hfile]
      exact first_of_grepN hmem hgrep
    · intro hfirst
      obtain ⟨file, hfile⟩ := Log.first_eq_some.1 hfirst
      rw [hfile]
      exact ht.grepN hapart hfile

/-- A call whose id is part of another one's fails, if the other one appends its line in time. -/
theorem not_correct_of_infix (scripts : List Nat) {p q : Nat} (hne : p ≠ q)
    (hin : pidText p <:+: pidText q) : ¬ Correct (run (start scripts) [p, p, q, q]) := by
  intro h
  have hq : q ≠ p := fun he => hne he.symm
  have hpc : (run (start scripts) [p, p, q, q]).pc p = .grep (callCount scripts) := by
    simp [run, next, start, State.goto, hne, hq]
  have hfile : (run (start scripts) [p, p, q, q]).pidFiles (callCount scripts) = some [p, q] := by
    simp [run, next, start, State.goto, Log.reserve, hq]
  have htest := (h.test p _ hpc).2 (by rw [Log.first, hfile]; rfl)
  rw [ownership_eq_own, hfile, Option.getD_some] at htest
  have hsecond : 2 ∈ grepN p [p, q] := by
    refine List.mem_map.2 ⟨(q, 2), List.mem_filter.2 ⟨?_, decide_eq_true hin⟩, rfl⟩
    simp [List.zipIdx_cons]
  rw [htest] at hsecond
  exact absurd hsecond (by decide)

/-- **The tests of a run are right exactly if no process id is part of another**, in every run of any
    calls with these ids. -/
theorem run_correct_iff (pids : Set Nat) (scripts : List Nat) :
    (∀ ppids : List Nat, (∀ p ∈ ppids, p ∈ pids) → Correct (run (start scripts) ppids)) ↔ Apart pids := by
  constructor
  · intro h p hp q hq hin
    by_contra hne
    refine not_correct_of_infix scripts hne hin (h [p, p, q, q] ?_)
    intro r hr
    simp only [List.mem_cons, List.not_mem_nil, or_false] at hr
    rcases hr with rfl | rfl | rfl | rfl
    · exact hp
    · exact hp
    · exact hq
    · exact hq
  · intro hapart ppids hin
    exact correct_of_turn ((inv_start scripts).run ppids) ((turn_start pids scripts).run hapart ppids hin) hapart

/-- **Process 12 is first in the file, and fails**: the line of process 4123 contains its id. -/
theorem found_in_longer_id :
    (run (start []) [12, 12, 4123, 4123]).pc 12 = .grep 1 ∧
      (run (start []) [12, 12, 4123, 4123]).pidFiles.first 1 = some 12 ∧
      (run (start []) [12, 12, 4123, 4123, 12]).pc 12 = .error 1 ∧
      ¬ Correct (run (start []) [12, 12, 4123, 4123]) := by
  refine ⟨by decide, by decide, by decide, ?_⟩
  exact not_correct_of_infix [] (by decide) (by decide)

end YottaTest.MsrExecute
