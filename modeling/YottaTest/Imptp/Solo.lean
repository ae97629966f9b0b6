/-
  File:      YottaTest/Imptp/Solo.lean
  Subject:   Job 1 on its own, from its first iteration to any later one.

  Runs that lead to a given loop number, for the states checkdb meets there.

  * `reach_exec` -- a running job can do any first part of its remaining steps;
  * `reach_solo` -- job 1 can begin any iteration up to `top`, and `reach_solo_end` end it;
  * `nocrash_ne_zero_of_cycle` -- with one job the last iteration meets the index of the first,
    and checkdb finds the first overwritten.
-/
import YottaTest.Imptp.Redo
import YottaTest.Imptp.Verdict

namespace YottaTest.Imptp

open YottaTest.Lib YottaTest.M

/-- A set-up with one job and M strings. -/
def oneJob (istp crash : Nat) : Config where
  jobcnt := 1
  istp := istp
  trigger := 0
  crash := crash
  gtcm := 0
  span := 0
  keysize := 216
  recsize := 174
  chset := .m

/-! ## 1. Runs of one job -/

section Runs

variable {cfg : Config} {preset : Nat} {P : Sys → Event → Prop}

/-- A running job can do a first part of its steps. -/
theorem reach_exec (hP : ∀ s j, P s (.exec j)) {jobno loop I : Nat} {rest : List (List Cmd)} :
    ∀ (pre : List (List Cmd)) {s : Sys}, Reach cfg preset P s →
      s.jobs jobno = .running loop I (pre ++ rest) →
      ∃ s', Reach cfg preset P s' ∧ s'.db = run Cmd.exec pre.flatten s.db ∧
        s'.jobs jobno = .running loop I rest ∧ ∀ j, j ≠ jobno → s'.jobs j = s.jobs j
  | [], s, h, hrun => ⟨s, h, rfl, hrun, fun _ _ => rfl⟩
  | cs :: pre, s, h, hrun => by
      have hstep : step cfg preset (.exec jobno) s = some
          ⟨run Cmd.exec cs s.db, Function.update s.jobs jobno (.running loop I (pre ++ rest))⟩ := by
        simp only [step, hrun, List.cons_append]
      obtain ⟨s', h', hdb, hrun', hother⟩ := reach_exec hP pre (.step h (hP s jobno) hstep)
        (Function.update_self _ _ _)
      refine ⟨s', h', ?_, hrun', fun j hj => ?_⟩
      · rw [hdb, List.flatten_cons, run_append]
      · rw [hother j hj]
        exact Function.update_of_ne hj _ _

/-- Job 1 is about to begin iteration `loop`, every other job is not there, and nobody has been
    asked to stop. -/
structure Solo (cfg : Config) (loop : Nat) (s : Sys) : Prop where
  begins : s.jobs 1 = beginLoop cfg 1 loop (usedI cfg.jobcnt 1 loop) calm
  others : ∀ j, j ≠ 1 → s.jobs j = .idle
  going : (DB.value s.db (topNode .endloop)).toNat = 0

/-- When job 1 stops no job is there. -/
theorem idle_put {s : Sys} (ho : ∀ j, j ≠ 1 → s.jobs j = .idle) :
    ∀ j, (s.put 1 .idle).jobs j = .idle := by
  intro j
  by_cases hj : j = 1
  · subst hj
    exact Function.update_self 1 _ s.jobs
  · exact (Function.update_of_ne hj _ s.jobs).trans (ho j hj)

theorem solo_put {loop : Nat} {s : Sys} (ho : ∀ j, j ≠ 1 → s.jobs j = .idle)
    (he : (DB.value s.db (topNode .endloop)).toNat = 0) :
    Solo cfg loop (s.put 1 (beginLoop cfg 1 loop (usedI cfg.jobcnt 1 loop) calm)) where
  begins := Function.update_self 1 _ s.jobs
  others j hj := (Function.update_of_ne hj _ s.jobs).trans (ho j hj)
  going := he

/-- A job that is started can do a first part of its iteration. -/
theorem reach_launch (hexec : ∀ s j, P s (.exec j)) {s : Sys} {jobno : Nat}
    (h : Reach cfg preset P s) (hl : P s (.launch jobno calm)) (hidle : s.jobs jobno = .idle)
    (hj : 1 ≤ jobno ∧ jobno ≤ cfg.jobcnt) {pre rest : List (List Cmd)}
    (htop : lastiOf s.db jobno + 1 ≤ top preset cfg.jobcnt)
    (hpre : pre ++ rest = steps (jobIteration cfg jobno (lastiOf s.db jobno + 1) calm)) :
    ∃ s', Reach cfg preset P s' ∧ s'.db = run Cmd.exec pre.flatten s.db ∧
      s'.jobs jobno = .running (lastiOf s.db jobno + 1)
        (usedI cfg.jobcnt jobno (lastiOf s.db jobno + 1)) rest ∧
      ∀ j, j ≠ jobno → s'.jobs j = s.jobs j := by
  have hstep : step cfg preset (.launch jobno calm) s = some
      (s.put jobno (.running (lastiOf s.db jobno + 1)
        (usedI cfg.jobcnt jobno (lastiOf s.db jobno + 1)) (pre ++ rest))) := by
    rw [hpre, ← restartI_eq_usedI]
    simp only [step, hidle]
    exact if_pos ⟨hj.1, hj.2, htop⟩
  obtain ⟨s', h', hdb, hrun, hother⟩ := reach_exec hexec pre (.step h hl hstep)
    (Function.update_self jobno _ s.jobs)
  exact ⟨s', h', hdb, hrun, fun j hj => (hother j hj).trans (Function.update_of_ne hj _ s.jobs)⟩

/-- A running job can be killed. -/
theorem reach_crash {s : Sys} {jobno loop I : Nat} {rest : List (List Cmd)}
    (h : Reach cfg preset P s) (hc : P s (.crash jobno))
    (hrun : s.jobs jobno = .running loop I rest) :
    Reach cfg preset P (s.put jobno .idle) := by
  refine .step h hc ?_
  simp only [step, hrun]

variable (ht : cfg.trigger = 0)
include ht

/-- An iteration leaves `^endloop` as it is. -/
theorem endloop_iteration (jobno loop I : Nat) (ch : Chance) (d : Db) :
    DB.value (run Cmd.exec (cmds (iteration cfg jobno loop I ch)) d) (topNode .endloop)
      = DB.value d (topNode .endloop) := by
  have hu : Untouched (topNode .endloop) (cmds (iteration cfg jobno loop I ch)) :=
    untouched_of_gvn (iteration_endloop cfg jobno loop I ch ht)
  exact value_congr (hu.get d)

/-- The iteration that job 1 is about to begin can run to its end. -/
theorem reach_solo_end (hexec : ∀ s j, P s (.exec j)) {loop : Nat} {s : Sys}
    (h : Reach cfg preset P s) (hs : Solo cfg loop s) :
    ∃ s', Reach cfg preset P s' ∧
      s'.db = run Cmd.exec (cmds (iteration cfg 1 loop (usedI cfg.jobcnt 1 loop) calm)) s.db ∧
      s'.jobs 1 = .running loop (usedI cfg.jobcnt 1 loop) [] ∧
      (∀ j, j ≠ 1 → s'.jobs j = .idle) ∧
      (DB.value s'.db (topNode .endloop)).toNat = 0 := by
  have hbegin : s.jobs 1 = .running loop (usedI cfg.jobcnt 1 loop)
      (steps (iteration cfg 1 loop (usedI cfg.jobcnt 1 loop) calm) ++ []) := by
    rw [List.append_nil]
    exact hs.begins
  obtain ⟨s', h', hdb, hrun, hother⟩ :=
    reach_exec hexec _ h hbegin
  rw [flatten_steps] at hdb
  refine ⟨s', h', hdb, hrun, fun j hj => (hother j hj).trans (hs.others j hj), ?_⟩
  rw [hdb, endloop_iteration ht]
  exact hs.going

/-- **Job 1 can begin every iteration up to `top`.** -/
theorem reach_solo (hexec : ∀ s j, P s (.exec j)) (hlaunch : P Sys.start (.launch 1 calm))
    (hjob : 1 ≤ cfg.jobcnt) : ∀ n, n < top preset cfg.jobcnt →
      (∀ s m I, m ≤ n → s.jobs 1 = .running m I [] → P s (.next 1 calm)) →
      ∃ s, Reach cfg preset P s ∧ Solo cfg (n + 1) s := by
  intro n
  induction n with
  | zero =>
      intro hn _
      have hstep : step cfg preset (.launch 1 calm) Sys.start = some
          (Sys.start.put 1 (beginLoop cfg 1 1 (usedI cfg.jobcnt 1 1) calm)) :=
        if_pos ⟨Nat.le_refl 1, hjob, hn⟩
      exact ⟨_, .step .start hlaunch hstep, solo_put (fun _ _ => rfl) rfl⟩
  | succ n ih =>
      intro hn hnext
      obtain ⟨s, h, hs⟩ := ih (by omega) fun s m I hm => hnext s m I (by omega)
      obtain ⟨s', h', -, hrun, hother, hend⟩ := reach_solo_end ht hexec h hs
      have hstep : step cfg preset (.next 1 calm) s' = some
          (s'.put 1 (beginLoop cfg 1 (n + 1 + 1) (usedI cfg.jobcnt 1 (n + 1 + 1)) calm)) := by
        simp only [step, hrun]
        rw [if_neg (by omega), nextI_usedI _ _ (by omega)]
      exact ⟨_, .step h' (hnext s' _ _ (Nat.le_refl _) hrun) hstep, solo_put hother hend⟩

end Runs

/-! ## 2. The end of the cycle -/

section Cycle

variable {cfg : Config} (ht : cfg.trigger = 0)
include ht

/-- An iteration sets what `firstNodes` says, whatever was there. -/
theorem first_of_iteration (jobno loop : Nat) {I : Nat} (hI : I ≠ 0) (ch : Chance) (d : Db) :
    Holds (firstNodes cfg loop I) (run Cmd.exec (cmds (iteration cfg jobno loop I ch)) d) := by
  intro e he
  have hfinal : Final cfg jobno loop I (finished cfg jobno loop I) := final_of_iteration ht
  exact get_of_finished ht hI (own_firstNodes hI e he) (hfinal.first e he) d

/-- At the end of an iteration `^lasti` is its number. -/
theorem lasti_of_iteration (jobno loop I : Nat) (ch : Chance) (d : Db) :
    lastiOf (run Cmd.exec (cmds (iteration cfg jobno loop I ch)) d) jobno = loop := by
  refine lasti_set (iteration_counts cfg jobno loop I ch ht) ?_ d
  rw [iteration_count cfg jobno loop I ch ht (by decide)]
  exact Nat.one_ne_zero

omit ht in
/-- Iteration `prime` of the one job works on the nodes of its first. -/
theorem usedI_prime (h1 : cfg.jobcnt = 1) :
    usedI cfg.jobcnt 1 prime = usedI cfg.jobcnt 1 1 := by
  rw [h1]
  exact usedI_cycle (by decide)

/-- **After iteration `prime` the nodes of iteration 1 hold another value.** -/
theorem checkFirst_of_cycle (h1 : cfg.jobcnt = 1) (d : Db) : false ∈ checkFirst cfg
    (run Cmd.exec (cmds (iteration cfg 1 prime (usedI cfg.jobcnt 1 prime) calm)) d)
    (usedI cfg.jobcnt 1 1) 1 := by
  have hfirst := first_of_iteration ht 1 prime (usedI_ne_zero cfg.jobcnt 1 prime) calm d _
    List.mem_cons_self
  rw [usedI_prime h1] at hfirst ⊢
  refine List.mem_cons.2 (Or.inl (decide_eq_false fun h => ?_).symm)
  rw [toStr_of_get (s := some (cfg.val prime)) hfirst] at h
  have hloop : prime = 1 := ugenstr_inj (by decide) (by decide) h
  exact absurd hloop (by decide)

/-- **With one job a run can end in a state that checkdb rejects**: `top` is one more than the
    cycle of the index has elements. -/
theorem nocrash_ne_zero_of_cycle {P : Sys → Event → Prop} (h1 : cfg.jobcnt = 1)
    (hP : ∀ s e, (∀ j, e ≠ .crash j) → P s e) : ∃ s, Reach cfg 0 P s ∧ (∀ j, s.jobs j = .idle) ∧
      lastiOf s.db 1 = prime ∧ nocrash cfg s.db ≠ 0 := by
  have htop : top 0 cfg.jobcnt = prime := by
    rw [h1]
    decide
  have hexec : ∀ s j, P s (.exec j) := fun s j => hP s _ fun _ he => by cases he
  have hnext : ∀ s, P s (.next 1 calm) := fun s => hP s _ fun _ he => by cases he
  obtain ⟨s, h, hs⟩ : ∃ s, Reach cfg 0 P s ∧ Solo cfg prime s :=
    reach_solo ht hexec (hP _ _ fun _ he => by cases he) (by omega) (prime - 1) (by
      rw [htop]
      decide) fun s _ _ _ _ => hnext s
  obtain ⟨s', h', hdb, hrun, hother, -⟩ := reach_solo_end ht hexec h hs
  have hstep : step cfg 0 (.next 1 calm) s' = some (s'.put 1 .idle) := by
    simp only [step, hrun]
    rw [if_pos (Or.inr (Nat.le_of_eq htop))]
  have hlasti : lastiOf s'.db 1 = prime := by
    rw [hdb]
    exact lasti_of_iteration ht 1 prime _ calm s.db
  refine ⟨_, .step h' (hnext s') hstep, idle_put hother, hlasti, fun h0 => ?_⟩
  rw [nocrash, jobLoop_eq_zero] at h0
  have hiter : compiter cfg s'.db (usedI cfg.jobcnt 1 1) 1 = 0 :=
    h0 1 (Nat.le_refl 1) (by omega) 1 (Nat.le_refl 1) (by
      show 1 ≤ lastiOf s'.db 1
      rw [hlasti]
      decide)
  have hfalse := checkFirst_of_cycle ht h1 s.db
  rw [← hdb] at hfalse
  rw [compiter, fails_eq_zero] at hiter
  have htrue := hiter false (by simp only [List.mem_append, hfalse, true_or])
  cases htrue

end Cycle

end YottaTest.Imptp
