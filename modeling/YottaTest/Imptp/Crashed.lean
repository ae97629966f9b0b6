/-
  File:      YottaTest/Imptp/Crashed.lean
  Subject:   checkdb after crashes, when the stages are transactions.

  With `^lasti` set in stage 1 an interrupted iteration is never done again: it stays as the crash
  left it, between two steps, and checkdb must accept what it finds.

  * `OnceState`, `onceInv` -- the invariant: an iteration is done from nothing, once;
  * `crash_of_reach` -- **checkdb accepts** unless a crash falls between stage 10 and stage 11 of an
    iteration whose target piece hides stage 10 from it (`TargetOk`);
  * `crash_rejects_replaced` -- such a crash, and checkdb's false alarm.
-/
import YottaTest.Imptp.Solo
import YottaTest.Imptp.Status

namespace YottaTest.Imptp

open YottaTest.Lib YottaTest.M

/-! ## 1. The invariant -/

/-- **Iterations that are done once**: each stands where its steps so far have brought it from
    nothing. -/
def OnceState (cfg : Config) (jobno loop : Nat) (st : Status) (d : Db) : Prop :=
  match st with
  | .ahead => Agree (OwnOf cfg jobno loop) d Table.empty
  | .running rest => ∃ ch pre, pre ++ rest = steps (jobIteration cfg jobno loop ch) ∧
      Agree (OwnOf cfg jobno loop) d (run Cmd.exec pre.flatten Table.empty)
  | .behind => ∃ ch pre rest, pre ++ rest = steps (jobIteration cfg jobno loop ch) ∧
      Agree (OwnOf cfg jobno loop) d (run Cmd.exec pre.flatten Table.empty) ∧ pre ≠ [] ∧
      (rest = (lastStage cfg jobno loop (usedI cfg.jobcnt jobno loop)).steps → TargetOk cfg loop)

/-- A crash that checkdb copes with: between stage 10 and stage 11 only if it can tell that
    stage 10 is done. -/
def CrashVisible (cfg : Config) (jobno loop : Nat) (rest : List (List Cmd)) : Prop :=
  rest = (lastStage cfg jobno loop (usedI cfg.jobcnt jobno loop)).steps → TargetOk cfg loop

section Invariant

variable {cfg : Config} (ht : cfg.trigger = 0)
include ht

theorem lastStage_ne_nil (jobno loop I : Nat) : (lastStage cfg jobno loop I).steps ≠ [] := by
  intro h
  have hf := flatten_stage (lastStage cfg jobno loop I)
  have hcmds : (lastStage cfg jobno loop I).cmds = stage11 cfg jobno loop I := rfl
  rw [h, hcmds, stage11_eq cfg jobno loop I ht] at hf
  cases hf

/-- In TP an iteration that has begun has set `^lasti`. -/
theorem pre_eq_nil (hi : cfg.istp ≠ 0) {jobno loop I : Nat} {ch : Chance}
    {pre rest : List (List Cmd)} (h : pre ++ rest = steps (iteration cfg jobno loop I ch))
    (hl : left .lasti rest ≠ 0) : pre = [] := by
  cases pre with
  | nil => rfl
  | cons a pre =>
      rw [steps_iteration ht hi, List.cons_append, List.cons.injEq] at h
      have h1 := (stage1_count cfg jobno loop I ch ht).1
      have hall := left_begin jobno loop I ch ht (g := .lasti) (by decide)
      rw [if_neg hi] at h1
      rw [steps_iteration ht hi, left_cons, h1, ← h.2, left, List.flatten_append, gvns_append,
        List.count_append] at hall
      exact absurd (show (gvns rest.flatten).count .lasti = 0 by omega) hl

/-- **Each event of an iteration keeps `OnceState`.** -/
theorem onceInv (hi : cfg.istp ≠ 0) : IterInv cfg (CrashVisible cfg) (OnceState cfg) where
  congr {j n st d d'} _ h hq := by
    cases st with
    | ahead => exact h.trans hq
    | running rest =>
        obtain ⟨ch, pre, hpre, ha⟩ := hq
        exact ⟨ch, pre, hpre, h.trans ha⟩
    | behind =>
        obtain ⟨ch, pre, rest, hpre, ha, hrest⟩ := hq
        exact ⟨ch, pre, rest, hpre, h.trans ha, hrest⟩
  start _ := Agree.refl _ _
  begin ch _ hq := ⟨ch, [], rfl, hq⟩
  exec {j n cs rest d} _ hok hq := by
    obtain ⟨ch, pre, hpre, ha⟩ := hq
    refine ⟨ch, pre ++ [cs], ?_, ?_⟩
    · rw [List.append_assoc]
      exact hpre
    · rw [List.flatten_append, run_append, List.flatten_cons, List.flatten_nil, List.append_nil]
      exact run_own_congr hok.within ha
  finish {j n d} _ hq := by
    obtain ⟨ch, pre, hpre, ha⟩ := hq
    refine ⟨ch, pre, [], hpre, ha, fun hnil => ?_, fun hlast => ?_⟩
    · subst hnil
      rw [steps_iteration ht hi] at hpre
      cases hpre
    · exact absurd hlast.symm (lastStage_ne_nil ht _ _ _)
  crash {j n rest d} hok hc hq := by
    obtain ⟨ch, pre, hpre, ha⟩ := hq
    by_cases h0 : left .lasti rest = 0
    · rw [if_pos h0]
      refine ⟨ch, pre, rest, hpre, ha, fun hnil => ?_, hc⟩
      subst hnil
      have hall := left_begin j n (usedI cfg.jobcnt j n) ch ht (g := .lasti) (by decide)
      rw [← hpre, List.nil_append, h0] at hall
      cases hall
    · rw [if_neg h0]
      rw [pre_eq_nil ht hi hpre h0] at ha
      exact ha

/-- An iteration that is behind passes. -/
theorem crashIter_of_behind (hi : cfg.istp ≠ 0) {jobno loop : Nat} {d : Db}
    (h : OnceState cfg jobno loop .behind d) :
    crashIter cfg d jobno (usedI cfg.jobcnt jobno loop) loop = 0 := by
  obtain ⟨ch, pre, rest, hpre, ha, hne, hrest⟩ := h
  have hI := usedI_ne_zero cfg.jobcnt jobno loop
  have hsub : ∀ c ∈ pre.flatten, c ∈ cmds (jobIteration cfg jobno loop ch) := by
    intro c hc
    rw [← flatten_steps, ← hpre, List.flatten_append]
    exact List.mem_append_left _ hc
  have hflat := (flat_of_subset ht hsub).congr ha.symm
  rcases reached_of_prefix ht hi hpre hne with hr | ⟨hlast, hr⟩ | hr
  · exact crashIter_of_reached hI hflat (hr.congr hI ha.symm)
  · exact (crashIter_of_replaced hI hflat (Snap.congr hI ha.symm hr)).2 (hrest hlast)
  · exact crashIter_of_final hI hflat (hr.congr hI ha.symm)

end Invariant

/-! ## 2. checkdb after any crashes -/

section Verdict

variable {cfg : Config} {preset : Nat} {s : Sys} (ht : cfg.trigger = 0)
include ht

/-- **checkdb accepts what imptp leaves behind** after any run with any crashes and restarts, if
    none of them falls between stage 10 and stage 11 where `TargetOk` fails. -/
theorem crash_of_reach (hi : cfg.istp = 1) (hjob : 1 ≤ cfg.jobcnt) (hc : cfg.crash ≠ 0)
    (h : Reach cfg preset (Allowed cfg preset (CrashVisible cfg)) s)
    (hidle : ∀ j, s.jobs j = .idle) :
    crash cfg s.db = 0 ∧ (cfg.gtcm ≠ 1 → checkdb cfg s.db = some 0) := by
  have hne : cfg.istp ≠ 0 := by omega
  have hall := iterInv_of_reach ht (onceInv ht hne) (fun _ _ hp => hp) h
  have hrange := lastiInRange_of_reach ht (fun _ _ hp => hp.1) h
  have hcrash : crash cfg s.db = 0 := by
    rw [crash, jobLoop_eq_zero]
    intro j h1 hj n hn hle
    have hq := hall j n (hrange j n ⟨h1, hj⟩ hn hle)
    rw [status_behind (not_running_of_idle (hidle j)) hle] at hq
    exact crashIter_of_behind ht hne hq
  refine ⟨hcrash, fun hg => ?_⟩
  have hj0 : cfg.jobcnt ≠ 0 := by omega
  have hi2 : cfg.istp ≠ 2 := by omega
  rw [checkdb, if_neg hj0, if_neg fun hgc => hg hgc.1]
  simp only [if_neg hne, if_neg hi2, hcrash, hc, false_and, if_false]

omit ht in
/-- An iteration interrupted after stage 5. -/
theorem crash_of_reach_once : ∃ s,
    Reach (oneJob 1 1) 0 (Allowed (oneJob 1 1) 0 (CrashVisible (oneJob 1 1))) s ∧
      lastiOf s.db 1 = 1 ∧ crash (oneJob 1 1) s.db = 0 ∧ checkdb (oneJob 1 1) s.db = some 0 := by
  have hexec : ∀ s j, Allowed (oneJob 1 1) 0 (CrashVisible (oneJob 1 1)) s (.exec j) :=
    fun _ _ => ⟨trivial, fun _ _ _ _ he => by cases he⟩
  have hlaunch : Allowed (oneJob 1 1) 0 (CrashVisible (oneJob 1 1)) Sys.start
      (.launch 1 calm) := ⟨show exponent 1 1 1 < prime - 1 by decide, fun _ _ _ _ he => by cases he⟩
  have h0 : Reach (oneJob 1 1) 0 (Allowed (oneJob 1 1) 0 (CrashVisible (oneJob 1 1)))
      Sys.start := .start
  obtain ⟨s1, h1, hdb, hrun, hother⟩ := reach_launch hexec h0 hlaunch rfl (by decide) (by decide)
    (List.take_append_drop 8 _)
  have hl : lastiOf s1.db 1 = 1 := by
    rw [hdb]
    rfl
  have hvisible : CrashVisible (oneJob 1 1) 1 1
      (List.drop 8 (steps (jobIteration (oneJob 1 1) 1 1 calm))) := fun _ => by decide +kernel
  have h2 := reach_crash h1 ⟨trivial, fun j n I rest he hr => by
    obtain rfl := Event.crash.inj he
    rw [hrun] at hr
    obtain ⟨rfl, rfl, rfl⟩ := JobState.running.inj hr
    exact hvisible⟩ hrun
  have hresult := crash_of_reach rfl rfl (by decide) (by decide) h2 (idle_put hother)
  exact ⟨_, h2, hl, hresult.1, hresult.2 (by decide)⟩

end Verdict

/-! ## 3. The crash that checkdb does not recognize -/

section Between

variable {cfg : Config} (ht : cfg.trigger = 0)
include ht

/-- The steps before stage 11. -/
theorem left_lastStage (hi : cfg.istp ≠ 0) (jobno loop I : Nat) :
    left .lasti (lastStage cfg jobno loop I).steps = 0 := by
  have hcount := (stage11_count cfg jobno loop I ht).1
  rw [if_neg hi] at hcount
  rw [left, flatten_stage]
  exact hcount

/-- An iteration with only stage 11 left to do is in the state between stage 10 and stage 11. -/
theorem replaced_of_running (hi : cfg.istp ≠ 0) {jobno loop : Nat} {d : Db}
    (h : OnceState cfg jobno loop
      (.running (lastStage cfg jobno loop (usedI cfg.jobcnt jobno loop)).steps) d) :
    Flat cfg jobno loop (usedI cfg.jobcnt jobno loop) d ∧
      Replaced cfg jobno loop (usedI cfg.jobcnt jobno loop) d := by
  obtain ⟨ch, pre, hpre, ha⟩ := h
  have hI := usedI_ne_zero cfg.jobcnt jobno loop
  have hsub : ∀ c ∈ pre.flatten, c ∈ cmds (jobIteration cfg jobno loop ch) := by
    intro c hc
    rw [← flatten_steps, ← hpre, List.flatten_append]
    exact List.mem_append_left _ hc
  refine ⟨(flat_of_subset ht hsub).congr ha.symm, Snap.congr hI ha.symm ?_⟩
  have hflat : pre.flatten = stage1 cfg jobno loop (usedI cfg.jobcnt jobno loop) ch ++
      (cmds (middle cfg jobno loop (usedI cfg.jobcnt jobno loop) ch) ++
        stage10 cfg jobno loop (usedI cfg.jobcnt jobno loop)) := by
    have hpre' : pre = stage1 cfg jobno loop (usedI cfg.jobcnt jobno loop) ch ::
        (steps (middle cfg jobno loop (usedI cfg.jobcnt jobno loop) ch) ++
          [stage10 cfg jobno loop (usedI cfg.jobcnt jobno loop)]) := by
      refine List.append_cancel_right (hpre.trans ?_)
      rw [jobIteration, steps_iteration ht hi, List.cons_append, List.append_assoc]
      rfl
    rw [hpre', List.flatten_cons, List.flatten_append, flatten_steps, List.flatten_cons,
      List.flatten_nil, List.append_nil]
  rw [hflat, run_append, run_append]
  exact (replaced_of_steps ht jobno loop _ ch).1

/-- The one job up to the end of stage 10 of an iteration, then a crash. -/
theorem reach_between (hi : cfg.istp ≠ 0) (h1 : cfg.jobcnt = 1) {n : Nat} (hn : n < prime - 1) :
    ∃ s, Reach cfg 0 (InCycle cfg 0) s ∧ (∀ j, s.jobs j = .idle) ∧ lastiOf s.db 1 = n + 1 ∧
      Flat cfg 1 (n + 1) (usedI cfg.jobcnt 1 (n + 1)) s.db ∧
      Replaced cfg 1 (n + 1) (usedI cfg.jobcnt 1 (n + 1)) s.db := by
  have hallowed {s : Sys} {e : Event} (hcyc : InCycle cfg 0 s e) (he : ∀ j, e ≠ .crash j) :
      Allowed cfg 0 (CrashVisible cfg) s e := ⟨hcyc, fun j _ _ _ h => absurd h (he j)⟩
  have hexec : ∀ s j, Allowed cfg 0 (CrashVisible cfg) s (.exec j) := fun s j =>
    hallowed trivial fun _ h => by cases h
  have htop : top 0 cfg.jobcnt = prime := by
    rw [h1]
    decide
  have hexp (m : Nat) : exponent cfg.jobcnt 1 (m + 1) = m := by
    rw [h1, exponent, Nat.add_sub_cancel]
    omega
  have hlaunch : InCycle cfg 0 Sys.start (.launch 1 calm) := by
    show exponent cfg.jobcnt 1 (0 + 1) < prime - 1
    rw [hexp]
    decide
  obtain ⟨s, h, hs⟩ : ∃ s, Reach cfg 0 (Allowed cfg 0 (CrashVisible cfg)) s ∧
      Solo cfg (n + 1) s := by
    refine reach_solo ht hexec (hallowed hlaunch fun _ h => by cases h) (by omega) n (by omega)
      fun s m I hm hrun => hallowed (fun l I' he _ _ => ?_) fun _ h => by cases h
    rw [hrun] at he
    obtain ⟨rfl, -, -⟩ := JobState.running.inj he
    rw [hexp]
    omega
  have hsplit : s.jobs 1 = .running (n + 1) (usedI cfg.jobcnt 1 (n + 1))
      ((stage1 cfg 1 (n + 1) (usedI cfg.jobcnt 1 (n + 1)) calm ::
        (steps (middle cfg 1 (n + 1) (usedI cfg.jobcnt 1 (n + 1)) calm) ++
          [stage10 cfg 1 (n + 1) (usedI cfg.jobcnt 1 (n + 1))])) ++
        (lastStage cfg 1 (n + 1) (usedI cfg.jobcnt 1 (n + 1))).steps) := by
    rw [hs.begins, beginLoop, steps_iteration ht hi, List.cons_append, List.append_assoc]
    rfl
  obtain ⟨s', h', -, hrun, hother⟩ := reach_exec hexec _ h hsplit
  have hr : InRange cfg 1 (n + 1) := ⟨⟨Nat.le_refl 1, by omega⟩, by omega, by rw [hexp]; exact hn⟩
  have hq := iterInv_of_reach ht (onceInv ht hi) (fun _ _ hp => hp) h' 1 (n + 1) hr
  rw [status_self hrun] at hq
  have hl := lasti_of_reach ht (fun _ _ hp => hp.1) h' _ _ _ _ hrun
  rw [left_lastStage ht hi] at hl
  exact ⟨s'.put 1 .idle, reach_crash (h'.mono fun _ _ hp => hp.1) trivial hrun,
    idle_put fun j hj => (hother j hj).trans (hs.others j hj), hl,
    replaced_of_running ht hi hq⟩

omit ht in
/-- **A false alarm**: with records of 174 bytes the target piece of loop 124 is a part of its
    value that ends at a delimiter and has no blank, and checkdb takes what stage 10 left for a
    broken stage 7. -/
theorem crash_rejects_replaced : ∃ s, Reach (oneJob 1 1) 0 (InCycle (oneJob 1 1) 0) s ∧
    (∀ j, s.jobs j = .idle) ∧ lastiOf s.db 1 = 124 ∧ crash (oneJob 1 1) s.db ≠ 0 := by
  have hn : 123 < prime - 1 := by decide
  have htarget : ¬ TargetOk (oneJob 1 1) 124 := by decide +kernel
  obtain ⟨s, h, hidle, hl, hflat, hr⟩ :=
    reach_between (show (oneJob 1 1).trigger = 0 from rfl) (by decide) rfl hn
  refine ⟨s, h, hidle, hl, fun h0 => htarget ?_⟩
  rw [crash, jobLoop_eq_zero] at h0
  have hiter := h0 1 (by decide) (by decide) 124 (by decide) (Nat.le_of_eq hl.symm)
  exact (crashIter_of_replaced (usedI_ne_zero _ _ _) hflat hr).1 hiter

end Between

end YottaTest.Imptp
