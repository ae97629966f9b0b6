/-
  File:      YottaTest/Imptp/Completed.lean
  Subject:   The completed loops of a run without crashes, or of a run outside TP with any crashes.

  Every loop a job has completed, by its `^lasti`, is in the state an undisturbed iteration leaves,
  so checkdb's comparisons for finished iterations find nothing; without crashes neither does its
  comparison of `^cntloop`.

  * `RedoState`, `redoInv` -- the invariant: interrupted iterations leave only nodes that their
    redoing writes, a running one stands between such leftovers and its end, and completed ones
    are finished;
  * `nontp_redo_harmless` -- outside TP: the completed loops and `nocrash`, with any crashes;
  * `checkdb_of_uninterrupted` -- checkdb's verdict when there were none.
-/
import YottaTest.Imptp.Solo
import YottaTest.Imptp.Status

namespace YottaTest.Imptp

open YottaTest.Lib YottaTest.M

/-! ## 1. The invariant -/

/-- **Iterations that are done again until they are through.** Whatever an interrupted one left,
    its redoing writes; a running one stands between such leftovers and its end. -/
def RedoState (cfg : Config) (jobno loop : Nat) (st : Status) (d : Db) : Prop :=
  Unwritten cfg jobno loop (usedI cfg.jobcnt jobno loop) d ∧
    match st with
    | .ahead => True
    | .running rest => ∃ ch pre d0, pre ++ rest = steps (jobIteration cfg jobno loop ch) ∧
        Unwritten cfg jobno loop (usedI cfg.jobcnt jobno loop) d0 ∧
        Agree (OwnOf cfg jobno loop) d (run Cmd.exec pre.flatten d0)
    | .behind => Agree (OwnOf cfg jobno loop) d
        (finished cfg jobno loop (usedI cfg.jobcnt jobno loop))

section Invariant

variable {cfg : Config} {preset : Nat} {s : Sys} (ht : cfg.trigger = 0)

theorem Unwritten.congr {jobno loop I : Nat} {d d' : Db}
    (h : Agree (Own cfg jobno loop I) d' d) (hu : Unwritten cfg jobno loop I d) :
    Unwritten cfg jobno loop I d' := fun k hk hw => (h k hk).trans (hu k hk hw)

/-- A step of an iteration writes nothing that its redoing does not write. -/
theorem Unwritten.exec {jobno loop : Nat} {d : Db} {cs : List Cmd} {rest : List (List Cmd)}
    (hok : JobOk cfg jobno loop (usedI cfg.jobcnt jobno loop) (cs :: rest))
    (hu : Unwritten cfg jobno loop (usedI cfg.jobcnt jobno loop) d) :
    Unwritten cfg jobno loop (usedI cfg.jobcnt jobno loop) (run Cmd.exec cs d) := by
  intro k hk hunw
  have hno : ∀ c ∈ cs, ¬ c.writes k := by
    intro c hc hcw
    obtain ⟨ch, hmem⟩ := hok.mem
    refine hunw c ?_ hcw
    rw [← own_cmds_eq cfg jobno loop _ ch]
    refine List.mem_filter.2 ⟨hmem c hc, ?_⟩
    by_contra hown
    exact not_own_of_shared (shared_of_writes (Bool.eq_false_of_not_eq_true hown) hcw) hk
  rw [run_frame cmd_footprint hno]
  exact hu k hk hunw

include ht

/-- Outside TP the last step of an iteration sets `^lasti`. -/
theorem last_step (hi : cfg.istp = 0) (jobno loop I : Nat) (ch : Chance) :
    ∃ ss cs, steps (iteration cfg jobno loop I ch) = ss ++ [cs] ∧ Gvn.lasti ∈ gvns cs := by
  have hmem : Gvn.lasti ∈ gvns [setNum (numNode .lasti jobno) loop] := List.mem_cons_self
  have hsteps : steps (iteration cfg jobno loop I ch)
      = steps (⟨0, cfg.doDztrig 1⟩ :: ⟨cfg.istp, stage1 cfg jobno loop I ch⟩ ::
        (middle cfg jobno loop I ch ++ [⟨cfg.istp, stage10 cfg jobno loop I⟩]))
        ++ (lastStage cfg jobno loop I).steps := by
    rw [iteration_eq]
    simp only [steps, List.flatMap_cons, List.flatMap_append, List.flatMap_nil, List.append_nil,
      List.append_assoc]
  rw [hsteps]
  by_cases hf : (lastStage cfg jobno loop I).fence = 0
  · have hlast : (lastStage cfg jobno loop I).steps = (lastStage cfg jobno loop I).cmds.map
        fun c => [c] := if_pos hf
    have hcmds : (lastStage cfg jobno loop I).cmds = stage11 cfg jobno loop I := rfl
    rw [hlast, hcmds, stage11_eq cfg jobno loop I ht, if_pos hi, List.map_append,
      ← List.append_assoc]
    exact ⟨_, _, rfl, hmem⟩
  · have hlast : (lastStage cfg jobno loop I).steps = [stage11 cfg jobno loop I] := if_neg hf
    rw [hlast]
    refine ⟨_, _, rfl, ?_⟩
    rw [stage11_eq cfg jobno loop I ht, if_pos hi, gvns_append]
    exact List.mem_append_right _ hmem

/-- So an iteration outside TP that has set `^lasti` has nothing left to do. -/
theorem rest_eq_nil (hi : cfg.istp = 0) {jobno loop I : Nat} {rest : List (List Cmd)}
    (hj : JobOk cfg jobno loop I rest) (h0 : left .lasti rest = 0) : rest = [] := by
  obtain ⟨-, -, ch, pre, hpre⟩ := hj
  obtain ⟨ss, cs, hss, hmem⟩ := last_step ht hi jobno loop I ch
  rcases List.eq_nil_or_concat rest with hnil | ⟨init, last, rfl⟩
  · exact hnil
  · rw [hss, List.concat_eq_append, ← List.append_assoc] at hpre
    have hlast : last = cs := (List.append_inj' hpre rfl).2 |> List.singleton_inj.1
    rw [left, List.count_eq_zero, List.concat_eq_append, List.flatten_append, gvns_append] at h0
    refine absurd (List.mem_append_right _ ?_) h0
    rw [hlast, List.flatten_cons, gvns_append]
    exact List.mem_append_left _ hmem

/-- **Each event of an iteration keeps `RedoState`**, crashes outside TP included. -/
theorem redoInv : IterInv cfg (fun _ _ _ => cfg.istp = 0) (RedoState cfg) where
  congr {j n st d d'} hr h hq := by
    refine ⟨hq.1.congr h, ?_⟩
    cases st with
    | ahead => trivial
    | running rest =>
        obtain ⟨ch, pre, d0, hpre, hu, ha⟩ := hq.2
        exact ⟨ch, pre, d0, hpre, hu, h.trans ha⟩
    | behind => exact h.trans hq.2
  start _ := ⟨fun _ _ _ => rfl, trivial⟩
  begin ch _ hq := ⟨hq.1, ch, [], _, rfl, hq.1, Agree.refl _ _⟩
  exec {j n cs rest d} hr hok hq := by
    obtain ⟨ch, pre, d0, hpre, hu, ha⟩ := hq.2
    refine ⟨hq.1.exec hok, ch, pre ++ [cs], d0, ?_, hu, ?_⟩
    · rw [List.append_assoc]
      exact hpre
    · rw [List.flatten_append, run_append, List.flatten_cons, List.flatten_nil, List.append_nil]
      exact run_own_congr hok.within ha
  finish {j n d} _ hq := by
    obtain ⟨ch, pre, d0, hpre, hu, ha⟩ := hq.2
    rw [List.append_nil] at hpre
    rw [hpre, flatten_steps] at ha
    exact ⟨hq.1, ha.trans (redo_agree ht (usedI_ne_zero _ _ _) hu)⟩
  crash {j n rest d} hok hi hq := by
    by_cases h0 : left .lasti rest = 0
    · rw [if_pos h0]
      obtain ⟨ch, pre, d0, hpre, hu, ha⟩ := hq.2
      rw [rest_eq_nil ht hi hok h0, List.append_nil] at hpre
      rw [hpre, flatten_steps] at ha
      exact ⟨hq.1, ha.trans (redo_agree ht (usedI_ne_zero _ _ _) hu)⟩
    · rw [if_neg h0]
      exact ⟨hq.1, trivial⟩

end Invariant

/-! ## 2. checkdb on the completed loops -/

section Verdict

variable {cfg : Config} {preset : Nat} {s : Sys} (ht : cfg.trigger = 0)
include ht

/-- A finished iteration passes, in whatever database its nodes are. -/
theorem compiter_of_finished {jobno loop : Nat} {d : Db}
    (h : Agree (OwnOf cfg jobno loop) d
      (finished cfg jobno loop (usedI cfg.jobcnt jobno loop))) :
    compiter cfg d (usedI cfg.jobcnt jobno loop) loop = 0 := by
  have hI := usedI_ne_zero cfg.jobcnt jobno loop
  have hfinal : Final cfg jobno loop (usedI cfg.jobcnt jobno loop)
      (finished cfg jobno loop (usedI cfg.jobcnt jobno loop)) := final_of_iteration ht
  have hflat : Flat cfg jobno loop (usedI cfg.jobcnt jobno loop)
      (finished cfg jobno loop (usedI cfg.jobcnt jobno loop)) := flat_of_subset ht fun _ hc => hc
  exact compiter_of_final hI (hflat.congr h.symm) (hfinal.congr hI h.symm)

/-- **Outside TP every loop up to `^lasti` is finished**, whatever crashes there were. -/
theorem finished_of_nontp (hi : cfg.istp = 0)
    (h : Reach cfg preset (InCycle cfg preset) s) {jobno loop : Nat}
    (hr : InRange cfg jobno loop) (hle : loop ≤ lastiOf s.db jobno) :
    Agree (OwnOf cfg jobno loop) s.db
      (finished cfg jobno loop (usedI cfg.jobcnt jobno loop)) := by
  have hq := iterInv_of_reach ht (redoInv ht) (fun s e hp => ⟨hp, fun _ _ _ _ _ _ => hi⟩) h
    jobno loop hr
  by_cases hrun : ∃ I rest, s.jobs jobno = .running loop I rest
  · obtain ⟨I, rest, hrun⟩ := hrun
    have hok := jobsOk_of_reach (fun _ _ hp => hp) h _ _ _ _ hrun
    have hll := lasti_of_reach ht (fun _ _ hp => hp) h _ _ _ _ hrun
    have hnil : rest = [] := rest_eq_nil ht hi hok (by omega)
    subst hnil
    rw [status_self hrun] at hq
    exact ((redoInv ht).finish hr hq).2
  · rw [status_behind (fun I rest he => hrun ⟨I, rest, he⟩) hle] at hq
    exact hq.2

/-- An event of an uninterrupted run. -/
def Uninterrupted (cfg : Config) (preset : Nat) (s : Sys) (e : Event) : Prop :=
  InCycle cfg preset s e ∧ ∀ jobno, e ≠ .crash jobno

/-- **Without crashes every loop up to `^lasti` is finished** that no job is running. -/
theorem finished_of_uninterrupted (h : Reach cfg preset (Uninterrupted cfg preset) s)
    {jobno loop : Nat} (hr : InRange cfg jobno loop) (hle : loop ≤ lastiOf s.db jobno)
    (hrun : ∀ I rest, s.jobs jobno ≠ .running loop I rest) :
    Agree (OwnOf cfg jobno loop) s.db
      (finished cfg jobno loop (usedI cfg.jobcnt jobno loop)) := by
  have hq := iterInv_of_reach ht (redoInv ht)
    (fun s e hp => ⟨hp.1, fun j _ _ _ he => absurd he (hp.2 j)⟩) h jobno loop hr
  rw [status_behind hrun hle] at hq
  exact hq.2

/-- **Redoing an interrupted iteration is harmless outside TP**: in every state of a run with any
    crashes, each loop up to a job's `^lasti` is as an undisturbed iteration leaves it, the same
    as in any uninterrupted run, and `nocrash` finds no mismatch. -/
theorem nontp_redo_harmless (hi : cfg.istp = 0) (h : Reach cfg preset (InCycle cfg preset) s) :
    (∀ jobno loop, 1 ≤ jobno → jobno ≤ cfg.jobcnt → 1 ≤ loop → loop ≤ lastiOf s.db jobno →
      Agree (OwnOf cfg jobno loop) s.db
          (finished cfg jobno loop (usedI cfg.jobcnt jobno loop)) ∧
        ∀ s', Reach cfg preset (Uninterrupted cfg preset) s' → loop ≤ lastiOf s'.db jobno →
          Agree (OwnOf cfg jobno loop) s.db s'.db) ∧
      nocrash cfg s.db = 0 := by
  have hrange := lastiInRange_of_reach ht (fun _ _ hp => hp) h
  constructor
  · intro j n h1 hj hn hle
    have hr := hrange j n ⟨h1, hj⟩ hn hle
    have hf := finished_of_nontp ht hi h hr hle
    exact ⟨hf, fun s' h' hle' => hf.trans
      (finished_of_nontp ht hi (h'.mono fun _ _ hp => hp.1) hr hle').symm⟩
  · rw [nocrash, jobLoop_eq_zero]
    intro j h1 hj n hn hle
    exact compiter_of_finished ht
      (finished_of_nontp ht hi h (hrange j n ⟨h1, hj⟩ hn hle) hle)

omit ht in
/-- An iteration interrupted after five updates, then done again. -/
theorem nontp_redo_harmless_crash : ∃ s, Reach (oneJob 0 1) 0 (InCycle (oneJob 0 1) 0) s ∧
    lastiOf s.db 1 = 1 ∧
    Agree (OwnOf (oneJob 0 1) 1 1) s.db (finished (oneJob 0 1) 1 1 (usedI 1 1 1)) ∧
    nocrash (oneJob 0 1) s.db = 0 := by
  have hexec : ∀ s j, InCycle (oneJob 0 1) 0 s (.exec j) := fun _ _ => trivial
  have hcycle : exponent 1 1 1 < prime - 1 := by decide
  have h0 : Reach (oneJob 0 1) 0 (InCycle (oneJob 0 1) 0) Sys.start := .start
  obtain ⟨s1, h1, hdb1, hrun1, -⟩ := reach_launch hexec h0 hcycle rfl
    (by decide) (by decide) (List.take_append_drop 5 _)
  have hl1 : lastiOf s1.db 1 = 0 := by
    rw [hdb1, lasti_same (by decide)]
    rfl
  have h1' := reach_crash h1 trivial hrun1
  obtain ⟨s2, h2, hdb2, -, -⟩ := reach_launch hexec h1'
    (show exponent 1 1 (lastiOf s1.db 1 + 1) < prime - 1 by rw [hl1]; exact hcycle)
    (Function.update_self 1 _ s1.jobs) (by decide)
    (show lastiOf s1.db 1 + 1 ≤ top 0 1 by rw [hl1]; decide) (List.append_nil _)
  have hl2 : lastiOf s2.db 1 = 1 := by
    rw [hdb2, flatten_steps, lasti_of_iteration rfl]
    exact congrArg (· + 1) hl1
  have hresult := nontp_redo_harmless rfl rfl h2
  exact ⟨s2, h2, hl2, (hresult.1 1 1 (by decide) (by decide) (by decide) (by rw [hl2])).1,
    hresult.2⟩

omit ht in
/-- With one job, iteration `prime` overwrites what iteration 1 left. -/
theorem nontp_redo_overwrites : ∃ s, Reach (oneJob 0 1) 0 (fun _ _ => True) s ∧
    (∀ j, s.jobs j = .idle) ∧ lastiOf s.db 1 = prime ∧ nocrash (oneJob 0 1) s.db ≠ 0 :=
  nocrash_ne_zero_of_cycle rfl rfl fun _ _ _ => trivial

/-- The sum over the jobs is what `^cntloop` holds when all are stopped. -/
theorem cntloop_eq_sumLasti (h : Reach cfg preset (Uninterrupted cfg preset) s)
    (hidle : ∀ j, s.jobs j = .idle) :
    (s.db.value (topNode .cntloop)).toStr = natStr (sumLasti cfg s.db) := by
  have hc := cntloop_of_reach ht (fun _ _ hp => hp.1) (fun _ _ hp => hp.2) h
  have hcounted : (fun j => counted s (j + 1)) = fun j => lastiOf s.db (j + 1) :=
    funext fun j => counted_idle (hidle (j + 1))
  rw [CntloopOk, hcounted] at hc
  rw [DB.value, hc]
  rfl

/-- **checkdb passes after every run without crashes**, however often it was stopped and
    started again. -/
theorem checkdb_of_uninterrupted (hjob : 1 ≤ cfg.jobcnt) (hcrash : cfg.crash = 0)
    (h : Reach cfg preset (Uninterrupted cfg preset) s) (hidle : ∀ j, s.jobs j = .idle) :
    checkdb cfg s.db = some 0 := by
  have hrange := lastiInRange_of_reach ht (fun _ _ hp => hp.1) h
  have hno : nocrash cfg s.db = 0 := by
    rw [nocrash, jobLoop_eq_zero]
    intro j h1 hj n hn hle
    refine compiter_of_finished ht (finished_of_uninterrupted ht h
      (hrange j n ⟨h1, hj⟩ hn hle) hle fun I rest he => ?_)
    rw [hidle j] at he
    cases he
  have hsum := cntloop_eq_sumLasti ht h hidle
  have h0 : cfg.jobcnt ≠ 0 := by omega
  have hg : ¬ (cfg.gtcm = 1 ∧ 0 = 1) := by omega
  rw [checkdb, if_neg h0, hcrash, if_neg hg]
  simp only [ite_self, if_true, true_and, hno, hsum, ne_eq, not_true_eq_false, if_false]

omit ht in
/-- One iteration, after which the job is asked to stop. -/
theorem checkdb_of_uninterrupted_once : ∃ s,
    Reach (oneJob 1 0) 0 (Uninterrupted (oneJob 1 0) 0) s ∧ lastiOf s.db 1 = 1 ∧
      checkdb (oneJob 1 0) s.db = some 0 := by
  have hexec : ∀ s j, Uninterrupted (oneJob 1 0) 0 s (.exec j) := fun _ _ =>
    ⟨trivial, fun _ h => by cases h⟩
  have hlaunch : Uninterrupted (oneJob 1 0) 0 Sys.start (.launch 1 calm) :=
    ⟨show exponent 1 1 1 < prime - 1 by decide, fun _ h => by cases h⟩
  have h0 : Reach (oneJob 1 0) 0 (Uninterrupted (oneJob 1 0) 0) Sys.start := .start
  obtain ⟨s1, h1, hdb, hrun, hother⟩ := reach_launch hexec h0 hlaunch rfl
    (by decide) (by decide) (List.append_nil _)
  have hl : lastiOf s1.db 1 = 1 := by
    rw [hdb, flatten_steps, lasti_of_iteration rfl]
    rfl
  -- `endtp`, and the job is at the end of its loop body
  have h2 : Reach (oneJob 1 0) 0 (Uninterrupted (oneJob 1 0) 0)
      { s1 with db := s1.db.set (topNode .endloop) (.num 1) } :=
    .step (e := .endtp) h1 ⟨trivial, fun _ h => by cases h⟩ rfl
  generalize hs2 : ({ s1 with db := s1.db.set (topNode .endloop) (.num 1) } : Sys) = s2 at h2
  have hend : (DB.value s2.db (topNode .endloop)).toNat ≠ 0 := by
    rw [← hs2, DB.value, Table.get_set_self]
    exact Nat.one_ne_zero
  have hrun2 : s2.jobs 1 = .running 1 (usedI 1 1 1) [] := by
    rw [← hs2]
    exact hrun
  have hstop : step (oneJob 1 0) 0 (.next 1 calm) s2 = some (s2.put 1 .idle) := by
    simp only [step, hrun2]
    exact if_pos (Or.inl hend)
  have h3 := Reach.step h2
    (show Uninterrupted (oneJob 1 0) 0 s2 (.next 1 calm) from
      ⟨fun _ _ _ h0 => absurd h0 hend, fun _ h => by cases h⟩) hstop
  have hidle : ∀ j, (s2.put 1 .idle).jobs j = .idle := idle_put fun j hj => by
    rw [← hs2]
    exact hother j hj
  refine ⟨s2.put 1 .idle, h3, ?_, checkdb_of_uninterrupted rfl (by decide) rfl h3 hidle⟩
  subst hs2
  exact (lastiOf_endtp s1.db _ 1).trans hl

omit ht in
/-- With one job, a run of all `prime` iterations ends in a database that checkdb rejects. -/
theorem checkdb_rejects_cycle : ∃ s, Reach (oneJob 1 0) 0 (fun _ e => ∀ j, e ≠ .crash j) s ∧
    (∀ j, s.jobs j = .idle) ∧ checkdb (oneJob 1 0) s.db ≠ some 0 := by
  have hP : ∀ (s : Sys) (e : Event), (∀ j, e ≠ .crash j) → ∀ j, e ≠ .crash j := fun _ _ he => he
  obtain ⟨s, h, hidle, -, hno⟩ := nocrash_ne_zero_of_cycle (show (oneJob 1 0).trigger = 0 from rfl)
    rfl hP
  refine ⟨s, h, hidle, fun h0 => hno ?_⟩
  have hfl : (if (oneJob 1 0).crash = 0 ∧ natStr (sumLasti (oneJob 1 0) s.db)
      ≠ (DB.value s.db (topNode .cntloop)).toStr then nocrash (oneJob 1 0) s.db + 1
      else nocrash (oneJob 1 0) s.db) = 0 := Option.some.inj h0
  split at hfl
  · omega
  · exact hfl

end Verdict

end YottaTest.Imptp
