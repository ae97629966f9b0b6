/-
  File:      YottaTest/Imptp/Redo.lean
  Subject:   Doing an iteration again over what an interrupted one left behind.

  What an iteration leaves in its own nodes does not depend on what it found there, nor on its
  random numbers: every node it reads it has written before.

  * `ownCmds` -- the updates of own nodes; `own_cmds_eq`: whatever the random numbers;
  * `covered_ownCmds` -- each read of an own node follows a write of it;
  * `finished`, `redo_agree` -- the state an iteration leaves, the same over any leftovers.
-/
import YottaTest.Imptp.Counters

namespace YottaTest.Imptp

open YottaTest.Lib YottaTest.M

/-! ## 1. The updates of own nodes -/

section Own

variable (cfg : Config) (jobno loop I : Nat) (ch ch' : Chance)

/-- The random numbers of a run without any event. -/
def calm : Chance := ⟨0, 0, 0, 0, 0, 0, 0, 0, [], 0⟩

/-- The updates of own nodes in an iteration. -/
def ownCmds : List Cmd := (cmds (iteration cfg jobno loop I calm)).filter Cmd.own

theorem filter_eq_nil {cs : List Cmd} (h : ∀ c ∈ cs, c.own = false) : cs.filter Cmd.own = [] := by
  rw [List.filter_eq_nil_iff]
  intro c hc
  rw [h c hc]
  decide

theorem noop_own : ∀ c ∈ noop jobno loop ch, c.own = false := by
  intro c hc
  obtain ⟨t, v, rfl⟩ := noop_gvn hc
  rfl

theorem stage1_own : (stage1 cfg jobno loop I ch).filter Cmd.own
    = (stage1 cfg jobno loop I ch').filter Cmd.own := by
  have hmid (ch : Chance) : (if cfg.istp = 1 ∧ cfg.crash ≠ 0 then
      (if ch.rndm1 = 1 ∧ ch.trestart1 > 2 then noop jobno loop ch else [])
        ++ (if ch.trestart1 ≠ 0 then [setNum (numNode .zdummy ch.trestart1) jobno] else [])
      else []).filter Cmd.own = [] := by
    refine filter_eq_nil ?_
    simp only [forall_mem_ite, List.forall_mem_append, List.forall_mem_cons, List.not_mem_nil,
      IsEmpty.forall_iff, implies_true, and_true]
    exact fun _ => ⟨fun _ => noop_own jobno loop ch, fun _ => rfl⟩
  simp only [stage1, List.filter_append, hmid]

theorem stage2_own : (stage2 cfg loop I ch).filter Cmd.own
    = (stage2 cfg loop I ch').filter Cmd.own := by
  have hitem (ch : Chance) : (if ch.rndm2 < 5 ∧ cfg.trigger ≠ 0 then
      [Cmd.ztriggerItem ch.item2] else []).filter Cmd.own = [] := by
    split
    · rfl
    · rfl
  simp only [stage2, List.filter_append, hitem]

theorem stage5_own : (stage5 cfg jobno loop I ch).filter Cmd.own
    = (stage5 cfg jobno loop I ch').filter Cmd.own := by
  have hnoop (ch : Chance) : (if cfg.istp = 1 ∧ cfg.crash ≠ 0 then
      (if ch.rndm5 = 1 ∧ ch.trestart5 > 2 then noop jobno loop ch else [])
      else []).filter Cmd.own = [] := by
    refine filter_eq_nil ?_
    simp only [forall_mem_ite, List.not_mem_nil, IsEmpty.forall_iff, implies_true, and_true]
    exact fun _ _ => noop_own jobno loop ch
  simp only [stage5, List.filter_append, hnoop]

theorem stage8_own : (stage8 cfg I ch).filter Cmd.own = (stage8 cfg I ch').filter Cmd.own := by
  have hdummy (ch : Chance) : (if cfg.istp = 1 then [setStr (topNode .dummy) ch.horolog]
      else []).filter Cmd.own = [] := by
    split
    · rfl
    · rfl
  simp only [stage8, List.filter_append, hdummy]

/-- **Whatever the random numbers**, the updates of own nodes are the same. -/
theorem own_cmds_eq : (cmds (iteration cfg jobno loop I ch)).filter Cmd.own
    = ownCmds cfg jobno loop I := by
  rw [ownCmds, iteration, iteration]
  simp only [cmds, List.flatMap_append, List.flatMap_cons, List.flatMap_nil, List.append_nil,
    List.filter_append, stage1_own cfg jobno loop I ch calm, stage2_own cfg loop I ch calm,
    stage5_own cfg jobno loop I ch calm, stage8_own cfg I ch calm]

end Own

/-! ## 2. Every read of an own node follows a write of it -/

section Covered

variable (cfg : Config) (jobno loop I : Nat) (ch : Chance) (ht : cfg.trigger = 0)
include ht

/-- Stages other than 7 and 10 read no own node. -/
theorem sources_eq_nil : (∀ c ∈ stage1 cfg jobno loop I ch, c.sources = []) ∧
    (∀ c ∈ stage2 cfg loop I ch, c.sources = []) ∧ (∀ c ∈ stage3 cfg loop I, c.sources = []) ∧
    (∀ J, ∀ c ∈ stage4 cfg loop I J, c.sources = []) ∧
    (∀ c ∈ stage5 cfg jobno loop I ch, c.sources = []) ∧ (∀ c ∈ stage6 cfg I, c.sources = []) ∧
    (∀ c ∈ stage8 cfg I ch, c.sources = []) ∧
    ∀ c ∈ stage11 cfg jobno loop I, c.sources = [] := by
  have hd (k : Nat) : cfg.doDztrig k = [] := by simp [Config.doDztrig, Config.dztrig, ht]
  have hnoop : ∀ c ∈ noop jobno loop ch, c.sources = [] := by
    intro c hc
    obtain ⟨t, v, rfl⟩ := noop_gvn hc
    rfl
  have hset {n : GNode} {s : MStr} : (setStr n s).sources = [] := rfl
  have hnum {n : GNode} {k : Nat} : (setNum n k).sources = [] := rfl
  have hkill {n : GNode} : (Cmd.kill n).sources = [] := rfl
  have hzkill {n : GNode} : (Cmd.zkill n).sources = [] := rfl
  refine ⟨?_, ?_, ?_, fun J c hc => ?_, fun c hc => ?_, ?_, ?_, ?_⟩
  · simp only [stage1, Config.noTrigger, ht, List.forall_mem_append, List.forall_mem_cons,
      forall_mem_ite, List.not_mem_nil, IsEmpty.forall_iff, implies_true, and_true, hset, hnum]
    exact ⟨⟨⟨trivial, fun _ _ => hnoop⟩, fun h => absurd rfl h⟩, fun _ _ => rfl⟩
  · simp [stage2, ht, hset]
  · simp [stage3, ht, hd, Config.noTrigger, hset]
  · rw [stage4_eq cfg loop I ht] at hc
    obtain ⟨g, -, rfl⟩ := List.mem_map.1 hc
    rfl
  · rcases mem_stage5 cfg jobno loop I ch ht hc with hc | ⟨g, -, rfl⟩
    · exact hnoop c hc
    · rfl
  · simp [stage6_eq cfg I ht, hzkill]
  · simp only [stage8, Config.noTrigger, ht, if_true, List.forall_mem_append,
      List.forall_mem_cons, forall_mem_ite, List.not_mem_nil, IsEmpty.forall_iff, implies_true,
      and_true, hset, hkill, hzkill]
  · rw [stage11_eq cfg jobno loop I ht]
    simp only [List.forall_mem_append, List.forall_mem_cons, forall_mem_ite, List.forall_mem_map,
      List.not_mem_nil, IsEmpty.forall_iff, implies_true, and_true, hnum]

omit ht in
theorem covered_filter {cs : List Cmd} (h : ∀ c ∈ cs, c.sources = []) (P : GNode → Prop) :
    Covered Cmd.reads Cmd.writes P (cs.filter Cmd.own) :=
  covered_of_not_reads P fun c hc k hk => by
    rw [Cmd.reads, h c (List.mem_of_mem_filter hc)] at hk
    exact List.not_mem_nil hk

/-- Stage 7 reads what it has just set. -/
theorem covered_stage7 (P : GNode → Prop) :
    Covered Cmd.reads Cmd.writes P ((stage7 cfg loop I).filter Cmd.own) := by
  have hall : (stage7 cfg loop I).filter Cmd.own = stage7 cfg loop I := by
    simp [stage7, ht, Config.noTrigger, setStr, numNode, Cmd.own, Cmd.target, Gvn.kind]
  rw [hall]
  simp [stage7, ht, Config.noTrigger, Covered, Cmd.reads, Cmd.writes, Cmd.sources, Cmd.target,
    Expr.sources, setStr]

/-- Stage 10 reads what stage 7 has set, and its own local variable. -/
theorem covered_stage10 {P : GNode → Prop} (ha : P (numNode .aspan I)) (he : P (numNode .espan I))
    (hb : P (numNode .bspan I)) :
    Covered Cmd.reads Cmd.writes P ((stage10 cfg jobno loop I).filter Cmd.own) := by
  have hall : (stage10 cfg jobno loop I).filter Cmd.own = stage10 cfg jobno loop I := by
    simp [stage10, ht, Config.noTrigger, numNode, subpieceNode, numNumNode, Cmd.own, Cmd.target,
      Gvn.kind]
  rw [hall]
  simp [stage10, ht, Config.noTrigger, Covered, Cmd.reads, Cmd.writes, Cmd.sources, Cmd.target,
    Expr.sources, ha, he, hb]

/-- **An iteration reads no own node before it has written it.** -/
theorem covered_ownCmds (P : GNode → Prop) :
    Covered Cmd.reads Cmd.writes P (ownCmds cfg jobno loop I) := by
  obtain ⟨h1, h2, h3, h4, h5, h6, h8, h11⟩ := sources_eq_nil cfg jobno loop I calm ht
  have hd : cfg.doDztrig 1 = [] := by simp [Config.doDztrig, Config.dztrig, ht]
  have hrows : ∀ c ∈ cmds ((List.range cfg.jobcnt).map fun j =>
      (⟨cfg.istp, stage4 cfg loop I (j + 1)⟩ : Stage)), c.sources = [] := by
    intro c hc
    obtain ⟨st, hst, hc⟩ := List.mem_flatMap.1 hc
    obtain ⟨j, -, rfl⟩ := List.mem_map.1 hst
    exact h4 (j + 1) c hc
  have h7mem {n : GNode} (hn : n ∈ [numNode .aspan I, numNode .espan I, numNode .bspan I]) :
      ∃ c ∈ (stage7 cfg loop I).filter Cmd.own, c.writes n := by
    simp only [List.mem_cons, List.not_mem_nil, or_false] at hn
    rcases hn with rfl | rfl | rfl
    · exact ⟨setStr (numNode .aspan I) (cfg.valPIECE loop), by
        simp [stage7, setStr, numNode, Cmd.own, Cmd.target, Gvn.kind], rfl⟩
    · exact ⟨.set (numNode .espan I) (.get (numNode .aspan I)), by
        simp [stage7, ht, Config.noTrigger, numNode, Cmd.own, Cmd.target, Gvn.kind], rfl⟩
    · exact ⟨.set (numNode .bspan I) (.noBlanks (numNode .aspan I)), by
        simp [stage7, ht, Config.noTrigger, numNode, Cmd.own, Cmd.target, Gvn.kind], rfl⟩
  rw [ownCmds, iteration_eq, middle]
  simp only [cmds, List.flatMap_append, List.flatMap_cons, List.flatMap_nil, List.append_nil,
    List.filter_append, hd, List.nil_append, List.append_assoc]
  rw [cmds] at hrows
  refine (covered_filter h1 _).append ?_
  refine (covered_filter h2 _).append ((covered_filter h3 _).append ?_)
  refine (covered_filter hrows _).append ((covered_filter h5 _).append ?_)
  refine (covered_filter h6 _).append ((covered_stage7 cfg loop I ht _).append ?_)
  refine (covered_filter h8 _).append ?_
  have h9 : (stage9 cfg).filter Cmd.own = [] := rfl
  rw [h9, List.nil_append]
  refine (covered_stage10 cfg jobno loop I ht ?_ ?_ ?_).append (covered_filter h11 _)
  · exact Or.inl (Or.inr (h7mem (by simp)))
  · exact Or.inl (Or.inr (h7mem (by simp)))
  · exact Or.inl (Or.inr (h7mem (by simp)))

end Covered

/-! ## 3. The state a finished iteration leaves -/

section Finished

variable (cfg : Config) (jobno loop I : Nat)

/-- **The state an iteration leaves** when nothing else has touched its nodes. -/
def finished : Db := run Cmd.exec (cmds (iteration cfg jobno loop I calm)) Table.empty

/-- No node is defined that is the iteration's own and that no update of it names. -/
def Unwritten (d : Db) : Prop :=
  ∀ k, Own cfg jobno loop I k → (∀ c ∈ ownCmds cfg jobno loop I, ¬ c.writes k) → d.get k = none

variable {cfg jobno loop I} {ch : Chance} (ht : cfg.trigger = 0) (hI : I ≠ 0)
include hI

/-- To its own nodes an iteration does what its updates of own nodes do, whatever its random
    numbers. -/
theorem run_iteration_own (d : Db) : Agree (Own cfg jobno loop I)
    (run Cmd.exec (cmds (iteration cfg jobno loop I ch)) d)
    (run Cmd.exec (ownCmds cfg jobno loop I) d) := by
  rw [← own_cmds_eq cfg jobno loop I ch]
  exact run_own (iteration_within cfg jobno loop I ch hI) (Agree.refl _ d)

include ht

/-- A node that an update names holds at the end what an undisturbed iteration leaves there. -/
theorem get_of_written {k : GNode} (hk : Own cfg jobno loop I k)
    (hw : ∃ c ∈ ownCmds cfg jobno loop I, c.writes k) (d : Db) :
    (run Cmd.exec (cmds (iteration cfg jobno loop I ch)) d).get k
      = (finished cfg jobno loop I).get k := by
  have hnone : Agree (fun _ => False) d Table.empty := fun _ h => h.elim
  have hsame := run_agree cmd_footprint (covered_ownCmds cfg jobno loop I ht fun _ => False)
    hnone k (Or.inr hw)
  calc (run Cmd.exec (cmds (iteration cfg jobno loop I ch)) d).get k
      = (run Cmd.exec (ownCmds cfg jobno loop I) d).get k := run_iteration_own hI d k hk
    _ = (run Cmd.exec (ownCmds cfg jobno loop I) Table.empty).get k := hsame
    _ = (finished cfg jobno loop I).get k := (run_iteration_own hI Table.empty k hk).symm

/-- **Redoing an iteration over any leftovers of it gives the state of an undisturbed one.** -/
theorem redo_agree {d : Db} (hd : Unwritten cfg jobno loop I d) :
    Agree (Own cfg jobno loop I) (run Cmd.exec (cmds (iteration cfg jobno loop I ch)) d)
      (finished cfg jobno loop I) := by
  intro k hk
  by_cases hw : ∃ c ∈ ownCmds cfg jobno loop I, c.writes k
  · exact get_of_written ht hI hk hw d
  · have hno : ∀ c ∈ ownCmds cfg jobno loop I, ¬ c.writes k := fun c hc h => hw ⟨c, hc, h⟩
    rw [run_iteration_own hI d k hk, finished, run_iteration_own hI Table.empty k hk,
      run_frame cmd_footprint hno, run_frame cmd_footprint hno, hd k hk hno]
    rfl

/-- What an undisturbed iteration leaves defined is set over anything that was there. -/
theorem get_of_finished {k : GNode} (hk : Own cfg jobno loop I k) {v : Val}
    (hv : (finished cfg jobno loop I).get k = some v) (d : Db) :
    (run Cmd.exec (cmds (iteration cfg jobno loop I ch)) d).get k = some v := by
  by_cases hw : ∃ c ∈ ownCmds cfg jobno loop I, c.writes k
  · rw [get_of_written ht hI hk hw, hv]
  · have hno : ∀ c ∈ ownCmds cfg jobno loop I, ¬ c.writes k := fun c hc h => hw ⟨c, hc, h⟩
    rw [finished, run_iteration_own hI Table.empty k hk, run_frame cmd_footprint hno] at hv
    cases hv

end Finished

end YottaTest.Imptp
