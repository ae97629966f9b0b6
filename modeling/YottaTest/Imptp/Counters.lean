/-
  File:      YottaTest/Imptp/Counters.lean
  Subject:   What `^lasti` and `^cntloop` hold in a run, whatever the interleaving.

  * `left` -- how many updates of a global a job has yet to do in its iteration: each of the two
    counters is updated once (`iteration_left`);
  * `lasti_of_reach` -- `^lasti` of a running job is one behind its loop number until it is set;
  * `cntloop_of_reach` -- without crashes `^cntloop` is the number of iterations that counted.
-/
import YottaTest.Imptp.System

namespace YottaTest.Imptp

open YottaTest.Lib YottaTest.M

/-! ## 1. Each counter is updated once in an iteration -/

section Iteration

variable (cfg : Config) (jobno loop I : Nat) (ch : Chance)

theorem gvns_append (as bs : List Cmd) : gvns (as ++ bs) = gvns as ++ gvns bs :=
  List.filterMap_append

/-- The two counters. -/
def counters : List Gvn := [.lasti, .cntloop]

/-- The shared globals that control a run. -/
def control : List Gvn := [.lasti, .cntloop, .endloop]

theorem randoms_not_control : ∀ g ∈ randoms, g ∉ control := by decide

theorem stage8_not_control :
    ∀ g ∈ [Gvn.arandom, .antp, .bntp, .brandomv, .cntp, .dntp, .dummy], g ∉ control := by decide

variable (ht : cfg.trigger = 0)
include ht

theorem stage1_count : (gvns (stage1 cfg jobno loop I ch)).count .lasti
      = (if cfg.istp = 0 then 0 else 1) ∧
    (gvns (stage1 cfg jobno loop I ch)).count .cntloop = 0 ∧
    (gvns (stage1 cfg jobno loop I ch)).count .endloop = 0 := by
  have hz : cfg.ztr = false := by simp [Config.ztr, ht]
  have hmid {g : Gvn} (hg : g ≠ .zdummy ∧ g ≠ .dummynoop) : (gvns
      (if cfg.istp = 1 ∧ cfg.crash ≠ 0 then
        (if ch.rndm1 = 1 ∧ ch.trestart1 > 2 then noop jobno loop ch else [])
          ++ (if ch.trestart1 ≠ 0 then [setNum (numNode .zdummy ch.trestart1) jobno] else [])
        else [])).count g = 0 := by
    refine List.count_eq_zero_of_not_mem fun hm => ?_
    obtain ⟨c, hc, hgc⟩ := List.mem_filterMap.1 hm
    split at hc
    · rcases List.mem_append.1 hc with hc | hc
      · split at hc
        · obtain ⟨t, v, rfl⟩ := noop_gvn hc
          exact hg.2 (Option.some.inj hgc).symm
        · cases hc
      · split at hc
        · rw [List.mem_singleton.1 hc] at hgc
          exact hg.1 (Option.some.inj hgc).symm
        · cases hc
    · cases hc
  simp only [stage1, gvns_append, List.count_append, hmid (g := .lasti) (by decide),
    hmid (g := .cntloop) (by decide), hmid (g := .endloop) (by decide)]
  by_cases h0 : cfg.istp = 0
  · simp [ht, h0, Config.noTrigger, gvns, setStr, strNode, numNode, numNumNode, Cmd.target]
  · simp [ht, h0, hz, Config.noTrigger, gvns, setStr, setNum, strNode, numNode, numNumNode,
      Cmd.target]

theorem stage11_count : (gvns (stage11 cfg jobno loop I)).count .lasti
      = (if cfg.istp = 0 then 1 else 0) ∧
    (gvns (stage11 cfg jobno loop I)).count .cntloop = 0 ∧
    (gvns (stage11 cfg jobno loop I)).count .endloop = 0 := by
  rw [stage11_eq cfg jobno loop I ht]
  by_cases h0 : cfg.istp = 0
  · simp [h0, gvns, otherNdxarrs, setNum, numNumNode, numNode, Cmd.target]
  · simp [h0, gvns, otherNdxarrs, setNum, numNumNode, Cmd.target]

theorem rows_gvns : ∀ g ∈ gvns (cmds ((List.range cfg.jobcnt).map fun j =>
    (⟨cfg.istp, stage4 cfg loop I (j + 1)⟩ : Stage))), g ∈ randoms := by
  intro g hg
  obtain ⟨c, hc, hgc⟩ := List.mem_filterMap.1 hg
  obtain ⟨st, hst, hc⟩ := List.mem_flatMap.1 hc
  obtain ⟨j, -, rfl⟩ := List.mem_map.1 hst
  rw [← stage4_gvns cfg loop I ht (j + 1)]
  exact List.mem_filterMap.2 ⟨c, hc, hgc⟩

/-- Only three stages update the shared nodes that control a run. -/
theorem iteration_count_eq {g : Gvn} (hg : g ∈ control) :
    (gvns (cmds (iteration cfg jobno loop I ch))).count g
      = (gvns (stage1 cfg jobno loop I ch)).count g + (gvns (stage9 cfg)).count g
        + (gvns (stage11 cfg jobno loop I)).count g := by
  have h0 : cfg.doDztrig 1 = [] := by simp [Config.doDztrig, Config.dztrig, ht]
  have hzero (cs : List Cmd) (h : ∀ g ∈ gvns cs, g ∉ control) : (gvns cs).count g = 0 :=
    List.count_eq_zero_of_not_mem fun hm => h g hm hg
  have h2 := hzero (stage2 cfg loop I ch) (by rw [stage2_gvns cfg loop I ch ht]; decide)
  have h3 := hzero (stage3 cfg loop I) (by rw [stage3_gvns cfg loop I ht]; decide)
  have h4 := hzero _ fun g hm => randoms_not_control g (rows_gvns cfg loop I ht g hm)
  have h5 := hzero (stage5 cfg jobno loop I ch) fun g hm => by
    rcases stage5_gvns cfg jobno loop I ch ht g hm with rfl | hm
    · decide
    · exact randoms_not_control g hm
  have h6 := hzero (stage6 cfg I) fun g hm => by
    rw [stage6_gvns cfg I ht g hm]
    decide
  have h7 := hzero (stage7 cfg loop I) (by rw [stage7_gvns cfg loop I ht]; decide)
  have h8 := hzero (stage8 cfg I ch) fun g hm =>
    stage8_not_control g (stage8_gvns cfg I ch ht g hm)
  have h10 := hzero (stage10 cfg jobno loop I)
    (by rw [stage10_gvns cfg jobno loop I ht]; decide)
  rw [iteration]
  simp only [cmds, List.flatMap_append, List.flatMap_cons, List.flatMap_nil, List.append_nil,
    List.nil_append, h0, gvns_append, List.count_append, h2, h3, h5, h6, h7, h8, h10]
  rw [cmds] at h4
  rw [h4]
  omega

/-- **Each of the two counters is updated once.** -/
theorem iteration_count {g : Gvn} (hg : g ∈ counters) :
    (gvns (cmds (iteration cfg jobno loop I ch))).count g = 1 := by
  have hsub : ∀ g ∈ counters, g ∈ control := by decide
  have h1 := stage1_count cfg jobno loop I ch ht
  have h11 := stage11_count cfg jobno loop I ht
  rw [iteration_count_eq cfg jobno loop I ch ht (hsub g hg), stage9_gvns]
  simp only [counters, List.mem_cons, List.not_mem_nil, or_false] at hg
  rcases hg with rfl | rfl
  · rw [h1.1, h11.1]
    split
    · decide
    · decide
  · rw [h1.2.1, h11.2.1]
    decide

/-- An iteration leaves `^endloop` alone. -/
theorem iteration_endloop : Gvn.endloop ∉ gvns (cmds (iteration cfg jobno loop I ch)) := by
  rw [← List.count_eq_zero, iteration_count_eq cfg jobno loop I ch ht (by decide),
    (stage1_count cfg jobno loop I ch ht).2.2, (stage11_count cfg jobno loop I ht).2.2,
    stage9_gvns]
  decide

/-- What a command may do to the counters. -/
def Counts (jobno loop : Nat) (c : Cmd) : Prop :=
  ∀ n ∈ c.target, n.gvn ∈ counters →
    c = setNum (numNode .lasti jobno) loop ∨ c = .incr (topNode .cntloop) 1

omit ht in
theorem counts_of_gvns {cs : List Cmd} (h : ∀ g ∈ gvns cs, g ∉ control) :
    ∀ c ∈ cs, Counts jobno loop c := fun c hc n hn hg =>
  absurd ((by decide : ∀ g ∈ counters, g ∈ control) _ hg) (h n.gvn (List.mem_filterMap.2 ⟨c, hc, by rw [show c.target = some n from hn]; rfl⟩))

theorem stage1_counts : ∀ c ∈ stage1 cfg jobno loop I ch, Counts jobno loop c := by
  have hz : cfg.ztr = false := by simp [Config.ztr, ht]
  simp only [stage1, Config.noTrigger, List.forall_mem_append, List.forall_mem_cons,
    forall_mem_ite, List.not_mem_nil, IsEmpty.forall_iff, implies_true, and_true, ht, hz]
  simp [Counts, counters, setStr, setNum, strNode, numNode, numNumNode, noop, Cmd.target]

theorem stage11_counts : ∀ c ∈ stage11 cfg jobno loop I, Counts jobno loop c := by
  rw [stage11_eq cfg jobno loop I ht]
  simp only [List.forall_mem_append, List.forall_mem_cons, forall_mem_ite, List.forall_mem_map,
    List.not_mem_nil, IsEmpty.forall_iff, implies_true, and_true]
  refine ⟨⟨?_, fun g hg n hn hm => ?_⟩, fun _ n hn hm => Or.inl rfl⟩
  · simp [Counts, counters, setNum, numNumNode, Cmd.target]
  · have hn : numNumNode g jobno loop = n := Option.some.inj hn
    rw [← hn] at hm
    exact absurd hm ((by decide : ∀ g ∈ otherNdxarrs, g ∉ counters) g hg)

/-- **An iteration updates the counters in one way each.** -/
theorem iteration_counts : ∀ c ∈ cmds (iteration cfg jobno loop I ch), Counts jobno loop c := by
  have h0 : cfg.doDztrig 1 = [] := by simp [Config.doDztrig, Config.dztrig, ht]
  have h4 := counts_of_gvns jobno loop fun g hm =>
    randoms_not_control g (rows_gvns cfg loop I ht g hm)
  rw [iteration]
  simp only [cmds, List.flatMap_append, List.flatMap_cons, List.flatMap_nil, List.append_nil,
    List.nil_append, h0, List.forall_mem_append]
  rw [cmds] at h4
  refine ⟨⟨⟨stage1_counts cfg jobno loop I ch ht, counts_of_gvns jobno loop ?_,
    counts_of_gvns jobno loop ?_⟩, h4⟩, counts_of_gvns jobno loop fun g hm => ?_,
    counts_of_gvns jobno loop fun g hm => ?_, counts_of_gvns jobno loop ?_,
    counts_of_gvns jobno loop fun g hm => ?_, ?_, counts_of_gvns jobno loop ?_,
    stage11_counts cfg jobno loop I ht⟩
  · rw [stage2_gvns cfg loop I ch ht]
    decide
  · rw [stage3_gvns cfg loop I ht]
    decide
  · rcases stage5_gvns cfg jobno loop I ch ht g hm with rfl | hm
    · decide
    · exact randoms_not_control g hm
  · rw [stage6_gvns cfg I ht g hm]
    decide
  · rw [stage7_gvns cfg loop I ht]
    decide
  · exact stage8_not_control g (stage8_gvns cfg I ch ht g hm)
  · simp [stage9, Counts, counters, topNode, Cmd.target]
  · rw [stage10_gvns cfg jobno loop I ht]
    decide

end Iteration

/-! ## 2. What some commands of an iteration do to the counters -/

section Effects

variable {jobno loop : Nat} {cs : List Cmd} (hcs : ∀ c ∈ cs, Counts jobno loop c)
include hcs

/-- `^lasti` of another job is not touched. -/
theorem lasti_other {j : Nat} (hj : j ≠ jobno) (d : Db) :
    lastiOf (run Cmd.exec cs d) j = lastiOf d j := by
  have hu : Untouched (numNode .lasti j) cs := by
    intro c hc hw
    obtain ⟨n, hn, hcov⟩ := covers_of_writes hw
    have hg : n.gvn = .lasti := (Node.covers_iff.1 hcov).1
    rcases hcs c hc n hn (by rw [hg]; decide) with rfl | rfl
    · have hne : numNode .lasti jobno = numNode .lasti j := Option.some.inj hw
      simp only [numNode, Node.mk.injEq, List.cons.injEq, Sub.num.injEq, and_true, true_and] at hne
      exact hj hne.symm
    · obtain rfl : topNode .cntloop = n := Option.some.inj hn
      cases hg
  rw [lastiOf, lastiOf, value_congr (hu.get d)]

omit hcs in
/-- Without an update of `^lasti` it is not touched. -/
theorem lasti_same (h0 : (gvns cs).count .lasti = 0) (j : Nat) (d : Db) :
    lastiOf (run Cmd.exec cs d) j = lastiOf d j := by
  have hu : Untouched (numNode .lasti j) cs :=
    untouched_of_gvn (k := numNode .lasti j) (List.count_eq_zero.1 h0)
  rw [lastiOf, lastiOf, value_congr (hu.get d)]

/-- With one the job's `^lasti` is its loop number. -/
theorem lasti_set (h1 : (gvns cs).count .lasti ≠ 0) (d : Db) :
    lastiOf (run Cmd.exec cs d) jobno = loop := by
  have hmem : setNum (numNode .lasti jobno) loop ∈ cs := by
    have hg : Gvn.lasti ∈ gvns cs := List.count_pos_iff.1 (Nat.pos_of_ne_zero h1)
    obtain ⟨c, hc, hgc⟩ := List.mem_filterMap.1 hg
    obtain ⟨n, hn, hng⟩ := Option.map_eq_some_iff.1 hgc
    rcases hcs c hc n hn (by rw [hng]; decide) with rfl | rfl
    · exact hc
    · obtain rfl : topNode .cntloop = n := Option.some.inj hn
      cases hng
  have hget : (run Cmd.exec cs d).get (numNode .lasti jobno) = some (.num loop) := by
    refine get_of_set (fun c hc hw => ?_) hmem d
    obtain ⟨n, hn, hcov⟩ := covers_of_writes hw
    have hg : n.gvn = .lasti := (Node.covers_iff.1 hcov).1
    rcases hcs c hc n hn (by rw [hg]; decide) with rfl | rfl
    · rfl
    · obtain rfl : topNode .cntloop = n := Option.some.inj hn
      cases hg
  rw [lastiOf, DB.value, hget]
  rfl

omit hcs in
/-- `^cntloop` counts the updates. -/
theorem cntloop_add : ∀ {cs : List Cmd}, (∀ c ∈ cs, Counts jobno loop c) → ∀ {d : Db} {n : Nat},
    d.get (topNode .cntloop) = some (.num n) →
    (run Cmd.exec cs d).get (topNode .cntloop)
      = some (.num (n + (gvns cs).count .cntloop))
  | [], _, _, _, h => h
  | c :: cs, hcs, d, n, h => by
      have hcs' : ∀ b ∈ cs, Counts jobno loop b := fun b hb => hcs b (List.mem_cons_of_mem _ hb)
      have hcons : gvns (c :: cs) = gvns [c] ++ gvns cs := gvns_append [c] cs
      rw [run_cons, hcons, List.count_append, ← Nat.add_assoc]
      refine cntloop_add hcs' ?_
      by_cases hw : c.writes (topNode .cntloop)
      · obtain ⟨m, hm, hcov⟩ := covers_of_writes hw
        have hg : m.gvn = .cntloop := (Node.covers_iff.1 hcov).1
        rcases hcs c List.mem_cons_self m hm (by rw [hg]; decide) with rfl | rfl
        · obtain rfl : numNode .lasti jobno = m := Option.some.inj hm
          cases hg
        · show (DB.incr d (topNode .cntloop) 1).get _ = _
          rw [DB.incr, Table.get_set_self, DB.value, h]
          rfl
      · have hzero : (gvns [c]).count .cntloop = 0 := by
          refine List.count_eq_zero_of_not_mem fun hm => hw ?_
          obtain ⟨b, hb, hgb⟩ := List.mem_filterMap.1 hm
          obtain rfl := List.mem_singleton.1 hb
          obtain ⟨m, hm, hmg⟩ := Option.map_eq_some_iff.1 hgb
          rcases hcs b List.mem_cons_self m hm (by rw [hmg]; decide) with rfl | rfl
          · obtain rfl : numNode .lasti jobno = m := Option.some.inj hm
            cases hmg
          · rfl
        rw [(cmd_footprint c).frame d _ hw, hzero]
        exact h

end Effects

/-! ## 3. The counters in a run -/

/-- How often the steps yet to do update a global. -/
def left (g : Gvn) (rest : List (List Cmd)) : Nat := (gvns rest.flatten).count g

theorem left_cons (g : Gvn) (cs : List Cmd) (rest : List (List Cmd)) :
    left g (cs :: rest) = (gvns cs).count g + left g rest := by
  rw [left, List.flatten_cons, gvns_append, List.count_append]
  rfl

section Runs

variable {cfg : Config} {preset : Nat} {s s' : Sys} {e : Event} (ht : cfg.trigger = 0)

theorem JobOk.left_le {jobno loop I : Nat} {rest : List (List Cmd)}
    (h : JobOk cfg jobno loop I rest) (ht : cfg.trigger = 0) {g : Gvn} (hg : g ∈ counters) :
    left g rest ≤ 1 := by
  obtain ⟨-, -, ch, pre, hpre⟩ := h
  have h1 := iteration_count cfg jobno loop I ch ht hg
  rw [← flatten_steps, ← hpre, List.flatten_append, gvns_append, List.count_append] at h1
  exact h1 ▸ Nat.le_add_left _ _

theorem JobOk.counts {jobno loop I : Nat} {cs : List Cmd} {rest : List (List Cmd)}
    (h : JobOk cfg jobno loop I (cs :: rest)) (ht : cfg.trigger = 0) :
    ∀ c ∈ cs, Counts jobno loop c := by
  obtain ⟨ch, hm⟩ := h.mem
  exact fun c hc => iteration_counts cfg jobno loop I ch ht c (hm c hc)

theorem left_begin (jobno loop I : Nat) (ch : Chance) (ht : cfg.trigger = 0) {g : Gvn}
    (hg : g ∈ counters) : left g (steps (iteration cfg jobno loop I ch)) = 1 := by
  rw [left, flatten_steps]
  exact iteration_count cfg jobno loop I ch ht hg

/-- The parent's set-up only touches what it initializes. -/
theorem get_parentSetup {k : GNode} (hk : k.gvn ∉ [Gvn.endloop, .cntloop, .cntseq]) (d : Db) :
    (parentSetup d).get k = d.get k := by
  have hne {g : Gvn} (hg : g ∈ [Gvn.endloop, .cntloop, .cntseq]) : k ≠ topNode g := fun h =>
    hk (h ▸ hg)
  have hset (d : Db) (g : Gvn) (hg : g ∈ [Gvn.endloop, .cntloop, .cntseq]) (v : Val) :
      (d.set (topNode g) v).get k = d.get k := Table.get_set_of_ne d v (hne hg)
  simp only [parentSetup]
  split
  · split
    · exact hset _ _ (by decide) _
    · rw [hset _ _ (by decide), hset _ _ (by decide)]
  · split
    · rw [hset _ _ (by decide), hset _ _ (by decide)]
    · rw [hset _ _ (by decide), hset _ _ (by decide), hset _ _ (by decide)]

theorem lastiOf_congr {d d' : Db} {j : Nat}
    (h : d'.get (numNode .lasti j) = d.get (numNode .lasti j)) : lastiOf d' j = lastiOf d j := by
  rw [lastiOf, lastiOf, value_congr h]

theorem lastiOf_parentSetup (d : Db) (j : Nat) : lastiOf (parentSetup d) j = lastiOf d j :=
  lastiOf_congr (get_parentSetup (k := ⟨.lasti, [.num j]⟩)
    (show Gvn.lasti ∉ [Gvn.endloop, .cntloop, .cntseq] by decide) d)

theorem lastiOf_endtp (d : Db) (v : Val) (j : Nat) :
    lastiOf (d.set (topNode .endloop) v) j = lastiOf d j :=
  lastiOf_congr (Table.get_set_of_ne d v (by simp [numNode, topNode]))

/-- **`^lasti` of a running job** is its loop number, once set in this iteration. -/
def LastiOk (s : Sys) : Prop :=
  ∀ jobno loop I rest, s.jobs jobno = .running loop I rest →
    lastiOf s.db jobno + left .lasti rest = loop

include ht

/-- What `LastiOk` says is kept by every step. -/
theorem lastiOk_step (hj : JobsOk cfg s) (h : LastiOk s) (hs : StepTo cfg preset s e s') :
    LastiOk s' := by
  have hput {jobno : Nat} {js : JobState} {d : Db}
      (hd : ∀ j, j ≠ jobno → lastiOf d j = lastiOf s.db j)
      (hjs : ∀ loop I rest, js = .running loop I rest →
        lastiOf d jobno + left .lasti rest = loop) :
      LastiOk ⟨d, Function.update s.jobs jobno js⟩ := by
    intro j loop I rest he
    by_cases hne : j = jobno
    · subst hne
      exact hjs loop I rest ((Function.update_self j js s.jobs).symm.trans he)
    · have he : Function.update s.jobs jobno js j = .running loop I rest := he
      rw [Function.update_of_ne hne] at he
      show lastiOf d j + _ = _
      rw [hd j hne]
      exact h j loop I rest he
  cases hs with
  | parent =>
      intro j loop I rest he
      show lastiOf (parentSetup s.db) j + _ = _
      rw [lastiOf_parentSetup]
      exact h j loop I rest he
  | endtp =>
      intro j loop I rest he
      show lastiOf (s.db.set _ _) j + _ = _
      rw [lastiOf_endtp]
      exact h j loop I rest he
  | launch hr hidle htop =>
      refine hput (fun _ _ => rfl) fun loop I rest he => ?_
      obtain ⟨rfl, rfl, rfl⟩ := JobState.running.inj he
      rw [left_begin _ _ _ _ ht (by decide)]
  | @exec jobno loop I cs rest hrun =>
      have hok := hj _ _ _ _ hrun
      have hc := hok.counts ht
      refine hput (fun j hne => lasti_other hc hne _) fun loop I rest he => ?_
      obtain ⟨rfl, rfl, rfl⟩ := JobState.running.inj he
      have hl := h _ _ _ _ hrun
      have hle := hok.left_le ht (g := .lasti) (by decide)
      rw [left_cons] at hl hle
      by_cases h0 : (gvns cs).count .lasti = 0
      · rw [lasti_same h0]
        rw [h0, Nat.zero_add] at hl
        exact hl
      · rw [lasti_set hc h0]
        omega
  | stop hrun => exact hput (fun _ _ => rfl) fun loop I rest he => by cases he
  | next hrun hend htop =>
      refine hput (fun _ _ => rfl) fun loop I rest he => ?_
      obtain ⟨rfl, rfl, rfl⟩ := JobState.running.inj he
      have hl := h _ _ _ _ hrun
      have hnil : left .lasti [] = 0 := rfl
      rw [left_begin _ _ _ _ ht (by decide)]
      rw [hnil] at hl
      omega
  | crash hrun => exact hput (fun _ _ => rfl) fun loop I rest he => by cases he

theorem lasti_of_reach {P : Sys → Event → Prop} (hP : ∀ s e, P s e → InCycle cfg preset s e)
    (h : Reach cfg preset P s) : LastiOk s := by
  induction h with
  | start => exact fun _ _ _ _ h => by cases h
  | step hr hp hs ih => exact lastiOk_step ht (jobsOk_of_reach hP hr) ih (stepTo_of_step hs)

omit ht in
theorem exponent_mono {jobcnt j n m : Nat} (h : n ≤ m) :
    exponent jobcnt j n ≤ exponent jobcnt j m :=
  Nat.add_le_add_left (Nat.mul_le_mul_left _ (Nat.sub_le_sub_right h 1)) _

/-- The loop numbers up to a job's `^lasti` are in range. -/
def LastiInRange (cfg : Config) (s : Sys) : Prop :=
  ∀ jobno loop, (1 ≤ jobno ∧ jobno ≤ cfg.jobcnt) → 1 ≤ loop → loop ≤ lastiOf s.db jobno →
    InRange cfg jobno loop

theorem lastiInRange_of_reach {P : Sys → Event → Prop}
    (hP : ∀ s e, P s e → InCycle cfg preset s e) (h : Reach cfg preset P s) :
    LastiInRange cfg s := by
  induction h with
  | start =>
      intro j n _ hn hle
      have hzero : lastiOf Sys.start.db j = 0 := rfl
      omega
  | @step s s' e hr hp hs ih =>
      have hjobs := jobsOk_of_reach hP hr
      cases stepTo_of_step hs with
      | parent =>
          intro j n hj hn hle
          exact ih j n hj hn (by rwa [lastiOf_parentSetup] at hle)
      | endtp =>
          intro j n hj hn hle
          exact ih j n hj hn (by rwa [lastiOf_endtp] at hle)
      | launch _ _ _ => exact ih
      | @exec jobno loop I cs rest hrun =>
          intro j n hj hn hle
          have hok := hjobs _ _ _ _ hrun
          have hle : n ≤ lastiOf (run Cmd.exec cs s.db) j := hle
          by_cases hne : j = jobno
          · subst hne
            by_cases h0 : (gvns cs).count .lasti = 0
            · exact ih j n hj hn (by rwa [lasti_same h0] at hle)
            · rw [lasti_set (hok.counts ht) h0] at hle
              exact ⟨hj, hn, lt_of_le_of_lt (exponent_mono hle) hok.range.cycle⟩
          · exact ih j n hj hn (by rwa [lasti_other (hok.counts ht) hne] at hle)
      | stop _ => exact ih
      | next _ _ _ => exact ih
      | crash _ => exact ih

end Runs

/-! ## 4. `^cntloop` without crashes -/

theorem sum_range_update {f f' : Nat → Nat} {i δ : Nat} (hne : ∀ k, k ≠ i → f' k = f k)
    (hi : f' i = f i + δ) : ∀ n, i < n →
    ((List.range n).map f').sum = ((List.range n).map f).sum + δ
  | 0, h => absurd h (Nat.not_lt_zero i)
  | n + 1, h => by
      rw [List.range_succ, List.map_append, List.map_append, List.sum_append, List.sum_append]
      simp only [List.map_cons, List.map_nil, List.sum_cons, List.sum_nil, Nat.add_zero]
      by_cases hin : i = n
      · subst hin
        have hsame : (List.range i).map f' = (List.range i).map f :=
          List.map_congr_left fun k hk => hne k (Nat.ne_of_lt (List.mem_range.1 hk))
        rw [hsame, hi, Nat.add_assoc]
      · rw [sum_range_update hne hi n (by omega), hne n (Ne.symm hin)]
        omega

/-- The iterations of a job that have counted themselves in `^cntloop`. -/
def counted (s : Sys) (jobno : Nat) : Nat :=
  match s.jobs jobno with
  | .idle => lastiOf s.db jobno
  | .running loop _ rest => loop - left .cntloop rest

theorem counted_idle {s : Sys} {j : Nat} (h : s.jobs j = .idle) :
    counted s j = lastiOf s.db j := by
  rw [counted, h]

theorem counted_running {s : Sys} {j loop I : Nat} {rest : List (List Cmd)}
    (h : s.jobs j = .running loop I rest) : counted s j = loop - left .cntloop rest := by
  rw [counted, h]

/-- `^cntloop` is their number, over all jobs. -/
def CntloopOk (cfg : Config) (s : Sys) : Prop :=
  s.db.get (topNode .cntloop)
    = some (.num ((List.range cfg.jobcnt).map fun j => counted s (j + 1)).sum)

section Cntloop

variable {cfg : Config} {preset : Nat} {s s' : Sys} {e : Event} (ht : cfg.trigger = 0)

/-- The sum after one job has counted `δ` iterations. -/
theorem sum_counted (s s' : Sys) {jobno : Nat} (δ : Nat) (hr : 1 ≤ jobno ∧ jobno ≤ cfg.jobcnt)
    (hne : ∀ j, j ≠ jobno → counted s' j = counted s j)
    (hj : counted s' jobno = counted s jobno + δ) :
    ((List.range cfg.jobcnt).map fun j => counted s' (j + 1)).sum
      = ((List.range cfg.jobcnt).map fun j => counted s (j + 1)).sum + δ := by
  obtain ⟨i, rfl⟩ := Nat.exists_eq_add_of_le' hr.1
  exact sum_range_update (fun k hk => hne (k + 1) (by omega)) hj cfg.jobcnt (by omega)

theorem counted_congr {j : Nat} (hjob : s'.jobs j = s.jobs j)
    (hlasti : lastiOf s'.db j = lastiOf s.db j) : counted s' j = counted s j := by
  rw [counted, counted, hjob, hlasti]

theorem parentSetup_cntloop {d : Db} {v : Val} (h : d.get (topNode .cntloop) = some v) :
    (parentSetup d).get (topNode .cntloop) = some v := by
  have hset : (d.set (topNode .endloop) (.num 0)).get (topNode .cntloop) = some v := by
    rw [Table.get_set_of_ne _ _ (by decide), h]
  have hdata : DB.data (d.set (topNode .endloop) (.num 0)) (topNode .cntloop) = true :=
    (DB.data_eq_true_iff _ _).2 ⟨_, v, Node.covers_self _, hset⟩
  simp only [parentSetup, hdata, if_true]
  split
  · exact hset
  · rw [Table.get_set_of_ne _ _ (by decide), hset]

include ht

theorem cntloopOk_step (hj : JobsOk cfg s) (hl : LastiOk s) (h : CntloopOk cfg s)
    (hc : ∀ jobno, e ≠ .crash jobno) (hs : StepTo cfg preset s e s') : CntloopOk cfg s' := by
  -- a step that leaves the database alone and moves one job without counting
  have hput {jobno : Nat} {js : JobState} (hr : 1 ≤ jobno ∧ jobno ≤ cfg.jobcnt)
      (hjs : counted (s.put jobno js) jobno = counted s jobno) :
      CntloopOk cfg (s.put jobno js) := by
    have hsum := sum_counted s (s.put jobno js) 0 hr
      (fun j hne => counted_congr (Function.update_of_ne hne _ _) rfl) hjs
    rw [CntloopOk, hsum]
    exact h
  have hself {jobno : Nat} {js : JobState} : (s.put jobno js).jobs jobno = js :=
    Function.update_self _ _ _
  cases hs with
  | parent =>
      have hsame : ∀ j, counted { s with db := parentSetup s.db } j = counted s j := fun j =>
        counted_congr rfl (lastiOf_parentSetup _ _)
      rw [CntloopOk, funext fun j => hsame (j + 1)]
      exact parentSetup_cntloop h
  | endtp =>
      have hsame : ∀ j, counted { s with db := s.db.set (topNode .endloop) (.num 1) } j
          = counted s j := fun j => counted_congr rfl (lastiOf_endtp _ _ _)
      rw [CntloopOk, funext fun j => hsame (j + 1)]
      show (s.db.set _ _).get _ = _
      rw [Table.get_set_of_ne _ _ (by decide)]
      exact h
  | @launch jobno ch hr hidle htop =>
      refine hput hr ?_
      have hb := left_begin jobno (lastiOf s.db jobno + 1)
        (restartI cfg.jobcnt jobno (lastiOf s.db jobno)) ch ht (g := .cntloop) (by decide)
      rw [beginLoop, counted_running hself, counted_idle hidle, hb, Nat.add_sub_cancel]
  | @exec jobno loop I cs rest hrun =>
      have hok := hj _ _ _ _ hrun
      have hcs := hok.counts ht
      have hle := hok.left_le ht (g := .cntloop) (by decide)
      rw [left_cons] at hle
      have hpos := hok.range.loop_pos
      have hsum := sum_counted s
        ⟨run Cmd.exec cs s.db, Function.update s.jobs jobno (.running loop I rest)⟩
        ((gvns cs).count .cntloop) hok.range.job
        (fun j hne => counted_congr (Function.update_of_ne hne _ _) (lasti_other hcs hne _)) (by
          have hself' : (⟨run Cmd.exec cs s.db, Function.update s.jobs jobno
              (.running loop I rest)⟩ : Sys).jobs jobno = .running loop I rest :=
            Function.update_self _ _ _
          rw [counted_running hself', counted_running hrun, left_cons]
          omega)
      rw [CntloopOk, hsum]
      exact cntloop_add hcs h
  | @stop jobno ch loop I hrun =>
      refine hput (hj _ _ _ _ hrun).range.job ?_
      have hlast := hl _ _ _ _ hrun
      have hnil (g : Gvn) : left g [] = 0 := rfl
      rw [hnil] at hlast
      rw [counted_idle hself, counted_running hrun, hnil]
      exact hlast
  | @next jobno ch loop I hrun hend htop =>
      refine hput (hj _ _ _ _ hrun).range.job ?_
      have hb := left_begin jobno (loop + 1) (nextI cfg.jobcnt I) ch ht (g := .cntloop) (by decide)
      have hnil : left .cntloop [] = 0 := rfl
      rw [beginLoop, counted_running hself, counted_running hrun, hb, hnil, Nat.add_sub_cancel, Nat.sub_zero]
  | crash hrun => exact absurd rfl (hc _)

theorem cntloop_of_reach {P : Sys → Event → Prop} (hP : ∀ s e, P s e → InCycle cfg preset s e)
    (hc : ∀ s e, P s e → ∀ jobno, e ≠ .crash jobno) (h : Reach cfg preset P s) :
    CntloopOk cfg s := by
  induction h with
  | start =>
      have hzero : ∀ j, counted Sys.start (j + 1) = 0 := fun j => rfl
      rw [CntloopOk, funext hzero, List.map_const', List.sum_replicate]
      rfl
  | step hr hp hs ih =>
      exact cntloopOk_step ht (jobsOk_of_reach hP hr) (lasti_of_reach ht hP hr) ih (hc _ _ hp)
        (stepTo_of_step hs)

end Cntloop

end YottaTest.Imptp
