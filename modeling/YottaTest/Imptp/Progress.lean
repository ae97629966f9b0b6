/-
  File:      YottaTest/Imptp/Progress.lean
  Subject:   What the nodes of an iteration hold after each of its stages, without triggers.

  * `firstNodes`, `thirdNodes` -- what stages 1 and 3 set, for good;
  * `Row` -- the nodes of stage 4, the same in its nine globals: a row of values by `J`;
  * `Spans` -- the three spanning nodes of stages 7 and 10;
  * `stageN_…` -- what a stage does to these, from any database, and `stageN_gvns`, from which
    everything else is unchanged.
-/
import YottaTest.Imptp.Own

namespace YottaTest.Imptp

open YottaTest.Lib YottaTest.M

/-- The globals of stage 4. -/
def randoms : List Gvn := .arandom :: otherRandoms

/-- The globals stage 2 sets and stage 8 clears. -/
def ntps : List Gvn := [.antp, .bntp, .cntp, .dntp]

theorem randoms_not_ntps : ∀ g ∈ randoms, g ∉ ntps := by decide

section Nodes

variable (cfg : Config) (loop I : Nat)

/-- What stage 1 sets and no later stage changes. -/
def firstNodes : List (GNode × MStr) :=
  [(strNode .arandom (cfg.subsMAX I), cfg.val loop),
    (strNode .brandomv (cfg.subsMAX I), cfg.valALT loop),
    (strNode .crandomva (cfg.subsMAX I), cfg.valALT loop),
    (strNode .drandomvariable (cfg.subs I), cfg.valALT loop),
    (strNode .erandomvariableimptp (cfg.subs I), cfg.valALT loop),
    (strNode .frandomvariableinimptp (cfg.subs I), cfg.valALT loop),
    (strNode .grandomvariableinimptpfill (cfg.subs I), cfg.val loop),
    (strNode .hrandomvariableinimptpfilling (cfg.subs I), cfg.val loop),
    (strNode .irandomvariableinimptpfillprgrm (cfg.subs I), cfg.val loop),
    (⟨.jrandomvariableinimptpfillprogram, [.num I, .num I, .str (cfg.subs I)]⟩, cfg.val loop)]

/-- What stage 3 sets and no later stage changes. -/
def thirdNodes : List (GNode × MStr) :=
  [(strNode .entp (cfg.subs I), cfg.val loop), (strNode .fntp (cfg.subs I), cfg.val loop),
    (strNode .gntp (cfg.subsMAX I), cfg.valMAX loop),
    (strNode .hntp (cfg.subsMAX I), cfg.valMAX loop),
    (strNode .intp (cfg.subsMAX I), cfg.valMAX loop)]

/-- What stage 10 puts in the target piece. -/
def Config.subpiece : MStr := blanksToX (piece bar (cfg.valPIECE loop) (cfg.targetpiece loop))

/-- `valPIECE` with its target piece replaced. -/
def Config.newPIECE : MStr :=
  setPiece bar (cfg.valPIECE loop) (cfg.targetpiece loop) (cfg.subpiece loop)

/-- The nodes hold these texts. -/
def Holds (es : List (GNode × MStr)) (d : Db) : Prop := ∀ e ∈ es, d.get e.1 = some (.str e.2)

/-- The nine globals hold, below `subs`, the values `r` by their second subscript. -/
def Row (r : Nat → Option MStr) (d : Db) : Prop :=
  ∀ g ∈ randoms, ∀ J, d.get (strNumNode g (cfg.subs I) J) = (r J).map .str

/-- The three spanning nodes. -/
structure Spans (a e b : Option MStr) (d : Db) : Prop where
  aspan : d.get (numNode .aspan I) = a.map .str
  espan : d.get (numNode .espan I) = e.map .str
  bspan : d.get (numNode .bspan I) = b.map .str

end Nodes

/-! ## 1. Reading off a list of commands -/

section Reading

variable {cs : List Cmd} {k : GNode}

/-- No command of the list changes the node. -/
def Untouched (k : GNode) (cs : List Cmd) : Prop := ∀ c ∈ cs, ¬ c.writes k

theorem Untouched.get (h : Untouched k cs) (d : Db) : (run Cmd.exec cs d).get k = d.get k :=
  run_frame cmd_footprint h d

/-- The globals a list of commands changes. -/
def gvns (cs : List Cmd) : List Gvn := cs.filterMap fun c => c.target.map (·.gvn)

theorem gvns_subset {cs' : List Cmd} (h : ∀ c ∈ cs, c ∈ cs') : ∀ g ∈ gvns cs, g ∈ gvns cs' := by
  intro g hg
  obtain ⟨c, hc, hgc⟩ := List.mem_filterMap.1 hg
  exact List.mem_filterMap.2 ⟨c, h c hc, hgc⟩

theorem untouched_of_gvn (h : k.gvn ∉ gvns cs) : Untouched k cs := by
  intro c hc hw
  obtain ⟨n, hn, hcov⟩ := covers_of_writes hw
  refine h (List.mem_filterMap.2 ⟨c, hc, ?_⟩)
  rw [hn, Option.map_some, (Node.covers_iff.1 hcov).1]

/-- If every command that changes a node sets the same there, and one does, it holds that. -/
theorem get_of_set {v : Val} (h : ∀ c ∈ cs, c.writes k → c = .set k (.lit v))
    (hmem : .set k (.lit v) ∈ cs) (d : Db) : (run Cmd.exec cs d).get k = some v := by
  refine run_const cmd_footprint (fun c hc hw d => ?_) ⟨_, hmem, rfl⟩ d
  rw [h c hc hw]
  exact Table.get_set_self d k v

/-- If every command that changes a node removes it, and one does, it is undefined. -/
theorem get_of_kill (h : ∀ c ∈ cs, c.writes k → (∃ n, c = .kill n) ∨ c = .zkill k)
    (hmem : ∃ c ∈ cs, c.writes k) (d : Db) : (run Cmd.exec cs d).get k = none := by
  refine run_const cmd_footprint (fun c hc hw d => ?_) hmem d
  rcases h c hc hw with ⟨n, rfl⟩ | rfl
  · exact (DB.get_kill d n k).trans (if_pos hw)
  · exact (DB.get_zkill d k k).trans (if_pos rfl)

/-- The node a command gives a value. -/
def sets : Cmd → Option GNode
  | .set n _ | .setPiece n _ _ | .incr n _ => some n
  | .kill _ | .zkill _ | .ztwormhole _ | .ztrigger _ | .dztrig _ | .ztriggerItem _ => none

/-- A node no command gives a value stays undefined. -/
theorem get_eq_none : ∀ {cs : List Cmd}, (∀ c ∈ cs, sets c ≠ some k) →
    ∀ {d : Db}, d.get k = none → (run Cmd.exec cs d).get k = none
  | [], _, _, hd => hd
  | c :: cs, h, d, hd => by
      have hc : (c.exec d).get k = none := by
        by_cases hw : c.writes k
        · cases c with
          | kill n => exact (DB.get_kill d n k).trans (if_pos hw)
          | zkill n => exact (DB.get_zkill d n k).trans (if_pos (Option.some.inj hw).symm)
          | set _ _ => exact absurd hw (h _ List.mem_cons_self)
          | setPiece _ _ _ => exact absurd hw (h _ List.mem_cons_self)
          | incr _ _ => exact absurd hw (h _ List.mem_cons_self)
          | ztwormhole _ => cases hw
          | ztrigger _ => cases hw
          | dztrig _ => cases hw
          | ztriggerItem _ => cases hw
        · rw [(cmd_footprint c).frame d k hw]
          exact hd
      exact get_eq_none (fun b hb => h b (List.mem_cons_of_mem _ hb)) hc

theorem holds_frame {es : List (GNode × MStr)} {d : Db} (h : Holds es d)
    (hcs : ∀ e ∈ es, Untouched e.1 cs) : Holds es (run Cmd.exec cs d) := by
  intro e he
  rw [(hcs e he).get]
  exact h e he

end Reading

/-! ## 2. Stage by stage -/

theorem noop_gvn {jobno loop : Nat} {ch : Chance} {c : Cmd} (hc : c ∈ noop jobno loop ch) :
    ∃ t v, c = .set ⟨.dummynoop, t⟩ (.lit v) := by
  rcases List.mem_cons.1 hc with rfl | hc
  · exact ⟨_, _, rfl⟩
  · exact ⟨_, _, List.mem_singleton.1 hc⟩

section Stages

variable (cfg : Config) (jobno loop I : Nat) (ch : Chance) (ht : cfg.trigger = 0)
include ht

/-- **Stage 1** sets its nodes. -/
theorem stage1_first (d : Db) :
    Holds (firstNodes cfg loop I) (run Cmd.exec (stage1 cfg jobno loop I ch) d) := by
  simp only [Holds, firstNodes, List.forall_mem_cons, List.not_mem_nil, IsEmpty.forall_iff,
    implies_true, and_true]
  refine ⟨?_, ?_, ?_, ?_, ?_, ?_, ?_, ?_, ?_, ?_⟩
  all_goals
    refine get_of_set ?_ ?_ d
    · simp only [stage1, Config.noTrigger, List.forall_mem_append, List.forall_mem_cons,
        forall_mem_ite, List.not_mem_nil, IsEmpty.forall_iff, implies_true, and_true, ht]
      simp [setStr, setNum, Cmd.writes, Cmd.target, strNode, numNode, numNumNode, noop]
    · simp [stage1, Config.noTrigger, ht, setStr, strNode]

/-- What stage 1 gives a value, beside the row. -/
theorem stage1_sets : ∀ c ∈ stage1 cfg jobno loop I ch, ∀ n ∈ sets c,
    (n.gvn ∈ randoms ∧ n.subs.length = 1) ∨
      n.gvn ∈ [Gvn.jrandomvariableinimptpfillprogram, .lasti, .zdummy, .dummynoop] := by
  simp only [stage1, Config.noTrigger, List.forall_mem_append, List.forall_mem_cons,
    forall_mem_ite, List.not_mem_nil, IsEmpty.forall_iff, implies_true, and_true, ht]
  simp [sets, setStr, setNum, strNode, numNode, numNumNode, noop, randoms, otherRandoms]

theorem stage2_gvns : gvns (stage2 cfg loop I ch) = ntps := by
  simp [gvns, ntps, stage2, ht, setStr, strNode, Cmd.target]

theorem stage3_gvns : gvns (stage3 cfg loop I) = [.entp, .fntp, .gntp, .hntp, .intp, .bntp] := by
  simp [gvns, stage3, ht, Config.doDztrig, Config.dztrig, Config.noTrigger, setStr, strNode,
    Cmd.target]

/-- **Stage 3** sets its nodes. -/
theorem stage3_third (d : Db) :
    Holds (thirdNodes cfg loop I) (run Cmd.exec (stage3 cfg loop I) d) := by
  simp only [Holds, thirdNodes, List.forall_mem_cons, List.not_mem_nil, IsEmpty.forall_iff,
    implies_true, and_true]
  refine ⟨?_, ?_, ?_, ?_, ?_⟩
  all_goals
    refine get_of_set ?_ ?_ d
    · simp [stage3, ht, Config.doDztrig, Config.dztrig, Config.noTrigger, setStr, strNode,
        Cmd.writes, Cmd.target]
    · simp [stage3, ht, Config.noTrigger, setStr, strNode]

theorem stage4_eq (J : Nat) : stage4 cfg loop I J =
    randoms.map fun g => setStr (strNumNode g (cfg.subs I) J) (cfg.valj loop J) := by
  simp [stage4, randoms, ht, Config.doDztrig, Config.dztrig, Config.noTrigger]

theorem stage4_gvns (J : Nat) : gvns (stage4 cfg loop I J) = randoms := by
  rw [stage4_eq cfg loop I ht]
  rfl

/-- **Stage 4** for one `J` fills the row's place. -/
theorem stage4_row (J : Nat) {r : Nat → Option MStr} {d : Db} (h : Row cfg I r d) :
    Row cfg I (Function.update r J (some (cfg.valj loop J)))
      (run Cmd.exec (stage4 cfg loop I J) d) := by
  rw [stage4_eq cfg loop I ht]
  intro g hg J'
  by_cases hJ : J' = J
  · subst hJ
    rw [Function.update_self]
    refine get_of_set (fun c hc hw => ?_) (List.mem_map.2 ⟨g, hg, rfl⟩) d
    obtain ⟨g', -, rfl⟩ := List.mem_map.1 hc
    have hn : strNumNode g' (cfg.subs I) J' = strNumNode g (cfg.subs I) J' := Option.some.inj hw
    rw [setStr, hn]
  · rw [Function.update_of_ne hJ, ← h g hg J']
    refine Untouched.get (fun c hc hw => hJ ?_) d
    obtain ⟨g', -, rfl⟩ := List.mem_map.1 hc
    have hn : strNumNode g' (cfg.subs I) J = strNumNode g (cfg.subs I) J' := Option.some.inj hw
    simp only [strNumNode, Node.mk.injEq, List.cons.injEq, Sub.num.injEq, and_true] at hn
    exact hn.2.2.symm

theorem stage4_first (J : Nat) : ∀ e ∈ firstNodes cfg loop I,
    Untouched e.1 (stage4 cfg loop I J) := by
  intro e he c hc hw
  rw [stage4_eq cfg loop I ht] at hc
  obtain ⟨g, -, rfl⟩ := List.mem_map.1 hc
  have hlen : e.1.subs.length = 2 := by
    rw [← Option.some.inj hw]
    rfl
  revert e
  simp [firstNodes, strNode]

theorem mem_stage5 {c : Cmd} (hc : c ∈ stage5 cfg jobno loop I ch) :
    c ∈ noop jobno loop ch ∨ ∃ g ∈ randoms, c = .kill (strNumNode g (cfg.subs I) 1) := by
  have h0 : cfg.doDztrig 1 = [] ∧ cfg.doDztrig 2 = [] := by
    simp [Config.doDztrig, Config.dztrig, ht]
  simp only [stage5, Config.noTrigger, ht, h0, if_true, List.append_nil, List.nil_append,
    List.mem_append, List.mem_singleton, List.mem_map] at hc
  rcases hc with (hc | rfl) | ⟨g, hg, rfl⟩
  · split at hc
    · split at hc
      · exact Or.inl hc
      · cases hc
    · cases hc
  · exact Or.inr ⟨.arandom, List.mem_cons_self, rfl⟩
  · exact Or.inr ⟨g, List.mem_cons_of_mem _ hg, rfl⟩

theorem kill_mem_stage5 {g : Gvn} (hg : g ∈ randoms) :
    .kill (strNumNode g (cfg.subs I) 1) ∈ stage5 cfg jobno loop I ch := by
  simp only [stage5, Config.noTrigger, ht, if_true, List.mem_append, List.mem_singleton,
    List.mem_map]
  rcases List.mem_cons.1 hg with rfl | hg
  · exact Or.inl (Or.inl (Or.inl (Or.inr rfl)))
  · exact Or.inl (Or.inl (Or.inr ⟨g, hg, rfl⟩))

/-- A command of stage 5 leaves alone what is not below a row's first place. -/
theorem stage5_untouched {k : GNode} (hd : k.gvn ≠ .dummynoop)
    (hk : ∀ g ∈ randoms, (strNumNode g (cfg.subs I) 1).covers k = false) :
    Untouched k (stage5 cfg jobno loop I ch) := by
  intro c hc hw
  rcases mem_stage5 cfg jobno loop I ch ht hc with hc | ⟨g, hg, rfl⟩
  · obtain ⟨t, v, rfl⟩ := noop_gvn hc
    exact hd (by rw [← Option.some.inj hw])
  · have hw : (strNumNode g (cfg.subs I) 1).covers k = true := hw
    rw [hk g hg] at hw
    cases hw

/-- **Stage 5** empties the row's first place. -/
theorem stage5_row {r : Nat → Option MStr} {d : Db} (h : Row cfg I r d) :
    Row cfg I (Function.update r 1 none) (run Cmd.exec (stage5 cfg jobno loop I ch) d) := by
  intro g hg J
  by_cases hJ : J = 1
  · subst hJ
    rw [Function.update_self]
    refine get_of_kill (fun c hc hw => ?_)
      ⟨_, kill_mem_stage5 cfg jobno loop I ch ht hg, Node.covers_self _⟩ d
    rcases mem_stage5 cfg jobno loop I ch ht hc with hc | ⟨g', -, rfl⟩
    · obtain ⟨t, v, rfl⟩ := noop_gvn hc
      have hg' : Gvn.dummynoop = g := congrArg Node.gvn (Option.some.inj hw)
      subst hg'
      exact absurd hg (by decide)
    · exact Or.inl ⟨_, rfl⟩
  · rw [Function.update_of_ne hJ, ← h g hg J]
    refine Untouched.get (stage5_untouched cfg jobno loop I ch ht ?_ ?_) d
    · intro hg'
      have hg' : g = .dummynoop := hg'
      subst hg'
      exact absurd hg (by decide)
    · intro g' _
      rw [← Bool.not_eq_true, Node.covers_iff]
      simp [strNumNode, Ne.symm hJ]

theorem stage5_first : ∀ e ∈ firstNodes cfg loop I,
    Untouched e.1 (stage5 cfg jobno loop I ch) := by
  intro e he
  refine stage5_untouched cfg jobno loop I ch ht ?_ fun g _ => ?_
  · revert e
    simp [firstNodes, strNode]
  · rw [← Bool.not_eq_true, Node.covers_iff]
    revert e
    simp [firstNodes, strNode, strNumNode]

theorem stage5_gvns : ∀ g ∈ gvns (stage5 cfg jobno loop I ch), g = .dummynoop ∨ g ∈ randoms := by
  intro g hg
  obtain ⟨c, hc, hg⟩ := List.mem_filterMap.1 hg
  rcases mem_stage5 cfg jobno loop I ch ht hc with hc | ⟨g', hg', rfl⟩
  · obtain ⟨t, v, rfl⟩ := noop_gvn hc
    exact Or.inl (Option.some.inj hg).symm
  · exact Or.inr (Option.some.inj hg ▸ hg')

theorem stage6_eq : stage6 cfg I = [.zkill (numNode .jrandomvariableinimptpfillprogram I),
    .zkill (numNumNode .jrandomvariableinimptpfillprogram I I)] := by
  simp [stage6, ht, Config.noTrigger]

theorem stage6_gvns : ∀ g ∈ gvns (stage6 cfg I), g = .jrandomvariableinimptpfillprogram := by
  rw [stage6_eq cfg I ht]
  simp [gvns, Cmd.target, numNode, numNumNode]

/-- **Stage 6** removes two of the three nodes of `^jrandomvariableinimptpfillprogram`. -/
theorem stage6_none {k : GNode} (hk : k = numNode .jrandomvariableinimptpfillprogram I ∨
    k = numNumNode .jrandomvariableinimptpfillprogram I I) (d : Db) :
    (run Cmd.exec (stage6 cfg I) d).get k = none := by
  rw [stage6_eq cfg I ht]
  refine get_of_kill (fun c hc hw => Or.inr ?_) ?_ d
  · rcases List.mem_cons.1 hc with rfl | hc
    · rw [← Option.some.inj hw]
    · obtain rfl := List.mem_singleton.1 hc
      rw [← Option.some.inj hw]
  · rcases hk with rfl | rfl
    · exact ⟨_, List.mem_cons_self, rfl⟩
    · exact ⟨_, List.mem_cons_of_mem _ List.mem_cons_self, rfl⟩

theorem stage6_first : ∀ e ∈ firstNodes cfg loop I, Untouched e.1 (stage6 cfg I) := by
  rw [stage6_eq cfg I ht]
  simp [firstNodes, Untouched, Cmd.writes, Cmd.target, strNode, numNode, numNumNode]

theorem stage7_gvns : gvns (stage7 cfg loop I) = [.aspan, .espan, .bspan] := by
  simp [gvns, stage7, ht, Config.noTrigger, setStr, numNode, Cmd.target]

/-- **Stage 7** sets the three spanning nodes. -/
theorem stage7_spans (d : Db) : Spans I (some (cfg.valPIECE loop)) (some (cfg.valPIECE loop))
    (some (dropBlanks (cfg.valPIECE loop))) (run Cmd.exec (stage7 cfg loop I) d) := by
  constructor
  all_goals
    simp [stage7, ht, Config.noTrigger, setStr, numNode, Cmd.exec, Expr.eval, DB.value,
      Table.get_set, Val.toStr]

theorem stage8_gvns : ∀ g ∈ gvns (stage8 cfg I ch),
    g ∈ [.arandom, .antp, .bntp, .brandomv, .cntp, .dntp, .dummy] := by
  by_cases h1 : cfg.istp = 1
  · simp [gvns, stage8, ht, h1, Config.noTrigger, setStr, strNode, strNumNode, topNode, Cmd.target]
  · simp [gvns, stage8, ht, h1, Config.noTrigger, strNode, strNumNode, Cmd.target]

/-- Stage 8 gives no node a value but `^dummy`. -/
theorem stage8_sets : ∀ c ∈ stage8 cfg I ch, sets c ≠ none → sets c = some (topNode .dummy) := by
  simp only [stage8, Config.noTrigger, ht, if_true, List.forall_mem_append, List.forall_mem_cons,
    forall_mem_ite, List.not_mem_nil, IsEmpty.forall_iff, implies_true, and_true]
  simp [sets, setStr]

/-- A place of a row other than the first, and a node without second subscript, is not touched. -/
theorem stage8_untouched {k : GNode} (hg : k.gvn ∈ randoms ∨
      k.gvn = .jrandomvariableinimptpfillprogram)
    (hk : ∀ g, ¬ (strNumNode g (cfg.subs I) 1).covers k) : Untouched k (stage8 cfg I ch) := by
  have hne : ∀ {g : Gvn} (t : List Sub), g ∉ randoms → g ≠ .jrandomvariableinimptpfillprogram →
      ¬ (Node.covers ⟨g, t⟩ k = true) := by
    intro g t h1 h2 hc
    have hgk : g = k.gvn := (Node.covers_iff.1 hc).1
    rcases hg with hg | hg
    · exact h1 (hgk ▸ hg)
    · exact h2 (hgk.trans hg)
  have hself : strNumNode .brandomv (cfg.subs I) 1 ≠ k := fun h =>
    hk .brandomv (h ▸ Node.covers_self _)
  have hz : ∀ {g : Gvn} (t : List Sub), g ∉ randoms → g ≠ .jrandomvariableinimptpfillprogram →
      (⟨g, t⟩ : GNode) ≠ k := fun t h1 h2 h => hne t h1 h2 (h ▸ Node.covers_self _)
  simp only [Untouched, stage8, Config.noTrigger, ht, if_true, List.forall_mem_append,
    List.forall_mem_cons, forall_mem_ite, List.not_mem_nil, IsEmpty.forall_iff, implies_true,
    and_true]
  refine ⟨⟨⟨⟨hk _, hne _ (by decide) (by decide)⟩, hne _ (by decide) (by decide), ?_, ?_, ?_⟩,
    hne _ (by decide) (by decide)⟩, fun _ => ?_⟩
  · exact fun h => hself (Option.some.inj h)
  · exact fun h => hz _ (by decide) (by decide) (Option.some.inj h)
  · exact fun h => hz _ (by decide) (by decide) (Option.some.inj h)
  · exact fun h => hz _ (by decide) (by decide) (Option.some.inj h)

/-- **Stage 8** leaves a row with an empty first place as it is, also when it is cut short. -/
theorem stage8_row {r : Nat → Option MStr} {d : Db} (h : Row cfg I r d) (h1 : r 1 = none)
    {cs : List Cmd} (hcs : ∀ c ∈ cs, c ∈ stage8 cfg I ch) : Row cfg I r (run Cmd.exec cs d) := by
  intro g hg J
  by_cases hJ : J = 1
  · subst hJ
    rw [h1]
    refine get_eq_none (fun c hc hs => ?_) (by rw [h g hg 1, h1]; rfl)
    have hd := stage8_sets cfg I ch ht c (hcs c hc) (by rw [hs]; exact Option.some_ne_none _)
    have hn : strNumNode g (cfg.subs I) 1 = topNode .dummy :=
      Option.some.inj (hs.symm.trans hd)
    cases hn
  · rw [← h g hg J]
    refine Untouched.get (fun c hc => ?_) d
    refine stage8_untouched cfg I ch ht (Or.inl hg) (fun g' hc => ?_) c (hcs c hc)
    rw [Node.covers_iff] at hc
    simp [strNumNode, Ne.symm hJ] at hc

theorem stage8_first : ∀ e ∈ firstNodes cfg loop I, Untouched e.1 (stage8 cfg I ch) := by
  intro e he
  refine stage8_untouched cfg I ch ht ?_ fun g hc => ?_
  · revert e
    simp [firstNodes, strNode, randoms, otherRandoms]
  · rw [Node.covers_iff] at hc
    revert e
    simp [firstNodes, strNode, strNumNode]

/-- … and removes what stage 2 set. -/
theorem stage8_ntp (d : Db) {g : Gvn} (hg : g ∈ ntps) :
    (run Cmd.exec (stage8 cfg I ch) d).get (strNode g (cfg.subs I)) = none := by
  refine get_of_kill ?_ ?_ d
  · simp only [stage8, Config.noTrigger, ht, if_true, List.forall_mem_append,
      List.forall_mem_cons, forall_mem_ite, List.not_mem_nil, IsEmpty.forall_iff, implies_true,
      and_true]
    simp only [ntps, List.mem_cons, List.not_mem_nil, or_false] at hg
    rcases hg with rfl | rfl | rfl | rfl <;>
      simp [setStr, Cmd.writes, Cmd.target, strNode, strNumNode, topNode]
  · simp only [ntps, List.mem_cons, List.not_mem_nil, or_false] at hg
    rcases hg with rfl | rfl | rfl | rfl
    · exact ⟨.kill _, by simp [stage8], Node.covers_self _⟩
    · exact ⟨.kill (strNode .bntp (cfg.subs I)), by simp [stage8, ht, Config.noTrigger],
        Node.covers_self _⟩
    · exact ⟨.zkill _, by simp [stage8, ht, Config.noTrigger], rfl⟩
    · exact ⟨.zkill _, by simp [stage8, ht, Config.noTrigger], rfl⟩

omit ht in
theorem stage9_gvns : gvns (stage9 cfg) = [.cntloop, .cntseq] := rfl

theorem stage10_gvns :
    gvns (stage10 cfg jobno loop I) = [.subpiece, .espan, .aspan, .espan, .bspan] := by
  simp [gvns, stage10, ht, Config.noTrigger, subpieceNode, numNumNode, numNode, Cmd.target]

/-- **Stage 10** replaces the target piece, in `^espan` of nothing: the node was just removed. -/
theorem stage10_spans {d : Db} (h : Spans I (some (cfg.valPIECE loop)) (some (cfg.valPIECE loop))
    (some (dropBlanks (cfg.valPIECE loop))) d) :
    Spans I (some (cfg.newPIECE loop))
      (if cfg.targetpiece loop = 0 then none
        else some (setPiece bar [] (cfg.targetpiece loop) (cfg.subpiece loop)))
      (some (dropBlanks (cfg.newPIECE loop)))
      (run Cmd.exec (stage10 cfg jobno loop I) d) := by
  have hb : dropBlanks (cfg.newPIECE loop)
      = setPiece bar (dropBlanks (cfg.valPIECE loop)) (cfg.targetpiece loop) (cfg.subpiece loop) :=
    filter_setPiece (by decide) (blanksToX_kept _) _ _
  have ha := h.aspan
  have hbs := h.bspan
  by_cases h0 : cfg.targetpiece loop = 0
  · have hnew : cfg.newPIECE loop = cfg.valPIECE loop := by
      rw [Config.newPIECE, h0]
      cases cfg.valPIECE loop <;> rfl
    rw [if_pos h0, hnew]
    constructor
    all_goals
      simp [stage10, ht, Config.noTrigger, numNode, numNumNode, subpieceNode, Cmd.exec, h0,
        Table.get_set, DB.get_zkill]
    · exact ha
    · exact hbs
  · rw [if_neg h0, hb]
    simp only [numNode] at ha hbs
    constructor
    all_goals
      simp [stage10, ht, Config.noTrigger, numNode, numNumNode, subpieceNode, Cmd.exec, h0,
        Table.get_set, DB.get_zkill, DB.value, Expr.eval, ha, hbs, Val.toStr, Config.subpiece,
        Config.newPIECE]

theorem stage11_eq : stage11 cfg jobno loop I =
    setNum (numNumNode .andxarr jobno loop) I ::
      (otherNdxarrs.map fun g => setNum (numNumNode g jobno loop) I)
      ++ (if cfg.istp = 0 then [setNum (numNode .lasti jobno) loop] else []) := by
  have hz : cfg.ztr = false := by simp [Config.ztr, ht]
  simp [stage11, ht, hz, Config.doDztrig, Config.dztrig, Config.noTrigger]

/-! ## 3. The whole iteration -/

/-- A node of a global that checkdb scans has few subscripts. -/
def Shallow (n : GNode) : Prop :=
  (n.gvn ∈ randoms ∨ n.gvn = .andxarr → n.subs.length ≤ 2) ∧
    (n.gvn ∈ ntps → n.subs.length ≤ 1)

omit ht in
theorem shallow_row {g : Gvn} (hg : g ∈ randoms) (s : MStr) (J : Nat) :
    Shallow (strNumNode g s J) :=
  ⟨fun _ => Nat.le_refl 2, fun h => absurd h (randoms_not_ntps g hg)⟩

omit ht in
theorem shallow_of_notMem {n : GNode} (h : n.gvn ∉ .andxarr :: randoms ∧ n.gvn ∉ ntps) :
    Shallow n :=
  ⟨fun hm => absurd (List.mem_cons.2 hm.symm) h.1, fun hm => absurd hm h.2⟩

/-- **No iteration sets a node deeper than the scans expect.** -/
theorem iteration_shallow :
    ∀ c ∈ cmds (iteration cfg jobno loop I ch), ∀ n ∈ sets c, Shallow n := by
  have h0 : ∀ k, cfg.doDztrig k = [] := fun k => by simp [Config.doDztrig, Config.dztrig, ht]
  have h1 : ∀ c ∈ stage1 cfg jobno loop I ch, ∀ n ∈ sets c, Shallow n := by
    intro c hc n hn
    have hother : ∀ g ∈ [Gvn.jrandomvariableinimptpfillprogram, .lasti, .zdummy, .dummynoop],
        g ∉ .andxarr :: randoms ∧ g ∉ ntps := by decide
    rcases stage1_sets cfg jobno loop I ch ht c hc n hn with ⟨hg, hlen⟩ | hg
    · exact ⟨fun _ => by omega, fun h => absurd h (randoms_not_ntps _ hg)⟩
    · exact shallow_of_notMem (hother _ hg)
  have h4 : ∀ c ∈ ((List.range cfg.jobcnt).map fun j =>
      (⟨cfg.istp, stage4 cfg loop I (j + 1)⟩ : Stage)).flatMap Stage.cmds,
      ∀ n ∈ sets c, Shallow n := by
    intro c hc n hn
    obtain ⟨st, hst, hc⟩ := List.mem_flatMap.1 hc
    obtain ⟨j, -, rfl⟩ := List.mem_map.1 hst
    have hc : c ∈ stage4 cfg loop I (j + 1) := hc
    rw [stage4_eq cfg loop I ht] at hc
    obtain ⟨g, hg, rfl⟩ := List.mem_map.1 hc
    exact Option.some.inj hn ▸ shallow_row hg _ _
  have h5 : ∀ c ∈ stage5 cfg jobno loop I ch, ∀ n ∈ sets c, Shallow n := by
    intro c hc n hn
    rcases mem_stage5 cfg jobno loop I ch ht hc with hc | ⟨g, -, rfl⟩
    · obtain ⟨t, v, rfl⟩ := noop_gvn hc
      have hd : Gvn.dummynoop ∉ .andxarr :: randoms ∧ Gvn.dummynoop ∉ ntps := by decide
      rw [← Option.some.inj hn]
      exact shallow_of_notMem hd
    · cases hn
  have h8 : ∀ c ∈ stage8 cfg I ch, ∀ n ∈ sets c, Shallow n := by
    intro c hc n hn
    have hs := stage8_sets cfg I ch ht c hc fun h => by
      rw [h] at hn
      cases hn
    rw [hs] at hn
    rw [← Option.some.inj hn]
    exact shallow_of_notMem (by decide)
  simp only [cmds, iteration, List.flatMap_append, List.flatMap_cons, List.flatMap_nil,
    List.append_nil, List.forall_mem_append, h0, stage6_eq cfg I ht,
    stage11_eq cfg jobno loop I ht, stage9]
  refine ⟨⟨⟨?_, h1, ?_, ?_⟩, h4⟩, h5, ?_, ?_, h8, ?_, ?_, ?_⟩
  · exact fun c hc => absurd hc List.not_mem_nil
  · simp [stage2, ht, sets, setStr, strNode, Shallow]
  · simp [stage3, ht, h0, Config.noTrigger, sets, setStr, strNode, Shallow]
  · simp [sets]
  · simp [stage7, ht, Config.noTrigger, sets, setStr, numNode, Shallow, randoms, otherRandoms,
      ntps]
  · simp [sets, Shallow, topNode, randoms, otherRandoms, ntps]
  · simp [stage10, ht, Config.noTrigger, sets, numNode, subpieceNode, numNumNode, Shallow, randoms,
      otherRandoms, ntps]
  · by_cases hi : cfg.istp = 0
    · simp [hi, otherNdxarrs, sets, setNum, numNode, numNumNode, Shallow, randoms, otherRandoms,
        ntps]
    · simp [hi, otherNdxarrs, sets, setNum, numNumNode, Shallow, randoms, otherRandoms, ntps]

end Stages

end YottaTest.Imptp
