/-
  File:      YottaTest/Imptp/Own.lean
  Subject:   Which nodes an iteration of imptp touches: its own, and a few that all share.

  * `Cmd.target`, `Cmd.sources`, `cmd_footprint` -- what a command reads and writes;
  * `Own` -- the nodes of one iteration: by its subscript, its index or its job and loop number;
  * `own_disjoint` -- two iterations with different indices have no node in common;
  * `iteration_within` -- an iteration only touches its own nodes and the shared ones;
  * `run_own_congr`, `run_other` -- what it does to its own depends on nothing else, and the rest stays.
-/
import YottaTest.Imptp.Worker
import YottaTest.Lib.Footprint

namespace YottaTest.Imptp

open YottaTest.Lib YottaTest.M

/-! ## 1. Footprints of commands -/

/-- The node an update names. -/
def Cmd.target : Cmd → Option GNode
  | .set n _ | .setPiece n _ _ | .kill n | .zkill n | .incr n _ => some n
  | .ztwormhole _ | .ztrigger _ | .dztrig _ | .ztriggerItem _ => none

/-- The node an expression reads. -/
def Expr.sources : Expr → List GNode
  | .lit _ => []
  | .get n | .noBlanks n | .dropSuffix n | .pieceX n _ => [n]

/-- The nodes an update reads. -/
def Cmd.sources : Cmd → List GNode
  | .set _ e => e.sources
  | .setPiece n _ source => [n, source]
  | .incr n _ => [n]
  | .kill _ | .zkill _ | .ztwormhole _ | .ztrigger _ | .dztrig _ | .ztriggerItem _ => []

def Cmd.reads (c : Cmd) (k : GNode) : Prop := k ∈ c.sources

/-- The nodes an update can change: its target, and below it for a `KILL`. -/
def Cmd.writes : Cmd → GNode → Prop
  | .kill n, k => n.covers k = true
  | c, k => c.target = some k

theorem covers_of_writes : ∀ {c : Cmd} {k : GNode}, c.writes k →
    ∃ n, c.target = some n ∧ n.covers k = true
  | .kill n, _, h => ⟨n, rfl, h⟩
  | .set _ _, k, h | .setPiece _ _ _, k, h | .zkill _, k, h | .incr _ _, k, h =>
      ⟨k, h, Node.covers_self k⟩
  | .ztwormhole _, _, h | .ztrigger _, _, h | .dztrig _, _, h | .ztriggerItem _, _, h => by cases h

theorem value_congr {d d' : Db} {n : GNode} (h : d.get n = d'.get n) : d.value n = d'.value n := by
  unfold DB.value
  rw [h]

theorem expr_congr {d d' : Db} : ∀ {e : Expr}, (∀ n ∈ e.sources, d.get n = d'.get n) →
    e.eval d = e.eval d'
  | .lit _, _ => rfl
  | .get n, h | .noBlanks n, h | .dropSuffix n, h | .pieceX n _, h => by
      have hn := value_congr (h n List.mem_cons_self)
      simp only [Expr.eval, hn]

/-- **A command changes what it writes, from what it reads.** -/
theorem cmd_footprint (c : Cmd) : Footprint c.exec c.reads c.writes := by
  constructor
  · intro d k hk
    cases c with
    | set n e => exact Table.get_set_of_ne d _ fun h => hk (congrArg some h.symm)
    | setPiece n p source =>
        have hne : k ≠ n := fun h => hk (congrArg some h.symm)
        simp only [Cmd.exec]
        split
        · rfl
        · exact Table.get_set_of_ne d _ hne
    | kill n =>
        simp only [Cmd.exec, DB.get_kill]
        exact if_neg hk
    | zkill n =>
        simp only [Cmd.exec, DB.get_zkill]
        exact if_neg fun h => hk (congrArg some h.symm)
    | incr n b => exact Table.get_set_of_ne d _ fun h => hk (congrArg some h.symm)
    | ztwormhole _ => rfl
    | ztrigger _ => rfl
    | dztrig _ => rfl
    | ztriggerItem _ => rfl
  · intro d d' h k hk
    cases c with
    | set n e =>
        obtain rfl : n = k := Option.some.inj hk
        simp only [Cmd.exec, Table.get_set_self, expr_congr (e := e) h]
    | setPiece n p source =>
        obtain rfl : n = k := Option.some.inj hk
        have hn := h n List.mem_cons_self
        have hs := value_congr (h source (List.mem_cons_of_mem _ List.mem_cons_self))
        simp only [Cmd.exec]
        split
        · exact hn
        · rw [Table.get_set_self, Table.get_set_self, value_congr hn, hs]
    | kill n => simp only [Cmd.exec, DB.get_kill, if_pos (show n.covers k = true from hk)]
    | zkill n =>
        obtain rfl : n = k := Option.some.inj hk
        simp only [Cmd.exec, DB.get_zkill, if_true]
    | incr n b =>
        obtain rfl : n = k := Option.some.inj hk
        have hn := value_congr (h n List.mem_cons_self)
        simp only [Cmd.exec, DB.incr, Table.get_set_self, hn]
    | ztwormhole _ => cases hk
    | ztrigger _ => cases hk
    | dztrig _ => cases hk
    | ztriggerItem _ => cases hk

/-! ## 2. The nodes of an iteration -/

/-- What the first subscripts of a global tell about the iteration a node belongs to. -/
inductive Kind where
  /-- The subscript `subs` or `subsMAX`. -/
  | subs
  /-- The index `I`. -/
  | index
  /-- The job and the loop number. -/
  | job
  /-- Nothing: the node is shared. -/
  | shared
  deriving DecidableEq, Repr

def Gvn.kind : Gvn → Kind
  | .arandom | .brandomv | .crandomva | .drandomvariable | .erandomvariableimptp
  | .frandomvariableinimptp | .grandomvariableinimptpfill | .hrandomvariableinimptpfilling
  | .irandomvariableinimptpfillprgrm
  | .antp | .bntp | .cntp | .dntp | .entp | .fntp | .gntp | .hntp | .intp => .subs
  | .jrandomvariableinimptpfillprogram | .aspan | .bspan | .espan => .index
  | .andxarr | .bndxarr | .cndxarr | .dndxarr | .endxarr | .fndxarr | .gndxarr | .hndxarr
  | .indxarr | .subpiece => .job
  | .lasti | .cntloop | .cntseq | .endloop | .dummy | .zdummy | .dummynoop => .shared

/-- The nodes of iteration `loop` of job `jobno`, which works with index `I`. -/
def Own (cfg : Config) (jobno loop I : Nat) (k : GNode) : Prop :=
  match k.gvn.kind, k.subs with
  | .subs, .str s :: _ => strip s = cfg.subs I
  | .index, .num m :: _ => m = I
  | .job, .num j :: .num n :: _ => j = jobno ∧ n = loop
  | _, _ => False

section Own

variable {cfg : Config} {jobno loop I : Nat}

/-- What is below an own node is own. -/
theorem own_covers {n k : GNode} (hn : Own cfg jobno loop I n) (hc : n.covers k = true) :
    Own cfg jobno loop I k := by
  obtain ⟨g, s⟩ := n
  obtain ⟨g', s'⟩ := k
  obtain ⟨hg, t, ht⟩ := Node.covers_iff.1 hc
  obtain rfl : g = g' := hg
  obtain rfl : s ++ t = s' := ht
  unfold Own at hn ⊢
  match hk : g.kind, s with
  | .subs, .str _ :: _ => simpa [hk] using hn
  | .index, .num _ :: _ => simpa [hk] using hn
  | .job, .num _ :: .num _ :: _ => simpa [hk] using hn
  | .subs, [] | .subs, .num _ :: _ | .index, [] | .index, .str _ :: _ | .job, []
  | .job, .str _ :: _ | .job, [.num _] | .job, .num _ :: .str _ :: _ | .shared, _ =>
      simp [hk] at hn

/-- **Two iterations with different indices share no own node.** -/
theorem own_disjoint {jobno' loop' I' : Nat} (hI : I ≠ 0) (hI' : I' ≠ 0)
    (hII : I = I' → jobno = jobno' ∧ loop = loop') {k : GNode}
    (h : Own cfg jobno loop I k) (h' : Own cfg jobno' loop' I' k) :
    jobno = jobno' ∧ loop = loop' := by
  obtain ⟨g, s⟩ := k
  unfold Own at h h'
  match hk : g.kind, s with
  | .subs, .str t :: _ =>
      simp only [hk] at h h'
      exact hII (subs_inj cfg hI hI' (h.symm.trans h'))
  | .index, .num m :: _ =>
      simp only [hk] at h h'
      exact hII (h.symm.trans h')
  | .job, .num j :: .num n :: _ =>
      simp only [hk] at h h'
      exact ⟨h.1.symm.trans h'.1, h.2.symm.trans h'.2⟩
  | .subs, [] | .subs, .num _ :: _ | .index, [] | .index, .str _ :: _ | .job, []
  | .job, .str _ :: _ | .job, [.num _] | .job, .num _ :: .str _ :: _ | .shared, _ =>
      simp [hk] at h

end Own

/-! ## 3. An iteration stays within its own nodes -/

/-- A command that changes a node other than the shared ones. -/
def Cmd.own (c : Cmd) : Bool :=
  match c.target with
  | some n => n.gvn.kind ≠ .shared
  | none => false

/-- A command that stays within the nodes of an iteration, or only changes shared ones. -/
def Cmd.Within (P : GNode → Prop) (c : Cmd) : Prop :=
  c.own = true → (∀ n ∈ c.target, P n) ∧ ∀ n ∈ c.sources, P n

section Within

variable {P : GNode → Prop}

theorem within_set {n : GNode} {e : Expr} (hn : P n) (he : ∀ m ∈ e.sources, P m) :
    (Cmd.set n e).Within P :=
  fun _ => ⟨fun _ hm => Option.some.inj hm ▸ hn, he⟩

theorem within_kill {n : GNode} (hn : P n) : (Cmd.kill n).Within P :=
  fun _ => ⟨fun _ hm => Option.some.inj hm ▸ hn, fun _ hm => absurd hm List.not_mem_nil⟩

theorem within_zkill {n : GNode} (hn : P n) : (Cmd.zkill n).Within P :=
  fun _ => ⟨fun _ hm => Option.some.inj hm ▸ hn, fun _ hm => absurd hm List.not_mem_nil⟩

theorem within_setPiece {n m : GNode} {k : Nat} (hn : P n) (hm : P m) :
    (Cmd.setPiece n k m).Within P := by
  refine fun _ => ⟨fun _ h => Option.some.inj h ▸ hn, fun x hx => ?_⟩
  rcases List.mem_cons.1 hx with rfl | hx
  · exact hn
  · exact List.mem_singleton.1 hx ▸ hm

/-- A command on shared nodes, or on none, is no one's. -/
theorem within_of_not_own {c : Cmd} (h : c.own = false) : c.Within P := fun ht => by
  rw [h] at ht
  cases ht

end Within

section Stages

theorem forall_mem_ite {Q : Cmd → Prop} {p : Prop} [Decidable p] {l l' : List Cmd} :
    (∀ c ∈ if p then l else l', Q c) ↔ (p → ∀ c ∈ l, Q c) ∧ (¬ p → ∀ c ∈ l', Q c) := by
  by_cases h : p
  · simp [h]
  · simp [h]

variable (cfg : Config) (jobno loop I : Nat) (ch : Chance)

/-- A note of `noop` is no one's. -/
theorem noop_within : ∀ c ∈ noop jobno loop ch, c.Within (Own cfg jobno loop I) := by
  simp only [noop, List.forall_mem_cons, List.not_mem_nil, IsEmpty.forall_iff, implies_true,
    and_true]
  exact ⟨within_of_not_own rfl, within_of_not_own rfl⟩

variable {cfg jobno loop I}

theorem within_setStr {n : GNode} {s : MStr} (hn : Own cfg jobno loop I n) :
    (setStr n s).Within (Own cfg jobno loop I) :=
  within_set hn fun _ hm => absurd hm List.not_mem_nil

theorem within_setNum {n : GNode} {k : Nat} (hn : Own cfg jobno loop I n) :
    (setNum n k).Within (Own cfg jobno loop I) :=
  within_set hn fun _ hm => absurd hm List.not_mem_nil

theorem own_subs (hI : I ≠ 0) {g : Gvn} (hg : g.kind = .subs) (t : List Sub) :
    Own cfg jobno loop I ⟨g, .str (cfg.subs I) :: t⟩ := by
  simpa [Own, hg] using strip_subs cfg hI

theorem own_subsMAX (hI : I ≠ 0) {g : Gvn} (hg : g.kind = .subs) (t : List Sub) :
    Own cfg jobno loop I ⟨g, .str (cfg.subsMAX I) :: t⟩ := by
  simpa [Own, hg] using strip_subsMAX cfg hI

theorem own_index {g : Gvn} (hg : g.kind = .index) (t : List Sub) :
    Own cfg jobno loop I ⟨g, .num I :: t⟩ := by
  simp [Own, hg]

theorem own_job {g : Gvn} (hg : g.kind = .job) (t : List Sub) :
    Own cfg jobno loop I ⟨g, .num jobno :: .num loop :: t⟩ := by
  simp [Own, hg]

theorem doDztrig_within (k : Nat) : ∀ c ∈ cfg.doDztrig k, c.Within (Own cfg jobno loop I) := by
  simp only [Config.doDztrig, forall_mem_ite, List.forall_mem_cons, List.not_mem_nil,
    IsEmpty.forall_iff, implies_true, and_true]
  exact fun _ => within_of_not_own rfl

variable (cfg jobno loop I)

theorem stage1_within (hI : I ≠ 0) :
    ∀ c ∈ stage1 cfg jobno loop I ch, c.Within (Own cfg jobno loop I) := by
  have hmax {g : Gvn} (hg : g.kind = .subs) (s : MStr) :
      (setStr (strNode g (cfg.subsMAX I)) s).Within (Own cfg jobno loop I) :=
    within_setStr (own_subsMAX hI hg [])
  have hsub {g : Gvn} (hg : g.kind = .subs) (s : MStr) :
      (setStr (strNode g (cfg.subs I)) s).Within (Own cfg jobno loop I) :=
    within_setStr (own_subs hI hg [])
  have hidx (t : List Sub) (s : MStr) :
      (setStr ⟨.jrandomvariableinimptpfillprogram, .num I :: t⟩ s).Within
        (Own cfg jobno loop I) := within_setStr (own_index rfl t)
  simp only [stage1, Config.noTrigger, List.forall_mem_append, List.forall_mem_cons,
    forall_mem_ite, List.not_mem_nil, IsEmpty.forall_iff, implies_true, and_true]
  refine ⟨⟨⟨⟨⟨⟨⟨⟨⟨⟨⟨hmax rfl _, fun _ => ⟨fun _ => noop_within cfg jobno loop I ch, fun _ => ?_⟩⟩,
    hmax rfl _⟩, fun _ => hmax rfl _⟩, hsub rfl _⟩, fun _ => ⟨hsub rfl _, hsub rfl _⟩⟩,
    hsub rfl _⟩, fun _ => ⟨hsub rfl _, hsub rfl _⟩⟩, fun _ => ?_⟩, hidx _ _⟩,
    fun _ => ⟨hidx _ _, hidx _ _⟩⟩, fun _ => ⟨fun _ => ?_, ?_⟩⟩
  all_goals exact within_of_not_own rfl

theorem stage2_within (hI : I ≠ 0) :
    ∀ c ∈ stage2 cfg loop I ch, c.Within (Own cfg jobno loop I) := by
  have hsub {g : Gvn} (hg : g.kind = .subs) (s : MStr) :
      (setStr (strNode g (cfg.subs I)) s).Within (Own cfg jobno loop I) :=
    within_setStr (own_subs hI hg [])
  simp only [stage2, List.forall_mem_append, List.forall_mem_cons, forall_mem_ite,
    List.not_mem_nil, IsEmpty.forall_iff, implies_true, and_true]
  exact ⟨⟨fun _ => within_of_not_own rfl, hsub rfl _⟩,
    fun _ => ⟨hsub rfl _, hsub rfl _, hsub rfl _⟩, fun _ => hsub rfl _⟩

theorem stage3_within (hI : I ≠ 0) :
    ∀ c ∈ stage3 cfg loop I, c.Within (Own cfg jobno loop I) := by
  have hmax {g : Gvn} (hg : g.kind = .subs) (s : MStr) :
      (setStr (strNode g (cfg.subsMAX I)) s).Within (Own cfg jobno loop I) :=
    within_setStr (own_subsMAX hI hg [])
  have hsub {g : Gvn} (hg : g.kind = .subs) (s : MStr) :
      (setStr (strNode g (cfg.subs I)) s).Within (Own cfg jobno loop I) :=
    within_setStr (own_subs hI hg [])
  have hdrop : (Cmd.set (strNode .fntp (cfg.subs I))
      (.dropSuffix (strNode .fntp (cfg.subs I)))).Within (Own cfg jobno loop I) :=
    within_set (own_subs hI rfl []) fun _ hm => List.mem_singleton.1 hm ▸ own_subs hI rfl []
  simp only [stage3, Config.noTrigger, List.forall_mem_append, List.forall_mem_cons,
    forall_mem_ite, List.not_mem_nil, IsEmpty.forall_iff, implies_true, and_true]
  exact ⟨⟨⟨⟨⟨doDztrig_within 2, hsub rfl _⟩, fun _ => hsub rfl _⟩, fun _ => hdrop⟩,
    hmax rfl _⟩, fun _ => ⟨hmax rfl _, hmax rfl _, hmax rfl _⟩⟩

theorem otherRandoms_kind : ∀ g ∈ otherRandoms, g.kind = .subs := by decide

theorem otherNdxarrs_kind : ∀ g ∈ otherNdxarrs, g.kind = .job := by decide

theorem stage4_within (hI : I ≠ 0) (J : Nat) :
    ∀ c ∈ stage4 cfg loop I J, c.Within (Own cfg jobno loop I) := by
  have hset {g : Gvn} (hg : g.kind = .subs) : (setStr (strNumNode g (cfg.subs I) J)
      (cfg.valj loop J)).Within (Own cfg jobno loop I) := within_setStr (own_subs hI hg _)
  simp only [stage4, Config.noTrigger, List.forall_mem_append, List.forall_mem_cons,
    forall_mem_ite, List.forall_mem_map, List.not_mem_nil, IsEmpty.forall_iff, implies_true,
    and_true]
  exact ⟨⟨hset rfl, fun _ g hg => hset (otherRandoms_kind g hg)⟩, doDztrig_within 1⟩

theorem stage5_within (hI : I ≠ 0) :
    ∀ c ∈ stage5 cfg jobno loop I ch, c.Within (Own cfg jobno loop I) := by
  have hkill {g : Gvn} (hg : g.kind = .subs) : (Cmd.kill (strNumNode g (cfg.subs I) 1)).Within
      (Own cfg jobno loop I) := within_kill (own_subs hI hg _)
  simp only [stage5, Config.noTrigger, List.forall_mem_append, List.forall_mem_cons,
    forall_mem_ite, List.forall_mem_map, List.not_mem_nil, IsEmpty.forall_iff, implies_true,
    and_true]
  exact ⟨⟨⟨⟨⟨doDztrig_within 2, fun _ _ => noop_within cfg jobno loop I ch⟩, hkill rfl⟩,
    fun _ g hg => hkill (otherRandoms_kind g hg)⟩, doDztrig_within 1⟩, doDztrig_within 2⟩

theorem stage6_within : ∀ c ∈ stage6 cfg I, c.Within (Own cfg jobno loop I) := by
  simp only [stage6, Config.noTrigger, List.forall_mem_append, List.forall_mem_cons,
    forall_mem_ite, List.not_mem_nil, IsEmpty.forall_iff, implies_true, and_true]
  exact ⟨within_zkill (own_index rfl []), fun _ => within_zkill (own_index rfl _)⟩

theorem stage7_within : ∀ c ∈ stage7 cfg loop I, c.Within (Own cfg jobno loop I) := by
  have hread : Own cfg jobno loop I (numNode .aspan I) := own_index rfl []
  simp only [stage7, Config.noTrigger, List.forall_mem_append, List.forall_mem_cons,
    forall_mem_ite, List.not_mem_nil, IsEmpty.forall_iff, implies_true, and_true]
  exact ⟨within_setStr hread, fun _ =>
    ⟨within_set (own_index rfl []) fun _ hm => List.mem_singleton.1 hm ▸ hread,
      within_set (own_index rfl []) fun _ hm => List.mem_singleton.1 hm ▸ hread⟩⟩

theorem stage8_within (hI : I ≠ 0) :
    ∀ c ∈ stage8 cfg I ch, c.Within (Own cfg jobno loop I) := by
  simp only [stage8, Config.noTrigger, List.forall_mem_append, List.forall_mem_cons,
    forall_mem_ite, List.not_mem_nil, IsEmpty.forall_iff, implies_true, and_true]
  exact ⟨⟨⟨⟨within_kill (own_subs hI rfl _), within_kill (own_subs hI rfl _)⟩,
    fun _ => ⟨within_kill (own_subs hI rfl _), within_zkill (own_subs hI rfl _),
      within_zkill (own_subs hI rfl _), within_zkill (own_subs hI rfl _)⟩⟩,
    within_kill (own_subsMAX hI rfl _)⟩, fun _ => within_of_not_own rfl⟩

theorem stage9_within : ∀ c ∈ stage9 cfg, c.Within (Own cfg jobno loop I) := by
  simp only [stage9, List.forall_mem_cons, List.not_mem_nil, IsEmpty.forall_iff, implies_true,
    and_true]
  exact ⟨within_of_not_own rfl, within_of_not_own rfl⟩

theorem stage10_within :
    ∀ c ∈ stage10 cfg jobno loop I, c.Within (Own cfg jobno loop I) := by
  have hspan {g : Gvn} (hg : g.kind = .index) : Own cfg jobno loop I (numNode g I) :=
    own_index hg []
  have hpiece : Own cfg jobno loop I (subpieceNode jobno loop) := own_job rfl []
  simp only [stage10, Config.noTrigger, List.forall_mem_append, List.forall_mem_cons,
    forall_mem_ite, List.not_mem_nil, IsEmpty.forall_iff, implies_true, and_true]
  exact ⟨⟨within_set hpiece fun _ hm => List.mem_singleton.1 hm ▸ hspan rfl,
    within_zkill (hspan rfl), within_setPiece (hspan rfl) hpiece⟩,
    fun _ => ⟨within_setPiece (hspan rfl) hpiece, within_setPiece (hspan rfl) hpiece⟩⟩

theorem stage11_within :
    ∀ c ∈ stage11 cfg jobno loop I, c.Within (Own cfg jobno loop I) := by
  have hset {g : Gvn} (hg : g.kind = .job) :
      (setNum (numNumNode g jobno loop) I).Within (Own cfg jobno loop I) :=
    within_setNum (own_job hg [])
  simp only [stage11, Config.noTrigger, List.forall_mem_append, List.forall_mem_cons,
    forall_mem_ite, List.forall_mem_map, List.not_mem_nil, IsEmpty.forall_iff, implies_true,
    and_true]
  refine ⟨⟨⟨⟨doDztrig_within 1, fun _ => ⟨?_, ?_, ?_⟩⟩, hset rfl⟩,
    fun _ g hg => hset (otherNdxarrs_kind g hg)⟩, fun _ => ⟨fun _ => ?_, ?_⟩⟩
  all_goals exact within_of_not_own rfl

/-- **An iteration stays within its own nodes and the shared ones.** -/
theorem iteration_within (hI : I ≠ 0) :
    ∀ c ∈ cmds (iteration cfg jobno loop I ch), c.Within (Own cfg jobno loop I) := by
  have hrows : ∀ c ∈ ((List.range cfg.jobcnt).map fun j =>
      (⟨cfg.istp, stage4 cfg loop I (j + 1)⟩ : Stage)).flatMap Stage.cmds,
      c.Within (Own cfg jobno loop I) := by
    intro c hc
    obtain ⟨st, hst, hc⟩ := List.mem_flatMap.1 hc
    obtain ⟨j, -, rfl⟩ := List.mem_map.1 hst
    exact stage4_within cfg jobno loop I hI (j + 1) c hc
  simp only [cmds, iteration, List.flatMap_append, List.flatMap_cons, List.flatMap_nil,
    List.append_nil, List.forall_mem_append]
  exact ⟨⟨⟨doDztrig_within 1, stage1_within cfg jobno loop I ch hI,
    stage2_within cfg jobno loop I ch hI, stage3_within cfg jobno loop I hI⟩, hrows⟩,
    stage5_within cfg jobno loop I ch hI, stage6_within cfg jobno loop I,
    stage7_within cfg jobno loop I, stage8_within cfg jobno loop I ch hI,
    stage9_within cfg jobno loop I, stage10_within cfg jobno loop I,
    stage11_within cfg jobno loop I⟩

end Stages

/-! ## 4. What steps of an iteration do to its own nodes, and to others' -/

section Runs

variable {cfg : Config} {jobno loop I : Nat}

/-- A shared node is no one's own. -/
theorem not_own_of_shared {k : GNode} (hk : k.gvn.kind = .shared) : ¬ Own cfg jobno loop I k := by
  intro h
  simp only [Own, hk] at h

theorem shared_of_writes {c : Cmd} (hc : c.own = false) {k : GNode} (hw : c.writes k) :
    k.gvn.kind = .shared := by
  obtain ⟨n, hn, hcov⟩ := covers_of_writes hw
  rw [Cmd.own, hn] at hc
  have hk := of_decide_eq_false hc
  rw [not_not] at hk
  rw [← (Node.covers_iff.1 hcov).1]
  exact hk

/-- A command within an iteration's own nodes writes those or shared ones. -/
theorem own_or_shared_of_writes {c : Cmd} (h : c.Within (Own cfg jobno loop I)) {k : GNode}
    (hw : c.writes k) : Own cfg jobno loop I k ∨ k.gvn.kind = .shared := by
  cases hc : c.own with
  | false => exact Or.inr (shared_of_writes hc hw)
  | true =>
      obtain ⟨n, hn, hcov⟩ := covers_of_writes hw
      exact Or.inl (own_covers ((h hc).1 n hn) hcov)

variable {cs : List Cmd} (hcs : ∀ c ∈ cs, c.Within (Own cfg jobno loop I))
include hcs

/-- To its own nodes an iteration does what its updates of own nodes do. -/
theorem run_own {d d' : Db} (h : Agree (Own cfg jobno loop I) d d') :
    Agree (Own cfg jobno loop I) (run Cmd.exec cs d) (run Cmd.exec (cs.filter Cmd.own) d') :=
  run_slice cmd_footprint
    (fun _ _ hc _ hw => not_own_of_shared (shared_of_writes hc hw))
    (fun c hc hown k hk => (hcs c hc hown).2 k hk) h

/-- **What it does to its own nodes depends on nothing else.** -/
theorem run_own_congr {d d' : Db} (h : Agree (Own cfg jobno loop I) d d') :
    Agree (Own cfg jobno loop I) (run Cmd.exec cs d) (run Cmd.exec cs d') :=
  (run_own hcs h).trans (run_own hcs (Agree.refl _ d')).symm

/-- **It leaves every node alone that is neither its own nor shared.** -/
theorem run_other {k : GNode} (hk : ¬ Own cfg jobno loop I k) (hsh : k.gvn.kind ≠ .shared)
    (d : Db) : (run Cmd.exec cs d).get k = d.get k :=
  run_frame cmd_footprint (fun c hc hw => (own_or_shared_of_writes (hcs c hc) hw).elim hk hsh) d

end Runs

end YottaTest.Imptp
