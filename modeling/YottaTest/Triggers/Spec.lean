/-
  File:      YottaTest/Triggers/Spec.lean
  Subject:   What a line of a trigger file does to the table of its global.

  * `Spec` -- the table stays well-formed, the line counts as an update exactly if a trigger has
    changed, an update is written, and the counts of added and deleted triggers are right;
  * `addSet_spec`, `addNonSet_spec`, `create_spec`, `delete_spec` -- one lemma for each branch, and
    with it what happens to `#TNCOUNT`;
  * **`load_spec`** -- a line.
-/
import YottaTest.Triggers.Load

namespace YottaTest.Triggers

open Function YottaTest.M YottaTest.Lib

/-- **What a line does.** -/
structure Spec (g : Gbl) (o : Out) : Prop where
  wf : o.g.WF
  /-- The line counts as an update exactly if a trigger has changed. -/
  changed : o.upd = true ↔ o.g.trigs.get ≠ g.trigs.get
  reported : o.upd = true → ∃ m ∈ o.written, m.isUpdate = true
  counted : o.added + g.trigs.size = o.deleted + o.g.trigs.size

/-- By how much `#TNCOUNT` is above the number of triggers. -/
def Gbl.excess (g : Gbl) : Int := g.tncount - g.trigs.size

/-! ## 1. The commands -/

section Fields

variable {f : Fields}

theorem S_notMem_nonSet (f : Fields) : S ∉ f.nonSet := by simp [Fields.nonSet]

/-- A line without SET has another command. -/
theorem nonSet_nonempty (hf : f.cmds.Nonempty) (hs : f.setspecified = false) :
    f.nonSet.Nonempty := by
  obtain ⟨c, hc⟩ := hf
  refine ⟨c, Finset.mem_erase.2 ⟨?_, hc⟩⟩
  rintro rfl
  simp [Fields.setspecified, hc] at hs

end Fields

theorem uniq2_ne_empty {x y : Finset MStr} :
    decide ((computediff x y).uniq2 ≠ ∅) = true ↔ x ∪ y ≠ x := by
  simp [computediff, Finset.sdiff_eq_empty_iff_subset, Finset.union_eq_left]

section Update

variable {K : Type} [DecidableEq K] {T : K → Option Trigger} {k l : K} {t t' u u' : Trigger}

theorem update_ne_iff (ht : T k = some t) : update T k (some t') ≠ T ↔ t' ≠ t := by
  rw [ne_eq, update_eq_self_iff, ht, Option.some.injEq]

theorem update_update_ne_iff (hkl : l ≠ k) (ht : T k = some t) (hu : T l = some u) :
    update (update T k (some t')) l (some u') ≠ T ↔ t' ≠ t ∨ u' ≠ u := by
  constructor
  · intro h
    by_contra hne
    rw [not_or, not_not, not_not] at hne
    obtain ⟨rfl, rfl⟩ := hne
    rw [← ht, update_eq_self, ← hu, update_eq_self] at h
    exact h rfl
  · rintro (h | h) he
    · have := congrFun he k
      rw [update_of_ne hkl.symm, update_self, ht, Option.some.injEq] at this
      exact h this
    · have := congrFun he l
      rw [update_self, hu, Option.some.injEq] at this
      exact h this

end Update

/-! ## 2. Addition -/

section Add

variable {g : Gbl} {f : Fields}

theorem addNonSet_spec (h : g.WF) (hd : g.data f.xecute = true) :
    Spec g (addNonSet g f) ∧ (addNonSet g f).g.excess = g.excess := by
  obtain ⟨t, ht, hlow⟩ := h.first hd
  have hS := S_notMem_nonSet f
  have hwf : (g.setTrig f.xecute (g.first f.xecute)
      { t with options := f.options, cmds := t.cmds ∪ f.nonSet }).WF :=
    h.modify ht ((h.consistent.cmds _ _ t ht).mono Finset.subset_union_left)
      (by simp [hS]) rfl rfl (Or.inl hlow)
  have hsize := Table.size_set_of_some ht { t with options := f.options, cmds := t.cmds ∪ f.nonSet }
  have hmod : ∀ b c : Bool, (if b = false then c else b) = (b || c) := by decide
  have hchanged : (decide ((computediff t.cmds f.nonSet).uniq2 ≠ ∅) ||
      (computediff t.options f.options).differ) = true ↔
      update g.trigs.get (f.xecute, g.first f.xecute)
        (some { t with options := f.options, cmds := t.cmds ∪ f.nonSet }) ≠ g.trigs.get := by
    rw [update_ne_iff ht, Bool.or_eq_true, uniq2_ne_empty, differ_eq_true]
    constructor
    · rintro (hc | ho) he
      · exact hc (congrArg Trigger.cmds he)
      · exact ho (congrArg Trigger.options he).symm
    · intro hne
      by_contra hno
      rw [not_or, not_not, not_not] at hno
      exact hne (by rw [hno.1, ← hno.2])
  unfold addNonSet
  simp only [Gbl.trig_eq ht, hmod]
  generalize (decide ((computediff t.cmds f.nonSet).uniq2 ≠ ∅) ||
    (computediff t.options f.options).differ) = killmod at hchanged ⊢
  rw [← Gbl.setTrig_get] at hchanged
  cases killmod with
  | true =>
      refine ⟨⟨hwf, by simpa [Out.upd, Out.writeModified] using hchanged, ?_, ?_⟩, ?_⟩
      · exact fun _ => ⟨.modified .nonSet (g.first f.xecute), by simp [Out.writeModified], rfl⟩
      · exact congrArg (0 + ·) hsize.symm
      · exact congrArg (fun n : Nat => g.tncount - n) hsize
  | false =>
      refine ⟨⟨hwf, by simpa [Out.upd, Out.write] using hchanged, ?_, ?_⟩, ?_⟩
      · exact fun hupd => absurd hupd (by simp [Out.upd, Out.write])
      · exact congrArg (0 + ·) hsize.symm
      · exact congrArg (fun n : Nat => g.tncount - n) hsize

theorem create_spec (h : g.WF) (hd : g.data f.xecute = false) (hf : f.cmds.Nonempty) :
    Spec g (create g f) ∧ (create g f).g.tncount = g.seqnum + 1 ∧
      (create g f).g.trigs.size = g.trigs.size + 1 := by
  have hnone : ∀ i, g.trigs.get (f.xecute, i) = none := by
    intro i
    by_contra hne
    rw [h.data.2 ⟨i, hne⟩] at hd
    cases hd
  have hindex : g.index.get (f.xecute, f.delim, f.pieces) = none := by
    by_contra hne
    obtain ⟨i, hi⟩ := Option.ne_none_iff_exists'.1 hne
    obtain ⟨t, ht, -⟩ := (h.consistent.index _ _ _ i).1 hi
    rw [hnone] at ht
    cases ht
  have hcount : (g.trigs.size : Int) + 1 ≤ (g.seqnum + 1 : Nat) := by
    have := h.size_le
    omega
  have hsize : ∀ t : Trigger, (g.trigs.set (f.xecute, g.seqnum + 1) t).size = g.trigs.size + 1 :=
    fun t => Table.size_set_of_none (hnone _) t
  have hne : ∀ t : Trigger,
      (g.trigs.set (f.xecute, g.seqnum + 1) t).get ≠ g.trigs.get := by
    intro t he
    have := congrFun he (f.xecute, g.seqnum + 1)
    rw [Table.get_set_self, hnone] at this
    cases this
  unfold create
  cases hs : f.setspecified with
  | false =>
      have hmem : S ∉ f.nonSet := S_notMem_nonSet f
      refine ⟨⟨h.create hcount (nonSet_nonempty hf hs) (Or.inl hnone)
        (Or.inr ⟨hmem, rfl, rfl, rfl⟩) (d := f.delim) (p := f.pieces), ?_, ?_, ?_⟩, ?_, ?_⟩
      · exact iff_of_true rfl (hne _)
      · exact fun _ => ⟨.added .nonSet (g.seqnum + 1), List.mem_singleton_self _, rfl⟩
      · have hz := hsize { Trigger.none with options := f.options, cmds := f.nonSet }
        exact (Nat.add_comm _ _).trans (hz.symm.trans (Nat.zero_add _).symm)
      · rfl
      · exact hsize _
  | true =>
      have hwf := h.create (v := ⟨f.nonSet ∪ {S}, f.options, some f.delim, some f.pieces⟩) hcount
        ⟨S, by simp⟩ (Or.inl hnone) (Or.inl ⟨by simp, rfl, rfl, hindex, rfl⟩)
      have hz := hsize ⟨f.nonSet ∪ {S}, f.options, some f.delim, some f.pieces⟩
      cases f.killspecified with
      | false =>
          refine ⟨⟨hwf, iff_of_true rfl (hne _), fun _ => ⟨.added .set (g.seqnum + 1), ?_, rfl⟩, ?_⟩,
            rfl, hz⟩
          · exact List.mem_singleton_self _
          · exact (Nat.add_comm _ _).trans (hz.symm.trans (Nat.zero_add _).symm)
      | true =>
          refine ⟨⟨hwf, iff_of_true rfl (hne _), fun _ => ⟨.added .both (g.seqnum + 1), ?_, rfl⟩, ?_⟩,
            rfl, hz⟩
          · exact List.mem_singleton_self _
          · exact (Nat.add_comm _ _).trans (hz.symm.trans (Nat.zero_add _).symm)

/-- The messages of an addition of SET: an update is written, and a new trigger is counted. -/
theorem addSetMessages_spec (f : Fields) (g : Gbl) {killindex setindex : Nat}
    {setexists setmod killmod : Bool} (hkill : killindex = setindex → killmod = true → setmod = true)
    (hset : setexists = false → setmod = true) {o : Out}
    (ho : o = addSetMessages f killindex setindex setexists setmod killmod
      { g := g, setmod := setmod, killmod := killmod }) :
    o.g = g ∧ o.upd = (setmod || killmod) ∧
      ((setmod || killmod) = true → ∃ m ∈ o.written, m.isUpdate = true) ∧
      o.added = (if killindex ≠ setindex ∧ setexists = false then 1 else 0) ∧ o.deleted = 0 := by
  subst ho
  unfold addSetMessages
  by_cases hk : killindex = setindex
  · have hkill := hkill hk
    cases hs : setmod <;> cases hm : killmod <;> cases he : setexists <;> cases hf : f.killspecified <;>
      simp_all [Out.upd, Out.writeModified, Out.writeAdded, Out.write, Message.isUpdate]
  · cases hs : setmod <;> cases hm : killmod <;> cases he : setexists <;> cases hf : f.killspecified <;>
      simp_all [Out.upd, Out.writeModified, Out.writeAdded, Out.write, Message.isUpdate]

/-- The SET trigger of an addition. -/
theorem setexists_cases (h : g.WF) (f : Fields) :
    (∃ i u, g.index.get (f.xecute, f.delim, f.pieces) = some i ∧ g.setexists f = true ∧
      g.setindex f = i ∧ i ≠ 0 ∧ g.trigs.get (f.xecute, i) = some u ∧ u.delim = some f.delim ∧
      u.pieces = some f.pieces) ∨
    (g.index.get (f.xecute, f.delim, f.pieces) = none ∧ g.setexists f = false) := by
  cases hi : g.index.get (f.xecute, f.delim, f.pieces) with
  | none => exact Or.inr ⟨rfl, by simp [Gbl.setexists, hi]⟩
  | some i =>
      obtain ⟨u, hu, hd, hp⟩ := (h.consistent.index _ _ _ i).1 hi
      have hpos := (h.consistent.bound _ _ u hu).1
      have he : g.setexists f = true := by
        simp only [Gbl.setexists, hi, Option.getD_some, decide_eq_true_eq]
        omega
      refine Or.inl ⟨i, u, rfl, he, ?_, by omega, hu, hd, hp⟩
      simp [Gbl.setindex, he, hi]

/-- A trigger with SET and the delim and pieces of the line, stored with more commands. -/
theorem stored_ne_iff {t : Trigger} {d p : MStr} (hS : S ∈ t.cmds) (hdelim : t.delim = some d)
    (hpieces : t.pieces = some p) (cmds options : Finset MStr) :
    (⟨t.cmds ∪ cmds ∪ {S}, options, some d, some p⟩ : Trigger) ≠ t ↔
      t.cmds ∪ cmds ≠ t.cmds ∨ t.options ≠ options := by
  have hunion : t.cmds ∪ cmds ∪ {S} = t.cmds ∪ cmds := by
    rw [Finset.union_eq_left, Finset.singleton_subset_iff]
    exact Finset.mem_union_left _ hS
  rw [hunion, ← not_and_or, not_iff_not]
  constructor
  · intro he
    exact ⟨congrArg Trigger.cmds he, (congrArg Trigger.options he).symm⟩
  · rintro ⟨hc, ho⟩
    rw [hc, ← ho, ← hdelim, ← hpieces]

/-- The trigger that has the delim and pieces of the line is the first one. -/
theorem addSet_same (h : g.WF) {t : Trigger}
    (ht : g.trigs.get (f.xecute, g.first f.xecute) = some t)
    (hlow : ∀ j < g.first f.xecute, g.trigs.get (f.xecute, j) = none)
    (hexists : g.setexists f = true) (hindex : g.setindex f = g.first f.xecute)
    (hne : g.first f.xecute ≠ 0) (hdelim : t.delim = some f.delim)
    (hpieces : t.pieces = some f.pieces) :
    Spec g (addSet g f) ∧ (addSet g f).g.excess = g.excess := by
  have hS : S ∈ t.cmds := by
    rcases h.consistent.paired _ _ t ht with ⟨hs, -⟩ | ⟨-, hnone, -⟩
    · exact hs
    · rw [hdelim] at hnone
      cases hnone
  set k := g.first f.xecute with hk
  set t₁ : Trigger := { t with cmds := t.cmds ∪ f.nonSet } with ht₁
  set t₂ : Trigger := ⟨t₁.cmds ∪ {S}, f.options, some f.delim, some f.pieces⟩ with ht₂
  have hwf₁ : (g.setTrig f.xecute k t₁).WF := h.modify ht
    ((h.consistent.cmds _ _ t ht).mono Finset.subset_union_left) (by simp [ht₁, hS]) rfl rfl
    (Or.inl hlow)
  have hget₁ : (g.setTrig f.xecute k t₁).trigs.get (f.xecute, k) = some t₁ :=
    Table.get_set_self _ _ _
  have hwf₂ : ((g.setTrig f.xecute k t₁).setTrig f.xecute k t₂).WF := by
    refine hwf₁.modify hget₁ ⟨S, by simp [ht₂]⟩ (by simp [ht₂, ht₁, hS]) hdelim.symm hpieces.symm
      (Or.inl fun j hj => ?_)
    rw [Gbl.setTrig_get, update_of_ne (by simp; omega)]
    exact hlow j hj
  set updated := (decide ((computediff t.cmds f.nonSet).uniq2 ≠ ∅) ||
    (computediff t.options f.options).differ) with hupdated
  have hcalc : addSet g f = addSetMessages f k k true updated updated
      { g := (g.setTrig f.xecute k t₁).setTrig f.xecute k t₂, setmod := updated
        killmod := updated } := by
    unfold addSet
    simp only [hindex, hexists, hne, ← hk, Gbl.trig_eq ht, if_false, Bool.true_eq_false, ← ht₁,
      Gbl.trig_eq hget₁]
    rw [hupdated, ht₂]
    cases decide ((computediff t.cmds f.nonSet).uniq2 ≠ ∅) <;>
      cases (computediff t.options f.options).differ <;> rfl
  obtain ⟨hg, hupd, hreport, hadded, hdeleted⟩ := addSetMessages_spec f _ (fun _ h => h)
    (by simp) hcalc
  have hsize : (addSet g f).g.trigs.size = g.trigs.size := by
    rw [hg]
    exact (Table.size_set_of_some hget₁ t₂).trans (Table.size_set_of_some ht t₁)
  refine ⟨⟨hg ▸ hwf₂, ?_, ?_, ?_⟩, ?_⟩
  · rw [hupd, hg, Gbl.setTrig_get, Gbl.setTrig_get, update_idem, update_ne_iff ht, Bool.or_self,
      hupdated, Bool.or_eq_true, uniq2_ne_empty, differ_eq_true]
    exact (stored_ne_iff hS hdelim hpieces _ _).symm
  · rw [hupd]
    exact hreport
  · rw [hadded, hdeleted, hsize]
    simp
  · unfold Gbl.excess
    rw [hsize, hg]
    rfl

/-- It is another one. -/
theorem addSet_other (h : g.WF) {i : Nat} {t u : Trigger}
    (ht : g.trigs.get (f.xecute, g.first f.xecute) = some t)
    (hlow : ∀ j < g.first f.xecute, g.trigs.get (f.xecute, j) = none)
    (hexists : g.setexists f = true) (hindex : g.setindex f = i) (hne : i ≠ 0)
    (hki : g.first f.xecute ≠ i) (hu : g.trigs.get (f.xecute, i) = some u)
    (hdelim : u.delim = some f.delim) (hpieces : u.pieces = some f.pieces) :
    Spec g (addSet g f) ∧ (addSet g f).g.excess = g.excess := by
  have hS : S ∈ u.cmds := by
    rcases h.consistent.paired _ _ u hu with ⟨hs, -⟩ | ⟨-, hnone, -⟩
    · exact hs
    · rw [hdelim] at hnone
      cases hnone
  have hki' : g.first f.xecute < i := by
    by_contra hle
    rw [hlow i (by omega)] at hu
    cases hu
  have honly : u.cmds ⊆ {S} := h.consistent.lowest _ _ _ u hu (by simp [ht]) hki'
  set k := g.first f.xecute with hk
  set t₁ : Trigger := { t with cmds := t.cmds ∪ f.nonSet } with ht₁
  set u₁ : Trigger := ⟨u.cmds ∪ {S}, f.options, some f.delim, some f.pieces⟩ with hu₁
  have hwf₁ : (g.setTrig f.xecute k t₁).WF := h.modify ht
    ((h.consistent.cmds _ _ t ht).mono Finset.subset_union_left)
    (by simp [ht₁, S_notMem_nonSet]) rfl rfl (Or.inl hlow)
  have hget₁ : (g.setTrig f.xecute k t₁).trigs.get (f.xecute, i) = some u := by
    rw [Gbl.setTrig_get, update_of_ne (by simp; omega)]
    exact hu
  have hwf₂ : ((g.setTrig f.xecute k t₁).setTrig f.xecute i u₁).WF :=
    hwf₁.modify hget₁ ⟨S, by simp [hu₁]⟩ (by simp [hu₁, hS]) hdelim.symm hpieces.symm
      (Or.inr (Finset.union_subset honly (Finset.Subset.refl _)))
  have hcalc : addSet g f = addSetMessages f k i true (computediff u.options f.options).differ
      (decide ((computediff t.cmds f.nonSet).uniq2 ≠ ∅))
      { g := (g.setTrig f.xecute k t₁).setTrig f.xecute i u₁
        setmod := (computediff u.options f.options).differ
        killmod := decide ((computediff t.cmds f.nonSet).uniq2 ≠ ∅) } := by
    unfold addSet
    simp only [hindex, hexists, hne, ← hk, Gbl.trig_eq ht, if_false, Bool.true_eq_false, ← ht₁,
      Gbl.trig_eq hget₁, hki, hki.symm, and_false, Bool.not_true, and_self, if_true]
    rfl
  obtain ⟨hg, hupd, hreport, hadded, hdeleted⟩ := addSetMessages_spec f _
    (fun h => absurd h hki) (by simp) hcalc
  have hsize : (addSet g f).g.trigs.size = g.trigs.size := by
    rw [hg]
    exact (Table.size_set_of_some hget₁ u₁).trans (Table.size_set_of_some ht t₁)
  refine ⟨⟨hg ▸ hwf₂, ?_, ?_, ?_⟩, ?_⟩
  · have hu₁' : u₁ ≠ u ↔ u.options ≠ f.options := by
      have := stored_ne_iff hS hdelim hpieces ∅ f.options
      rw [show u.cmds ∪ ∅ = u.cmds by simp] at this
      simpa [hu₁] using this
    have ht₁' : t₁ ≠ t ↔ t.cmds ∪ f.nonSet ≠ t.cmds := by
      rw [not_iff_not]
      exact ⟨congrArg Trigger.cmds, fun he => by rw [ht₁, he]⟩
    rw [hupd, hg, Gbl.setTrig_get, Gbl.setTrig_get, update_update_ne_iff (by simp; omega) ht hu,
      Bool.or_eq_true, uniq2_ne_empty, differ_eq_true, hu₁', ht₁', or_comm]
  · rw [hupd]
    exact hreport
  · rw [hadded, hdeleted, hsize]
    simp
  · unfold Gbl.excess
    rw [hsize, hg]
    rfl

/-- There is none, and the first trigger can take SET. -/
theorem addSet_join (h : g.WF) {t : Trigger}
    (ht : g.trigs.get (f.xecute, g.first f.xecute) = some t)
    (hlow : ∀ j < g.first f.xecute, g.trigs.get (f.xecute, j) = none)
    (hexists : g.setexists f = false) (hnew : g.index.get (f.xecute, f.delim, f.pieces) = none)
    (hdelim : t.delim = none) :
    Spec g (addSet g f) ∧ (addSet g f).g.excess = g.excess := by
  have hS : S ∉ t.cmds := by
    rcases h.consistent.paired _ _ t ht with ⟨-, d, p, hd, -⟩ | ⟨hs, -⟩
    · rw [hdelim] at hd
      cases hd
    · exact hs
  have hindex : g.setindex f = g.first f.xecute := by
    unfold Gbl.setindex
    rw [Gbl.trig_eq ht, if_pos ⟨hexists, hdelim⟩]
  have hne : g.first f.xecute ≠ 0 := by
    have := (h.consistent.bound _ _ t ht).1
    omega
  set k := g.first f.xecute with hk
  set t₁ : Trigger := { t with cmds := t.cmds ∪ f.nonSet } with ht₁
  set t₂ : Trigger := ⟨t₁.cmds ∪ {S}, f.options, some f.delim, some f.pieces⟩ with ht₂
  set g₁ : Gbl := (g.setIndex f.xecute f.delim f.pieces k).setTrig f.xecute k t₁ with hg₁
  have hget₀ : (g.setIndex f.xecute f.delim f.pieces k).trigs.get (f.xecute, k) = some t := ht
  have hget₁ : g₁.trigs.get (f.xecute, k) = some t₁ := Table.get_set_self _ _ _
  have hfinal : (g₁.setTrig f.xecute k t₂).trigs.get = update g.trigs.get (f.xecute, k) (some t₂) := by
    rw [Gbl.setTrig_get, hg₁, Gbl.setTrig_get, update_idem]
    rfl
  have hwf₂ : (g₁.setTrig f.xecute k t₂).WF := by
    have hjoin := h.join (v := t₂) ht hnew hdelim (by simp [ht₂]) rfl rfl hlow
    exact hjoin.congr (by rw [hfinal, Gbl.setTrig_get]; rfl) rfl rfl rfl
  have hsize : (g₁.setTrig f.xecute k t₂).trigs.size = g.trigs.size :=
    (Table.size_set_of_some hget₁ t₂).trans (Table.size_set_of_some ht t₁)
  obtain ⟨killmod, hcalc⟩ : ∃ killmod, addSet g f = addSetMessages f k k false true killmod
      { g := g₁.setTrig f.xecute k t₂, setmod := true, killmod := killmod } := by
    unfold addSet
    simp only [hindex, hexists, hne, ← hk, Gbl.trig_eq hget₀, if_false, if_true, ← ht₁, ← hg₁,
      Gbl.trig_eq hget₁, and_true, Bool.false_eq_true, false_and, Bool.not_false]
    generalize (if decide ((computediff t.cmds f.nonSet).uniq2 ≠ ∅) = false
      then (computediff t.options f.options).differ
      else decide ((computediff t.cmds f.nonSet).uniq2 ≠ ∅)) = killmod
    exact ⟨killmod, by cases killmod <;> rfl⟩
  obtain ⟨hg, hupd, hreport, hadded, hdeleted⟩ := addSetMessages_spec f _ (fun _ _ => rfl)
    (fun _ => rfl) hcalc
  refine ⟨⟨hg ▸ hwf₂, ?_, ?_, ?_⟩, ?_⟩
  · rw [hupd, hg, hfinal, update_ne_iff ht]
    refine iff_of_true (Bool.true_or _) fun he => hS ?_
    rw [← he]
    simp [ht₂]
  · rw [hupd]
    exact hreport
  · rw [hadded, hdeleted, hg, hsize]
    simp
  · unfold Gbl.excess
    rw [hg, hsize]
    rfl

/-- There is none, and the first trigger has another delim: a new trigger. -/
theorem addSet_new (h : g.WF) {t : Trigger}
    (ht : g.trigs.get (f.xecute, g.first f.xecute) = some t)
    (hlow : ∀ j < g.first f.xecute, g.trigs.get (f.xecute, j) = none)
    (hexists : g.setexists f = false) (hnew : g.index.get (f.xecute, f.delim, f.pieces) = none)
    (hdelim : t.delim ≠ none) :
    Spec g (addSet g f) ∧ (addSet g f).g.excess = g.excess := by
  have hindex : g.setindex f = 0 := by
    unfold Gbl.setindex
    rw [Gbl.trig_eq ht, if_neg fun hc => hdelim hc.2, hnew]
    rfl
  have hbound := (h.consistent.bound _ _ t ht).2
  have hfresh : g.trigs.get (f.xecute, g.seqnum + 1) = none := by
    by_contra hne
    obtain ⟨u, hu⟩ := Option.ne_none_iff_exists'.1 hne
    have := (h.consistent.bound _ _ u hu).2
    omega
  set k := g.first f.xecute with hk
  have hki : k ≠ g.seqnum + 1 := by omega
  set t₁ : Trigger := { t with cmds := t.cmds ∪ f.nonSet } with ht₁
  set u₁ : Trigger := ⟨∅ ∪ {S}, f.options, some f.delim, some f.pieces⟩ with hu₁
  set g₁ : Gbl := ⟨g.seqnum + 1, g.tncount + 1, g.trigs.set (f.xecute, k) t₁,
    g.index.set (f.xecute, f.delim, f.pieces) (g.seqnum + 1)⟩ with hg₁
  have hwf₁ : (g.setTrig f.xecute k t₁).WF := h.modify ht
    ((h.consistent.cmds _ _ t ht).mono Finset.subset_union_left)
    (by simp [ht₁, S_notMem_nonSet]) rfl rfl (Or.inl hlow)
  have hfresh₁ : g₁.trigs.get (f.xecute, g.seqnum + 1) = none := by
    rw [hg₁, Table.get_set_of_ne _ _ (by simp; omega)]
    exact hfresh
  have hcount : ((g.setTrig f.xecute k t₁).trigs.size : Int) + 1 ≤ g.tncount + 1 := by
    have := hwf₁.count
    show ((g.setTrig f.xecute k t₁).trigs.size : Int) + 1 ≤ g.tncount + 1
    exact Int.add_le_add_right this 1
  have hwf₂ : (g₁.setTrig f.xecute (g.seqnum + 1) u₁).WF :=
    hwf₁.create hcount ⟨S, by simp [hu₁]⟩ (Or.inr (by simp [hu₁]))
      (Or.inl ⟨by simp [hu₁], rfl, rfl, hnew, rfl⟩)
  have hsize : (g₁.setTrig f.xecute (g.seqnum + 1) u₁).trigs.size = g.trigs.size + 1 :=
    (Table.size_set_of_none hfresh₁ u₁).trans
      (congrArg (· + 1) (Table.size_set_of_some ht t₁))
  have hcalc : addSet g f = addSetMessages f k (g.seqnum + 1) false true
      (decide ((computediff t.cmds f.nonSet).uniq2 ≠ ∅))
      { g := g₁.setTrig f.xecute (g.seqnum + 1) u₁, setmod := true
        killmod := decide ((computediff t.cmds f.nonSet).uniq2 ≠ ∅) } := by
    have htrig : ∀ n m, Gbl.trig ⟨n, m, g.trigs, g.index.set (f.xecute, f.delim, f.pieces)
        (g.seqnum + 1)⟩ f.xecute k = t := fun _ _ => Gbl.trig_eq ht
    have hstore : Gbl.setTrig ⟨g.seqnum + 1, g.tncount + 1, g.trigs,
        g.index.set (f.xecute, f.delim, f.pieces) (g.seqnum + 1)⟩ f.xecute k t₁ = g₁ := rfl
    have hnone : g₁.trig f.xecute (g.seqnum + 1) = .none := by
      rw [Gbl.trig, hfresh₁]
      rfl
    unfold addSet
    simp only [hindex, hexists, if_true, ← hk, Gbl.setIndex, htrig, hki.symm, and_false, if_false,
      hki, Bool.not_false, Bool.false_eq_true, false_and, ← ht₁, hstore, hnone]
    rfl
  obtain ⟨hg, hupd, hreport, hadded, hdeleted⟩ := addSetMessages_spec f _ (fun h => absurd h hki)
    (fun _ => rfl) hcalc
  refine ⟨⟨hg ▸ hwf₂, ?_, ?_, ?_⟩, ?_⟩
  · rw [hupd, hg]
    refine iff_of_true (Bool.true_or _) fun he => ?_
    have := congrFun he (f.xecute, g.seqnum + 1)
    rw [Gbl.setTrig_get, update_self, hfresh] at this
    cases this
  · rw [hupd]
    exact hreport
  · rw [hadded, hdeleted, hg, hsize, if_pos ⟨hki, rfl⟩]
    omega
  · unfold Gbl.excess
    rw [hg, hsize]
    show g.tncount + 1 - ((g.trigs.size + 1 : Nat) : Int) = _
    omega

theorem addSet_spec (h : g.WF) (hd : g.data f.xecute = true) :
    Spec g (addSet g f) ∧ (addSet g f).g.excess = g.excess := by
  obtain ⟨t, ht, hlow⟩ := h.first hd
  rcases setexists_cases h f with ⟨i, u, -, hexists, hindex, hne, hu, hdelim, hpieces⟩ |
    ⟨hnew, hexists⟩
  · by_cases hki : g.first f.xecute = i
    · subst hki
      obtain rfl : t = u := Option.some.inj (ht.symm.trans hu)
      exact addSet_same h ht hlow hexists hindex hne hdelim hpieces
    · exact addSet_other h ht hlow hexists hindex hne hki hu hdelim hpieces
  · by_cases hdelim : t.delim = none
    · exact addSet_join h ht hlow hexists hnew hdelim
    · exact addSet_new h ht hlow hexists hnew hdelim

end Add

/-! ## 3. Deletion -/

section Delete

variable {g : Gbl} {f : Fields} {x : MStr}

/-- A trigger that goes is a change. -/
theorem update_none_ne {i : Nat} {t : Trigger} (ht : g.trigs.get (x, i) = some t) :
    update g.trigs.get (x, i) none ≠ g.trigs.get := by
  rw [ne_eq, update_eq_self_iff, ht]
  simp

/-- A trigger has lost commands. -/
theorem spec_modified {o : Out} {i : Nat} {t t' : Trigger} {m : Message} (hwf : o.g.WF)
    (ht : g.trigs.get (x, i) = some t)
    (hget : o.g.trigs.get = update g.trigs.get (x, i) (some t')) (hne : t' ≠ t)
    (hupd : o.upd = true) (hm : m ∈ o.written) (hmu : m.isUpdate = true) (hadded : o.added = 0)
    (hdeleted : o.deleted = 0) (htn : o.g.tncount = g.tncount) :
    Spec g o ∧ o.g.excess = g.excess := by
  have hsize := Gbl.size_of_store ht hget
  refine ⟨⟨hwf, iff_of_true hupd ?_, fun _ => ⟨m, hm, hmu⟩, ?_⟩, ?_⟩
  · rw [hget, update_ne_iff ht]
    exact hne
  · rw [hadded, hdeleted, hsize]
  · rw [Gbl.excess, Gbl.excess, hsize, htn]

/-- A trigger has been deleted. -/
theorem spec_deleted {o : Out} {i : Nat} {t : Trigger} {m : Message} (hwf : o.g.WF)
    (ht : g.trigs.get (x, i) = some t) (hget : o.g.trigs.get = update g.trigs.get (x, i) none)
    (hupd : o.upd = true) (hm : m ∈ o.written) (hmu : m.isUpdate = true) (hadded : o.added = 0)
    (hdeleted : o.deleted = 1) (htn : o.g.tncount = g.tncount - 1) :
    Spec g o ∧ o.g.excess = g.excess := by
  have hsize := Gbl.size_of_kill ht hget
  refine ⟨⟨hwf, iff_of_true hupd ?_, fun _ => ⟨m, hm, hmu⟩, ?_⟩, ?_⟩
  · rw [hget]
    exact update_none_ne ht
  · rw [hadded, hdeleted, ← hsize]
    omega
  · rw [Gbl.excess, Gbl.excess, ← hsize, htn]
    omega

/-- Taking commands from the first trigger. It leaves the other triggers and what they have in the
    index. -/
theorem touchKill_spec (h : g.WF) (hd : g.data x = true) {cmds : Finset MStr} (hS : S ∉ cmds)
    (say : Bool) : Spec g (touchKill { g := g } x (g.first x) cmds say) ∧
      (touchKill { g := g } x (g.first x) cmds say).g.excess = g.excess ∧
      ∀ j, j ≠ g.first x →
        (touchKill { g := g } x (g.first x) cmds say).g.trigs.get (x, j) = g.trigs.get (x, j) := by
  obtain ⟨t, ht, hlow⟩ := h.first hd
  set k := g.first x with hk
  unfold touchKill
  simp only [Gbl.trig_eq ht]
  by_cases hc : (computediff t.cmds cmds).common = ∅
  · rw [if_neg (not_not.2 hc)]
    cases say with
    | true => exact ⟨⟨h, by simp [Out.upd, Out.write], by simp [Out.upd, Out.write], rfl⟩, rfl,
        fun _ _ => rfl⟩
    | false => exact ⟨⟨h, by simp [Out.upd], by simp [Out.upd], rfl⟩, rfl, fun _ _ => rfl⟩
  · rw [if_pos hc]
    have hsub : t.cmds \ (computediff t.cmds cmds).common ≠ t.cmds := by
      intro he
      obtain ⟨c, hcc⟩ := Finset.nonempty_iff_ne_empty.2 hc
      have hct : c ∈ t.cmds := (Finset.mem_inter.1 hcc).1
      rw [← he] at hct
      exact (Finset.mem_sdiff.1 hct).2 hcc
    have hcS : S ∉ (computediff t.cmds cmds).common := fun hm => hS (Finset.mem_inter.1 hm).2
    by_cases hr : t.cmds \ (computediff t.cmds cmds).common = ∅
    · rw [if_neg (not_not.2 hr)]
      have hnone : t.delim = none := by
        rcases h.consistent.paired _ _ t ht with ⟨hs, -⟩ | ⟨-, hnone, -⟩
        · exact absurd (hr ▸ Finset.mem_sdiff.2 ⟨hs, hcS⟩) (Finset.notMem_empty S)
        · exact hnone
      obtain ⟨hwf, hget, htn⟩ := h.delete ht (d := []) (p := []) (Or.inl ⟨hnone, rfl⟩)
      obtain ⟨hspec, hexcess⟩ := spec_deleted (m := .deleted .nonSet k)
        (o := { g := (g.killTrig x k).hashtdecrement, killmod := true : Out }.writeDeleted .nonSet k)
        hwf ht hget rfl (by simp [Out.writeDeleted]) rfl rfl rfl htn
      refine ⟨hspec, hexcess, fun j hj => ?_⟩
      exact (congrFun hget (x, j)).trans (update_of_ne (by simp [hj]) _ _)
    · rw [if_pos hr]
      set t' : Trigger := { t with cmds := t.cmds \ (computediff t.cmds cmds).common } with ht'
      have hwf := h.modify (v := t') ht (Finset.nonempty_iff_ne_empty.2 hr) (by simp [ht', hcS])
        rfl rfl (Or.inl hlow)
      obtain ⟨hspec, hexcess⟩ := spec_modified (m := .modified .nonSet k)
        (o := { g := g.setTrig x k t', killmod := true : Out }.writeModified .nonSet k)
        hwf ht (Gbl.setTrig_get g x k t') (fun he => hsub (congrArg Trigger.cmds he)) rfl
        (by simp [Out.writeModified]) rfl rfl rfl rfl
      exact ⟨hspec, hexcess, fun j hj => Table.get_set_of_ne _ _ (by simp [hj])⟩

theorem Spec.write {o : Out} (h : Spec g o) (m : Message) : Spec g (o.write m) where
  wf := h.wf
  changed := h.changed
  reported hupd := by
    obtain ⟨m', hm', hu⟩ := h.reported hupd
    exact ⟨m', List.mem_append_left _ hm', hu⟩
  counted := h.counted

/-- The SET trigger of a deletion is there and has nothing but SET: neither `halt` is reached. -/
theorem touchSet_spec {o : Out} {i : Nat} {u : Trigger} (ho : Spec g o)
    (hexcess : o.g.excess = g.excess) (hu : g.trigs.get (f.xecute, i) = some u)
    (hou : o.g.trigs.get (f.xecute, i) = some u) (honly : u.cmds ⊆ {S})
    (hdelim : u.delim = some f.delim) (hpieces : u.pieces = some f.pieces) :
    ∃ o', touchSet o f i = some o' ∧ Spec g o' ∧ o'.g.excess = g.excess := by
  have hcmds : u.cmds = {S} :=
    (Finset.subset_singleton_iff.1 honly).resolve_left (ho.wf.consistent.cmds _ _ u hou).ne_empty
  set g' := (o.g.killTrig f.xecute i).hashtdecrement.killIndex f.xecute f.delim f.pieces with hg'
  obtain ⟨hwf, hget, htn⟩ := ho.wf.delete hou (Or.inr ⟨Or.inl ⟨hdelim, hpieces⟩, hg'⟩)
  have hsize := Gbl.size_of_kill hou hget
  have hcommon : (computediff u.cmds {S}).common = {S} := by
    rw [hcmds]
    exact Finset.inter_self _
  unfold touchSet
  simp only [Gbl.trig_eq hou, hcommon]
  rw [if_neg (Finset.singleton_ne_empty S), if_neg (by simp [hcmds])]
  refine ⟨_, rfl, ⟨hwf, iff_of_true ?_ ?_, fun _ => ⟨.deleted .set i, ?_, rfl⟩, ?_⟩, ?_⟩
  · exact Bool.true_or _
  · intro he
    have := congrFun (hget.symm.trans he) (f.xecute, i)
    rw [update_self, hu] at this
    cases this
  · simp [Out.writeDeleted]
  · have := ho.counted
    show o.added + g.trigs.size = o.deleted + 1 + g'.trigs.size
    omega
  · show g'.tncount - (g'.trigs.size : Int) = g.excess
    rw [← hexcess, Gbl.excess, htn]
    omega

/-- A deletion with SET, when SET and KILL triggers are identical. -/
theorem touchBoth_spec (h : g.WF) {t : Trigger}
    (ht : g.trigs.get (f.xecute, g.first f.xecute) = some t)
    (hlow : ∀ j < g.first f.xecute, g.trigs.get (f.xecute, j) = none)
    (he : g.setexists f = true ∧ t.delim = some f.delim ∧ t.pieces = some f.pieces ∨
      g.setexists f = false ∧ t.delim = none ∧
        g.index.get (f.xecute, f.delim, f.pieces) = none) :
    Spec g (touchBoth g f (g.first f.xecute) (g.setexists f)) ∧
      (touchBoth g f (g.first f.xecute) (g.setexists f)).g.excess = g.excess := by
  have hpaired := h.consistent.paired _ _ t ht
  set k := g.first f.xecute with hk
  unfold touchBoth
  simp only [Gbl.trig_eq ht]
  set common := (computediff t.cmds (f.nonSet ∪ {S})).common with hcommon
  have hScommon : S ∈ common ↔ S ∈ t.cmds := by simp [hcommon, computediff]
  by_cases hc : common = ∅
  · -- without SET in common the line's SET does not exist
    have hfalse : g.setexists f = false := by
      rcases he with ⟨-, hd, -⟩ | ⟨hfalse, -⟩
      · rcases hpaired with ⟨hs, -⟩ | ⟨-, hnone, -⟩
        · exact absurd (hc ▸ hScommon.2 hs) (Finset.notMem_empty S)
        · rw [hd] at hnone
          cases hnone
      · exact hfalse
    rw [if_neg (not_not.2 hc), hfalse, if_neg (by simp)]
    exact ⟨⟨h, by simp [Out.upd, Out.write], by simp [Out.upd, Out.write], rfl⟩, rfl⟩
  · rw [if_pos hc]
    have hsub : t.cmds \ common ≠ t.cmds := by
      intro heq
      obtain ⟨c, hcc⟩ := Finset.nonempty_iff_ne_empty.2 hc
      have hct : c ∈ t.cmds := (Finset.mem_inter.1 hcc).1
      rw [← heq] at hct
      exact (Finset.mem_sdiff.1 hct).2 hcc
    by_cases hr : t.cmds \ common = ∅
    · rw [if_neg (not_not.2 hr)]
      obtain ⟨hwf, hget, htn⟩ := h.delete ht (d := f.delim) (p := f.pieces)
        (Or.inr ⟨he.imp (fun hx => hx.2) (fun hx => hx.2), rfl⟩)
      exact spec_deleted (m := .deleted f.part k) hwf ht hget rfl (by simp [Out.writeDeleted]) rfl
        rfl rfl htn
    · rw [if_pos hr]
      set t' : Trigger := { t with cmds := t.cmds \ common, pieces := none, delim := none } with ht'
      have hSrest : S ∉ t'.cmds := by
        intro hs
        obtain ⟨hst, hsc⟩ := Finset.mem_sdiff.1 hs
        exact hsc (hScommon.2 hst)
      have hwf : ((g.setTrig f.xecute k t').killIndex f.xecute f.delim f.pieces).WF := by
        rcases he with ⟨-, hd, hp⟩ | ⟨-, hnone, hindex⟩
        · exact h.leave ht hd hp hSrest (Finset.nonempty_iff_ne_empty.2 hr) rfl rfl hlow
        · have hplain : S ∉ t.cmds ∧ t.pieces = none := by
            rcases hpaired with ⟨-, d, p, hd, -⟩ | ⟨hs, -, hp⟩
            · rw [hnone] at hd
              cases hd
            · exact ⟨hs, hp⟩
          refine (h.modify (v := t') ht (Finset.nonempty_iff_ne_empty.2 hr)
            (iff_of_false hSrest hplain.1) hnone.symm hplain.2.symm (Or.inl hlow)).congr rfl ?_ rfl
            rfl
          rw [Gbl.killIndex_get, update_eq_self_iff]
          exact hindex.symm
      exact spec_modified (m := .modified f.part k) hwf ht (Gbl.setTrig_get g f.xecute k t')
        (fun heq => hsub (congrArg Trigger.cmds heq)) rfl (by simp [Out.writeModified]) rfl rfl rfl
        rfl

theorem delete_spec (h : g.WF) (hd : g.data f.xecute = true) :
    ∃ o, delete g f = some o ∧ Spec g o ∧ o.g.excess = g.excess := by
  obtain ⟨t, ht, hlow⟩ := h.first hd
  have hkill := fun say => touchKill_spec h hd (S_notMem_nonSet f) say
  unfold delete
  dsimp only
  cases hs : f.setspecified with
  | false =>
      obtain ⟨hspec, hexcess, -⟩ := hkill true
      exact ⟨_, rfl, hspec, hexcess⟩
  | true =>
      simp only [if_true]
      rcases setexists_cases h f with ⟨i, u, -, hexists, hindex, -, hu, hdelim, hpieces⟩ |
        ⟨hnew, hexists⟩
      · rw [hindex, hexists]
        by_cases hki : g.first f.xecute = i
        · subst hki
          obtain rfl : t = u := Option.some.inj (ht.symm.trans hu)
          have := touchBoth_spec h ht hlow (Or.inl ⟨hexists, hdelim, hpieces⟩)
          rw [hexists] at this
          rw [if_neg (not_not.2 rfl)]
          exact ⟨_, rfl, this⟩
        · have hlt : g.first f.xecute < i := by
            by_contra hle
            rw [hlow i (by omega)] at hu
            cases hu
          obtain ⟨hspec, hexcess, hother⟩ := hkill f.killspecified
          rw [if_pos hki, if_neg (by simp)]
          exact touchSet_spec hspec hexcess hu ((hother i (by omega)).trans hu)
            (h.consistent.lowest _ _ _ u hu (by simp [ht]) hlt) hdelim hpieces
      · by_cases hdelim : t.delim = none
        · have hindex : g.setindex f = g.first f.xecute := by
            unfold Gbl.setindex
            rw [Gbl.trig_eq ht, if_pos ⟨hexists, hdelim⟩]
          rw [hindex, if_neg (not_not.2 rfl)]
          exact ⟨_, rfl, touchBoth_spec h ht hlow (Or.inr ⟨hexists, hdelim, hnew⟩)⟩
        · have hindex : g.setindex f = 0 := by
            unfold Gbl.setindex
            rw [Gbl.trig_eq ht, if_neg fun hc => hdelim hc.2, hnew]
            rfl
          have hne : g.first f.xecute ≠ 0 := by
            have := (h.consistent.bound _ _ t ht).1
            omega
          obtain ⟨hspec, hexcess, -⟩ := hkill f.killspecified
          rw [hindex, if_pos hne, if_pos hexists]
          exact ⟨_, rfl, hspec.write _, hexcess⟩

end Delete

/-! ## 4. A line -/

/-- The line creates the first trigger of an xecute string. -/
def Creates (g : Gbl) (f : Fields) : Prop := f.add = true ∧ g.data f.xecute = false

/-- **A line.** It never halts; and `#TNCOUNT` goes with the number of triggers, but for the
    creation of a first trigger, where it becomes `#SEQNUM`. -/
theorem load_spec {g : Gbl} {f : Fields} (h : g.WF) (hf : f.cmds.Nonempty) :
    ∃ o, load g f = some o ∧ Spec g o ∧
      (Creates g f → o.g.tncount = g.seqnum + 1 ∧ o.g.trigs.size = g.trigs.size + 1) ∧
      (¬ Creates g f → o.g.excess = g.excess) := by
  unfold load Creates
  cases hadd : f.add with
  | true =>
      cases hd : g.data f.xecute with
      | true =>
          cases hs : f.setspecified with
          | true =>
              obtain ⟨hspec, hexcess⟩ := addSet_spec h hd
              exact ⟨_, rfl, hspec, by simp, fun _ => hexcess⟩
          | false =>
              obtain ⟨hspec, hexcess⟩ := addNonSet_spec h hd
              exact ⟨_, rfl, hspec, by simp, fun _ => hexcess⟩
      | false =>
          obtain ⟨hspec, htn, hsize⟩ := create_spec h hd hf
          exact ⟨_, rfl, hspec, fun _ => ⟨htn, hsize⟩, by simp⟩
  | false =>
      cases hd : g.data f.xecute with
      | true =>
          obtain ⟨o, ho, hspec, hexcess⟩ := delete_spec h hd
          exact ⟨o, by simpa using ho, hspec, by simp, fun _ => hexcess⟩
      | false =>
          exact ⟨_, rfl, ⟨h, by simp [Out.upd, Out.write], by simp [Out.upd, Out.write], rfl⟩,
            by simp, fun _ => rfl⟩

end YottaTest.Triggers
