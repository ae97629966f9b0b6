/-
  File:      YottaTest/Triggers/Hasht.lean
  Subject:   The trigger table of randomtriggers.m, `hasht(gvn)` for one global.

  Below `hasht(gvn,xecute)` stand the numbered triggers, each with its commands, options, delim and
  pieces, and under (delim,pieces) the number of the SET trigger that has them. Beside the xecute
  strings stand `#SEQNUM` and `#TNCOUNT`; 0 stands for a node that is not there.

  * `Trigger`, `Gbl`, `first`, `hashtdecrement`, `computediff` -- the table and what is done to it;
  * `Consistent` -- the well-formedness of triggers and index, as functions of the subscripts, with
    what a store (`Consistent.set`, `Consistent.modify`) and a kill (`Consistent.erase`) keep;
  * `Gbl.WF` -- a consistent table whose count is not below the number of triggers.
-/
import Mathlib.Data.Finset.Basic
import Mathlib.Logic.Function.Basic
import YottaTest.M.Strings
import YottaTest.Lib.Table

namespace YottaTest.Triggers

open Function YottaTest.M YottaTest.Lib

/-! ## 1. The table -/

/-- The command `S`. -/
def S : MStr := [.chr 83]

/-- `hasht(gvn,xecute,index)`; an array of names without values is the set of its subscripts. -/
structure Trigger where
  cmds : Finset MStr
  options : Finset MStr
  delim : Option MStr
  pieces : Option MStr
  deriving DecidableEq

/-- A node that is not there. -/
def Trigger.none : Trigger := ⟨∅, ∅, .none, .none⟩

/-- `hasht(gvn)`. -/
structure Gbl where
  seqnum : Nat
  tncount : Int
  /-- `hasht(gvn,xecute,index)` -/
  trigs : Table (MStr × Nat) Trigger
  /-- `hasht(gvn,xecute,delim,pieces)` -/
  index : Table (MStr × MStr × MStr) Nat

namespace Gbl

def empty : Gbl := ⟨0, 0, .empty, .empty⟩

/-- What is below `hasht(gvn,xecute,index)`. -/
def trig (g : Gbl) (x : MStr) (i : Nat) : Trigger := (g.trigs.get (x, i)).getD .none

def setTrig (g : Gbl) (x : MStr) (i : Nat) (t : Trigger) : Gbl :=
  { g with trigs := g.trigs.set (x, i) t }

/-- `kill hasht(gvn,xecute,index)` -/
def killTrig (g : Gbl) (x : MStr) (i : Nat) : Gbl := { g with trigs := g.trigs.erase (x, i) }

def setIndex (g : Gbl) (x delim pieces : MStr) (i : Nat) : Gbl :=
  { g with index := g.index.set (x, delim, pieces) i }

/-- `kill hasht(gvn,xecute,delim,pieces)` -/
def killIndex (g : Gbl) (x delim pieces : MStr) : Gbl :=
  { g with index := g.index.erase (x, delim, pieces) }

/-- `$data(hasht(gvn,xecute))` -/
def data (g : Gbl) (x : MStr) : Bool :=
  (g.trigs.entries.any fun e => e.1.1 = x) || g.index.entries.any fun e => e.1.1 = x

/-- `+$order(hasht(gvn,xecute,""))` -/
def first (g : Gbl) (x : MStr) : Nat :=
  ((g.trigs.entries.filterMap fun e => if e.1.1 = x then some e.1.2 else .none).min?).getD 0

/-- `hashtdecrement(gvn)` -/
def hashtdecrement (g : Gbl) : Gbl :=
  if g.tncount - 1 = 0 then empty else { g with tncount := g.tncount - 1 }

end Gbl

/-- What two arrays have in common, and what only one of them has. -/
structure Diff where
  common : Finset MStr
  uniq1 : Finset MStr
  uniq2 : Finset MStr

def computediff (x y : Finset MStr) : Diff := ⟨x ∩ y, x \ y, y \ x⟩

/-- `(0'=$data(uniq2))!(0'=$data(uniq1))` -/
def Diff.differ (d : Diff) : Bool := d.uniq2 ≠ ∅ || d.uniq1 ≠ ∅

theorem differ_eq_true {x y : Finset MStr} : (computediff x y).differ = true ↔ x ≠ y := by
  simp only [Diff.differ, computediff, ne_eq, Finset.sdiff_eq_empty_iff_subset, Bool.or_eq_true,
    decide_eq_true_eq]
  constructor
  · rintro (h | h) rfl
    · exact h (Finset.Subset.refl _)
    · exact h (Finset.Subset.refl _)
  · intro h
    by_cases hyx : y ⊆ x
    · exact Or.inr fun hxy => h (Finset.Subset.antisymm hxy hyx)
    · exact Or.inl hyx

/-! ## 2. Well-formed tables -/

/-- SET, delim and pieces stand together. -/
def Trigger.Paired (t : Trigger) : Prop :=
  (S ∈ t.cmds ∧ ∃ d p, t.delim = some d ∧ t.pieces = some p) ∨
    (S ∉ t.cmds ∧ t.delim = .none ∧ t.pieces = .none)

/-- **The triggers of a global and their index fit together**; no number is above `n`. -/
structure Consistent (T : MStr × Nat → Option Trigger) (I : MStr × MStr × MStr → Option Nat)
    (n : Nat) : Prop where
  cmds : ∀ x i t, T (x, i) = some t → t.cmds.Nonempty
  lowest : ∀ x i j t, T (x, i) = some t → T (x, j) ≠ none → j < i → t.cmds ⊆ {S}
  paired : ∀ x i t, T (x, i) = some t → t.Paired
  index : ∀ x d p i, I (x, d, p) = some i ↔
    ∃ t, T (x, i) = some t ∧ t.delim = some d ∧ t.pieces = some p
  bound : ∀ x i t, T (x, i) = some t → 1 ≤ i ∧ i ≤ n
  names : ∀ x y i, T (x, i) ≠ none → T (y, i) ≠ none → x = y

theorem Consistent.empty (n : Nat) : Consistent (fun _ => none) (fun _ => none) n := by
  constructor <;> simp

section Steps

variable {T : MStr × Nat → Option Trigger} {I I' : MStr × MStr × MStr → Option Nat} {n n' : Nat}
  {x : MStr} {i : Nat} {t v : Trigger}

/-- **A trigger is stored.** -/
theorem Consistent.set (h : Consistent T I n) (hcmds : v.cmds.Nonempty) (hpaired : v.Paired)
    (hlow : (∀ j < i, T (x, j) = none) ∨ v.cmds ⊆ {S})
    (hhigh : ∀ j u, i < j → T (x, j) = some u → u.cmds ⊆ {S})
    (hindex : ∀ y d p j, I' (y, d, p) = some j ↔
      if (y, j) = (x, i) then v.delim = some d ∧ v.pieces = some p else I (y, d, p) = some j)
    (hbound : 1 ≤ i ∧ i ≤ n') (hn : n ≤ n') (hname : ∀ y, y ≠ x → T (y, i) = none) :
    Consistent (update T (x, i) (some v)) I' n' := by
  have hget : ∀ y j u, update T (x, i) (some v) (y, j) = some u →
      (y, j) = (x, i) ∧ u = v ∨ (y, j) ≠ (x, i) ∧ T (y, j) = some u := by
    intro y j u hu
    by_cases he : (y, j) = (x, i)
    · rw [he, update_self, Option.some.injEq] at hu
      exact Or.inl ⟨he, hu.symm⟩
    · rw [update_of_ne he] at hu
      exact Or.inr ⟨he, hu⟩
  constructor
  case cmds =>
    intro y j u hu
    rcases hget y j u hu with ⟨-, rfl⟩ | ⟨-, hu⟩
    · exact hcmds
    · exact h.cmds y j u hu
  case lowest =>
    intro y j k u hu hk hkj
    rcases hget y j u hu with ⟨he, rfl⟩ | ⟨he, hold⟩
    · obtain ⟨rfl, rfl⟩ := Prod.mk.inj he
      rw [update_of_ne (by simp; omega)] at hk
      exact hlow.resolve_left fun hnone => hk (hnone k hkj)
    · by_cases hek : (y, k) = (x, i)
      · obtain ⟨rfl, rfl⟩ := Prod.mk.inj hek
        exact hhigh j u hkj hold
      · rw [update_of_ne hek] at hk
        exact h.lowest y j k u hold hk hkj
  case paired =>
    intro y j u hu
    rcases hget y j u hu with ⟨-, rfl⟩ | ⟨-, hu⟩
    · exact hpaired
    · exact h.paired y j u hu
  case index =>
    intro y d p j
    rw [hindex]
    by_cases he : (y, j) = (x, i)
    · rw [if_pos he, he, update_self]
      simp
    · rw [if_neg he, update_of_ne he]
      exact h.index y d p j
  case bound =>
    intro y j u hu
    rcases hget y j u hu with ⟨he, -⟩ | ⟨-, hu⟩
    · obtain ⟨-, rfl⟩ := Prod.mk.inj he
      exact hbound
    · have := h.bound y j u hu
      omega
  case names =>
    intro y z j hy hz
    by_cases hj : j = i
    · subst hj
      have heq : ∀ w, update T (x, j) (some v) (w, j) ≠ none → w = x := by
        intro w hw
        by_contra hne
        rw [update_of_ne (by simp [hne]), hname w hne] at hw
        exact hw rfl
      rw [heq y hy, heq z hz]
    · rw [update_of_ne (by simp [hj])] at hy hz
      exact h.names y z j hy hz

/-- **A trigger is killed.** -/
theorem Consistent.erase (h : Consistent T I n)
    (hindex : ∀ y d p j, I' (y, d, p) = some j ↔ (y, j) ≠ (x, i) ∧ I (y, d, p) = some j) :
    Consistent (update T (x, i) none) I' n := by
  have hget : ∀ y j, update T (x, i) none (y, j) ≠ none →
      (y, j) ≠ (x, i) ∧ update T (x, i) none (y, j) = T (y, j) := by
    intro y j hu
    have he : (y, j) ≠ (x, i) := fun he => hu (by rw [he, update_self])
    exact ⟨he, update_of_ne he _ _⟩
  have hsome : ∀ y j u, update T (x, i) none (y, j) = some u → T (y, j) = some u := by
    intro y j u hu
    rw [← hu]
    exact (hget y j (by simp [hu])).2.symm
  have hne : ∀ y j, update T (x, i) none (y, j) ≠ none → T (y, j) ≠ none := by
    intro y j hu
    rw [← (hget y j hu).2]
    exact hu
  constructor
  case cmds => exact fun y j u hu => h.cmds y j u (hsome y j u hu)
  case lowest => exact fun y j k u hu hk => h.lowest y j k u (hsome y j u hu) (hne y k hk)
  case paired => exact fun y j u hu => h.paired y j u (hsome y j u hu)
  case index =>
    intro y d p j
    rw [hindex, h.index]
    by_cases he : (y, j) = (x, i)
    · simp [he]
    · simp [he]
  case bound => exact fun y j u hu => h.bound y j u (hsome y j u hu)
  case names => exact fun y z j hy hz => h.names y z j (hne y j hy) (hne z j hz)

/-- **A trigger that is there is replaced.** -/
theorem Consistent.modify (h : Consistent T I n) (ht : T (x, i) = some t)
    (hcmds : v.cmds.Nonempty) (hpaired : v.Paired)
    (hlow : (∀ j < i, T (x, j) = none) ∨ v.cmds ⊆ {S})
    (hindex : ∀ y d p j, I' (y, d, p) = some j ↔
      if (y, j) = (x, i) then v.delim = some d ∧ v.pieces = some p else I (y, d, p) = some j) :
    Consistent (update T (x, i) (some v)) I' n := by
  refine h.set hcmds hpaired hlow ?_ hindex (h.bound x i t ht) le_rfl ?_
  · exact fun j u hj hu => h.lowest x j i u hu (by simp [ht]) hj
  · intro y hy
    by_contra hne
    exact hy (h.names y x i hne (by simp [ht]))

/-- The index of a trigger. -/
theorem Consistent.index_of (h : Consistent T I n) (ht : T (x, i) = some t) (d p : MStr) :
    I (x, d, p) = some i ↔ t.delim = some d ∧ t.pieces = some p := by
  rw [h.index]
  simp [ht]

/-- No two triggers with SET share delim and pieces. -/
theorem Consistent.index_inj (h : Consistent T I n) {j : Nat} {u : Trigger}
    (ht : T (x, i) = some t) (hu : T (x, j) = some u) (hdelim : u.delim = t.delim)
    (hpieces : u.pieces = t.pieces) (hs : S ∈ t.cmds) : i = j := by
  rcases h.paired x i t ht with ⟨-, d, p, hd, hp⟩ | ⟨hno, -⟩
  · have h1 := (h.index_of ht d p).2 ⟨hd, hp⟩
    have h2 := (h.index_of hu d p).2 ⟨hdelim.trans hd, hpieces.trans hp⟩
    rw [h1] at h2
    exact Option.some.inj h2
  · exact absurd hs hno

end Steps

/-! ## 3. Well-formed globals -/

namespace Gbl

variable {g : Gbl} {x d p : MStr} {i : Nat} {t v : Trigger}

@[simp] theorem setTrig_get (g : Gbl) (x : MStr) (i : Nat) (t : Trigger) :
    (g.setTrig x i t).trigs.get = update g.trigs.get (x, i) (some t) := by
  funext k
  rw [update_apply]
  exact Table.get_set _ _ _ _

@[simp] theorem killTrig_get (g : Gbl) (x : MStr) (i : Nat) :
    (g.killTrig x i).trigs.get = update g.trigs.get (x, i) none := by
  funext k
  rw [update_apply]
  exact Table.get_erase _ _ _

@[simp] theorem setIndex_get (g : Gbl) (x d p : MStr) (i : Nat) :
    (g.setIndex x d p i).index.get = update g.index.get (x, d, p) (some i) := by
  funext k
  rw [update_apply]
  exact Table.get_set _ _ _ _

@[simp] theorem killIndex_get (g : Gbl) (x d p : MStr) :
    (g.killIndex x d p).index.get = update g.index.get (x, d, p) none := by
  funext k
  rw [update_apply]
  exact Table.get_erase _ _ _

theorem size_of_store {g' : Gbl} (ht : g.trigs.get (x, i) = some t)
    (hget : g'.trigs.get = update g.trigs.get (x, i) (some v)) : g'.trigs.size = g.trigs.size :=
  (Table.size_congr (congrFun (hget.trans (setTrig_get g x i v).symm))).trans
    (Table.size_set_of_some ht v)

theorem size_of_kill {g' : Gbl} (ht : g.trigs.get (x, i) = some t)
    (hget : g'.trigs.get = update g.trigs.get (x, i) none) : g'.trigs.size + 1 = g.trigs.size :=
  (congrArg (· + 1) (Table.size_congr (congrFun (hget.trans (killTrig_get g x i).symm)))).trans
    (Table.size_erase_of_some ht)

theorem trig_eq (h : g.trigs.get (x, i) = some t) : g.trig x i = t := by
  rw [trig, h]
  rfl

theorem mem_numbers (g : Gbl) (x : MStr) (i : Nat) :
    i ∈ (g.trigs.entries.filterMap fun e => if e.1.1 = x then some e.1.2 else none) ↔
      g.trigs.get (x, i) ≠ none := by
  rw [List.mem_filterMap, ← Option.isSome_iff_ne_none, Option.isSome_iff_exists]
  constructor
  · rintro ⟨⟨⟨y, j⟩, u⟩, he, hj⟩
    obtain ⟨rfl, heq⟩ := Option.ite_none_right_eq_some.1 hj
    exact ⟨u, (Table.mem_entries_iff _ _ _).1 (Option.some.inj heq ▸ he)⟩
  · rintro ⟨u, hu⟩
    exact ⟨((x, i), u), (Table.mem_entries_iff _ _ _).2 hu, if_pos rfl⟩

/-- **`$order` finds the lowest number.** -/
theorem first_spec (h : g.trigs.get (x, i) ≠ none) :
    g.trigs.get (x, g.first x) ≠ none ∧ ∀ j, g.trigs.get (x, j) ≠ none → g.first x ≤ j := by
  have hi := (mem_numbers g x i).2 h
  unfold first
  cases hmin : (g.trigs.entries.filterMap fun e => if e.1.1 = x then some e.1.2 else none).min? with
  | none => exact absurd hi (List.min?_eq_none_iff.1 hmin ▸ List.not_mem_nil)
  | some m =>
      obtain ⟨hm, hle⟩ := List.min?_eq_some_iff.1 hmin
      exact ⟨(mem_numbers g x m).1 hm, fun j hj => hle j ((mem_numbers g x j).2 hj)⟩

/-- **A table of a global is well-formed.** -/
structure WF (g : Gbl) : Prop where
  consistent : Consistent g.trigs.get g.index.get g.seqnum
  count : (g.trigs.size : Int) ≤ g.tncount
  /-- Without a count there is no sequence. -/
  dropped : g.tncount = 0 → g.seqnum = 0

/-- There are no more triggers than numbers given. -/
theorem WF.size_le (h : g.WF) : g.trigs.size ≤ g.seqnum := by
  have hinj : (g.trigs.entries.map fun e => e.1.2).Nodup := by
    refine List.Nodup.map_on ?_ g.trigs.nodup.of_map
    rintro ⟨⟨y, i⟩, t⟩ ht ⟨⟨z, j⟩, u⟩ hu hij
    obtain rfl : i = j := hij
    rw [Table.mem_entries_iff] at ht hu
    obtain rfl := h.consistent.names y z i (by simp [ht]) (by simp [hu])
    rw [ht, Option.some.injEq] at hu
    rw [hu]
  have hsub : (g.trigs.entries.map fun e => e.1.2) ⊆ List.range' 1 g.seqnum := by
    intro i hi
    obtain ⟨⟨⟨y, j⟩, t⟩, ht, rfl⟩ := List.mem_map.1 hi
    have := h.consistent.bound y j t ((Table.mem_entries_iff _ _ _).1 ht)
    refine List.mem_range'_1.2 ⟨this.1, ?_⟩
    show j < 1 + g.seqnum
    omega
  have := (hinj.subperm hsub).length_le
  rwa [List.length_map, List.length_range'] at this

theorem wf_empty : empty.WF := ⟨Consistent.empty 0, le_rfl, fun _ => rfl⟩

/-- Well-formedness is a matter of what the lookups give. -/
theorem WF.congr {g' : Gbl} (h : g.WF) (htrigs : g'.trigs.get = g.trigs.get)
    (hindex : g'.index.get = g.index.get) (hseq : g'.seqnum = g.seqnum)
    (htn : g'.tncount = g.tncount) : g'.WF where
  consistent := by
    rw [htrigs, hindex, hseq]
    exact h.consistent
  count := by
    rw [Table.size_congr (congrFun htrigs), htn]
    exact h.count
  dropped := by
    rw [htn, hseq]
    exact h.dropped

/-- `$data` of an xecute string: it has a trigger. -/
theorem WF.data (h : g.WF) : g.data x = true ↔ ∃ i, g.trigs.get (x, i) ≠ none := by
  unfold Gbl.data
  simp only [Bool.or_eq_true, List.any_eq_true, decide_eq_true_eq]
  constructor
  · rintro (⟨⟨⟨y, i⟩, t⟩, he, rfl⟩ | ⟨⟨⟨y, d, p⟩, i⟩, he, rfl⟩)
    · exact ⟨i, by rw [(Table.mem_entries_iff _ _ _).1 he]; simp⟩
    · obtain ⟨t, ht, -⟩ := (h.consistent.index y d p i).1 ((Table.mem_entries_iff _ _ _).1 he)
      exact ⟨i, by rw [ht]; simp⟩
  · rintro ⟨i, hi⟩
    obtain ⟨t, ht⟩ := Option.ne_none_iff_exists'.1 hi
    exact Or.inl ⟨((x, i), t), (Table.mem_entries_iff _ _ _).2 ht, rfl⟩

/-- Its lowest trigger. -/
theorem WF.first (h : g.WF) (hd : g.data x = true) : ∃ t, g.trigs.get (x, g.first x) = some t ∧
    ∀ j < g.first x, g.trigs.get (x, j) = none := by
  obtain ⟨i, hi⟩ := h.data.1 hd
  obtain ⟨hsome, hle⟩ := first_spec hi
  obtain ⟨t, ht⟩ := Option.ne_none_iff_exists'.1 hsome
  refine ⟨t, ht, fun j hj => ?_⟩
  by_contra hne
  exact absurd (hle j hne) (by omega)

theorem WF.count_store (h : g.WF) (ht : g.trigs.get (x, i) = some t) :
    ((g.trigs.set (x, i) v).size : Int) ≤ g.tncount := by
  rw [Table.size_set_of_some ht]
  exact h.count

/-- Commands and options of a trigger change, its delim and pieces do not. -/
theorem WF.modify (h : g.WF) (ht : g.trigs.get (x, i) = some t) (hcmds : v.cmds.Nonempty)
    (hs : S ∈ v.cmds ↔ S ∈ t.cmds) (hdelim : v.delim = t.delim) (hpieces : v.pieces = t.pieces)
    (hlow : (∀ j < i, g.trigs.get (x, j) = none) ∨ v.cmds ⊆ {S}) : (g.setTrig x i v).WF where
  consistent := by
    rw [setTrig_get]
    refine h.consistent.modify ht hcmds ?_ hlow fun y d p j => ?_
    · unfold Trigger.Paired
      rw [hs, hdelim, hpieces]
      exact h.consistent.paired x i t ht
    · show g.index.get (y, d, p) = some j ↔ _
      split
      · rename_i he
        obtain ⟨rfl, rfl⟩ := Prod.mk.inj he
        rw [hdelim, hpieces]
        exact h.consistent.index_of ht d p
      · rfl
  count := h.count_store ht
  dropped := h.dropped

/-- A trigger without SET gets one. -/
theorem WF.join (h : g.WF) (ht : g.trigs.get (x, i) = some t) (hnew : g.index.get (x, d, p) = none)
    (hnone : t.delim = none) (hs : S ∈ v.cmds) (hdelim : v.delim = some d)
    (hpieces : v.pieces = some p) (hlow : ∀ j < i, g.trigs.get (x, j) = none) :
    ((g.setIndex x d p i).setTrig x i v).WF where
  consistent := by
    rw [setTrig_get]
    refine h.consistent.modify ht ⟨S, hs⟩ (Or.inl ⟨hs, d, p, hdelim, hpieces⟩) (Or.inl hlow) ?_
    intro y d' p' j
    show (g.setIndex x d p i).index.get (y, d', p') = some j ↔ _
    rw [setIndex_get, hdelim, hpieces]
    by_cases hkey : (y, d', p') = (x, d, p)
    · simp only [Prod.mk.injEq] at hkey
      obtain ⟨rfl, rfl, rfl⟩ := hkey
      rw [update_self, hnew]
      by_cases hj : j = i
      · simp [hj]
      · simp [hj, Ne.symm hj]
    · rw [update_of_ne hkey]
      split
      · rename_i he
        obtain ⟨rfl, rfl⟩ := Prod.mk.inj he
        rw [h.consistent.index_of ht, hnone]
        simp only [Prod.mk.injEq, true_and, not_and] at hkey
        simp only [reduceCtorEq, false_and, Option.some.injEq, false_iff, not_and]
        exact fun h1 h2 => hkey h1.symm h2.symm
      · rfl
  count := h.count_store ht
  dropped := h.dropped

/-- A trigger with SET and other commands loses SET. -/
theorem WF.leave (h : g.WF) (ht : g.trigs.get (x, i) = some t) (hd : t.delim = some d)
    (hp : t.pieces = some p) (hs : S ∉ v.cmds) (hcmds : v.cmds.Nonempty)
    (hdelim : v.delim = none) (hpieces : v.pieces = none)
    (hlow : ∀ j < i, g.trigs.get (x, j) = none) : ((g.setTrig x i v).killIndex x d p).WF where
  consistent := by
    show Consistent (g.setTrig x i v).trigs.get _ _
    rw [setTrig_get]
    refine h.consistent.modify ht hcmds (Or.inr ⟨hs, hdelim, hpieces⟩) (Or.inl hlow) ?_
    intro y d' p' j
    rw [killIndex_get, hdelim]
    show update g.index.get (x, d, p) none (y, d', p') = some j ↔ _
    have hown := (h.consistent.index_of ht d p).2 ⟨hd, hp⟩
    by_cases hkey : (y, d', p') = (x, d, p)
    · simp only [Prod.mk.injEq] at hkey
      obtain ⟨rfl, rfl, rfl⟩ := hkey
      rw [update_self, hown]
      by_cases hj : j = i
      · simp [hj]
      · simp [hj, Ne.symm hj]
    · rw [update_of_ne hkey]
      split
      · rename_i he
        obtain ⟨rfl, rfl⟩ := Prod.mk.inj he
        rw [h.consistent.index_of ht, hd, hp]
        simp only [Prod.mk.injEq, true_and, not_and] at hkey
        simp only [Option.some.injEq, reduceCtorEq, false_and, iff_false, not_and]
        exact fun h1 h2 => hkey h1.symm h2.symm
      · rfl
  count := h.count_store ht
  dropped := h.dropped

/-- A trigger is created, with the next number. -/
theorem WF.create (h : g.WF) {n : Int} (hn : g.trigs.size + 1 ≤ n) (hcmds : v.cmds.Nonempty)
    (hlow : (∀ j, g.trigs.get (x, j) = none) ∨ v.cmds ⊆ {S}) {index : Table (MStr × MStr × MStr) Nat}
    (hindex : (S ∈ v.cmds ∧ v.delim = some d ∧ v.pieces = some p ∧
        g.index.get (x, d, p) = none ∧ index = g.index.set (x, d, p) (g.seqnum + 1)) ∨
      (S ∉ v.cmds ∧ v.delim = none ∧ v.pieces = none ∧ index = g.index)) :
    WF ⟨g.seqnum + 1, n, g.trigs.set (x, g.seqnum + 1) v, index⟩ := by
  have hfresh : ∀ y, g.trigs.get (y, g.seqnum + 1) = none := by
    intro y
    by_contra hne
    obtain ⟨u, hu⟩ := Option.ne_none_iff_exists'.1 hne
    have := (h.consistent.bound y _ u hu).2
    omega
  constructor
  case consistent =>
    have hget : (g.trigs.set (x, g.seqnum + 1) v).get =
        update g.trigs.get (x, g.seqnum + 1) (some v) := setTrig_get g x (g.seqnum + 1) v
    show Consistent (g.trigs.set (x, g.seqnum + 1) v).get index.get (g.seqnum + 1)
    rw [hget]
    refine h.consistent.set hcmds ?_ (hlow.imp_left fun hl j _ => hl j) ?_ ?_ ⟨by omega, le_rfl⟩
      (by omega) fun y _ => hfresh y
    · rcases hindex with ⟨hs, hd, hp, -⟩ | ⟨hs, hd, hp, -⟩
      · exact Or.inl ⟨hs, d, p, hd, hp⟩
      · exact Or.inr ⟨hs, hd, hp⟩
    · intro j u hj hu
      have := (h.consistent.bound x j u hu).2
      omega
    · intro y d' p' j
      have hold : g.index.get (y, d', p') ≠ some (g.seqnum + 1) := by
        intro hi
        obtain ⟨u, hu, -⟩ := (h.consistent.index y d' p' _).1 hi
        rw [hfresh] at hu
        cases hu
      rcases hindex with ⟨hs, hd, hp, hnone, rfl⟩ | ⟨hs, hd, hp, rfl⟩
      · rw [Table.get_set, hd, hp]
        by_cases hkey : (y, d', p') = (x, d, p)
        · simp only [Prod.mk.injEq] at hkey
          obtain ⟨rfl, rfl, rfl⟩ := hkey
          rw [if_pos rfl, hnone]
          by_cases hj : j = g.seqnum + 1
          · simp [hj]
          · simp [hj, Ne.symm hj]
        · rw [if_neg hkey]
          split
          · rename_i he
            obtain ⟨rfl, rfl⟩ := Prod.mk.inj he
            simp only [Prod.mk.injEq, true_and, not_and] at hkey
            simp only [hold, Option.some.injEq, false_iff, not_and]
            exact fun h1 h2 => hkey h1.symm h2.symm
          · rfl
      · rw [hd]
        split
        · rename_i he
          obtain ⟨rfl, rfl⟩ := Prod.mk.inj he
          simp [hold]
        · rfl
  case count =>
    show ((g.trigs.set (x, g.seqnum + 1) v).size : Int) ≤ n
    rw [Table.size_set_of_none (hfresh x)]
    exact_mod_cast hn
  case dropped =>
    intro hz
    have hz : n = 0 := hz
    omega

/-- The count goes down by one, and nothing is lost with it. -/
theorem hashtdecrement_spec (hcount : (g.trigs.size : Int) ≤ g.tncount - 1) :
    g.hashtdecrement.trigs.get = g.trigs.get ∧ g.hashtdecrement.tncount = g.tncount - 1 ∧
      (g.hashtdecrement = empty ∧ g.tncount = 1 ∨
        g.hashtdecrement = { g with tncount := g.tncount - 1 } ∧ g.tncount ≠ 1) := by
  unfold hashtdecrement
  by_cases hz : g.tncount - 1 = 0
  · rw [if_pos hz]
    refine ⟨?_, hz.symm, Or.inl ⟨rfl, by omega⟩⟩
    funext k
    have hsize : g.trigs.size = 0 := by omega
    rw [Table.size_eq_zero.1 hsize k]
    rfl
  · rw [if_neg hz]
    exact ⟨rfl, rfl, Or.inr ⟨rfl, by omega⟩⟩

/-- **A trigger is deleted**: killed, the count decremented, and its index entry killed if it has
    one. -/
theorem WF.delete (h : g.WF) (ht : g.trigs.get (x, i) = some t) {g' : Gbl}
    (hg' : (t.delim = none ∧ g' = (g.killTrig x i).hashtdecrement) ∨
      ((t.delim = some d ∧ t.pieces = some p ∨ t.delim = none ∧ g.index.get (x, d, p) = none) ∧
        g' = (g.killTrig x i).hashtdecrement.killIndex x d p)) :
    g'.WF ∧ g'.trigs.get = update g.trigs.get (x, i) none ∧ g'.tncount = g.tncount - 1 := by
  have hsize : (g.killTrig x i).trigs.size + 1 = g.trigs.size := Table.size_erase_of_some ht
  have hcount : ((g.killTrig x i).trigs.size : Int) ≤ (g.killTrig x i).tncount - 1 := by
    have := h.count
    show ((g.killTrig x i).trigs.size : Int) ≤ g.tncount - 1
    omega
  obtain ⟨htrigs, htn, hcase⟩ := hashtdecrement_spec hcount
  rw [killTrig_get] at htrigs
  have hgtn : (g.killTrig x i).tncount = g.tncount := rfl
  -- the index after the kills, when the sequence goes on
  have hindex : ∀ {I' : MStr × MStr × MStr → Option Nat},
      (t.delim = none ∧ I' = g.index.get) ∨
        ((t.delim = some d ∧ t.pieces = some p ∨ t.delim = none ∧ g.index.get (x, d, p) = none) ∧
          I' = update g.index.get (x, d, p) none) →
      ∀ y d' p' j, I' (y, d', p') = some j ↔ (y, j) ≠ (x, i) ∧ g.index.get (y, d', p') = some j := by
    intro I' hI' y d' p' j
    have hown := h.consistent.index_of ht
    rcases hI' with ⟨hnone, rfl⟩ | ⟨hdp, rfl⟩
    · constructor
      · intro hj
        refine ⟨fun he => ?_, hj⟩
        obtain ⟨rfl, rfl⟩ := Prod.mk.inj he
        rw [hown, hnone] at hj
        cases hj.1
      · exact fun hj => hj.2
    · by_cases hkey : (y, d', p') = (x, d, p)
      · simp only [Prod.mk.injEq] at hkey
        obtain ⟨rfl, rfl, rfl⟩ := hkey
        rw [update_self]
        rcases hdp with hdp | ⟨-, hnone⟩
        · rw [(hown d' p').2 hdp]
          simp
          exact fun hne he => hne he.symm
        · simp [hnone]
      · rw [update_of_ne hkey]
        constructor
        · intro hj
          refine ⟨fun he => ?_, hj⟩
          obtain ⟨rfl, rfl⟩ := Prod.mk.inj he
          obtain ⟨hd', hp'⟩ := (hown d' p').1 hj
          rcases hdp with ⟨hd, hp⟩ | ⟨hnone, -⟩
          · rw [hd, Option.some.injEq] at hd'
            rw [hp, Option.some.injEq] at hp'
            exact hkey (by rw [hd', hp'])
          · rw [hnone] at hd'
            cases hd'
        · exact fun hj => hj.2
  have hdata : g'.trigs = (g.killTrig x i).hashtdecrement.trigs ∧
      g'.tncount = (g.killTrig x i).hashtdecrement.tncount := by
    rcases hg' with ⟨-, rfl⟩ | ⟨-, rfl⟩
    · exact ⟨rfl, rfl⟩
    · exact ⟨rfl, rfl⟩
  have hget : g'.trigs.get = update g.trigs.get (x, i) none := by rw [hdata.1, htrigs]
  refine ⟨?_, hget, by rw [hdata.2, htn, hgtn]⟩
  constructor
  case consistent =>
    rw [hget]
    rcases hcase with ⟨hempty, -⟩ | ⟨hkept, -⟩
    · have hnone : g'.index.get = fun _ => none := by
        rcases hg' with ⟨-, rfl⟩ | ⟨-, rfl⟩
        · rw [hempty]
          rfl
        · rw [killIndex_get, hempty]
          funext k
          rw [update_apply]
          split <;> rfl
      have htnone : update g.trigs.get (x, i) none = fun _ => none := by
        rw [← htrigs, hempty]
        rfl
      rw [hnone, htnone]
      exact Consistent.empty _
    · have hseq : g'.seqnum = g.seqnum := by
        rcases hg' with ⟨-, rfl⟩ | ⟨-, rfl⟩
        · rw [hkept]
          rfl
        · show (g.killTrig x i).hashtdecrement.seqnum = _
          rw [hkept]
          rfl
      rw [hseq]
      refine h.consistent.erase (hindex ?_)
      rcases hg' with ⟨hnone, rfl⟩ | ⟨hdp, rfl⟩
      · exact Or.inl ⟨hnone, by rw [hkept]; rfl⟩
      · exact Or.inr ⟨hdp, by rw [killIndex_get, hkept]; rfl⟩
  case count =>
    have hz : g'.trigs.size = (g.killTrig x i).trigs.size :=
      Table.size_congr fun k => by rw [hget, killTrig_get]
    rw [hz, hdata.2, htn]
    exact hcount
  case dropped =>
    intro hzero
    rw [hdata.2, htn] at hzero
    rcases hcase with ⟨hempty, -⟩ | ⟨-, hne⟩
    · rcases hg' with ⟨-, rfl⟩ | ⟨-, rfl⟩
      · rw [hempty]
        rfl
      · show (g.killTrig x i).hashtdecrement.seqnum = 0
        rw [hempty]
        rfl
    · exact absurd (by omega) hne

end Gbl

end YottaTest.Triggers
