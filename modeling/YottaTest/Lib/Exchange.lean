/-
  File:      YottaTest/Lib/Exchange.lean
  Subject:   Ordering a list by exchanges.

  Some members of a list need others before them. As long as a member stands before one it needs, the
  first such pair changes places and the search starts again.

  * `swapWith`, `exchange`, `exchangeAll` -- one exchange, and all of them, with fuel;
  * `exchange_eq_none`, `exchangeAll_perm`, `exchangeAll_sorted` -- what the result is;
    `exchangeAll_of_le` -- with more fuel it is the same;
  * `Before`, `exchange_weight` -- an exchange makes the ranks smaller, read as digits;
  * `exchangeAll_terminates_iff` -- **the exchanges come to an end exactly if nothing needs itself
    through others.**
-/
import Mathlib.Algebra.Group.Nat.Defs
import Mathlib.Data.List.Nodup
import Mathlib.Logic.Relation
import YottaTest.Lib.Run

namespace YottaTest.Lib

section Exchange

variable {α : Type} (needs : α → α → Bool)

/-- The first member after `x` that it needs, and the rest with `x` in its place. -/
def swapWith (x : α) : List α → Option (α × List α)
  | [] => none
  | y :: rest =>
      if needs x y then some (y, x :: rest) else (swapWith x rest).map fun p => (p.1, y :: p.2)

/-- The first exchange. -/
def exchange : List α → Option (List α)
  | [] => none
  | x :: rest => match swapWith needs x rest with
    | some p => some (p.1 :: p.2)
    | none => (exchange rest).map (x :: ·)

/-- Exchanges until there is none. -/
def exchangeAll : Nat → List α → Option (List α)
  | 0, _ => none
  | fuel + 1, l => match exchange needs l with
    | some l' => exchangeAll fuel l'
    | none => some l

/-! ## 1. The result -/

theorem swapWith_spec {x : α} : ∀ {l : List α} {p : α × List α}, swapWith needs x l = some p →
    needs x p.1 = true ∧ p.1 ∈ l ∧ p.2.length = l.length ∧ (p.1 :: p.2).Perm (x :: l)
  | [], _, h => by cases h
  | y :: rest, p, h => by
      rw [swapWith] at h
      split at h
      · rename_i hy
        obtain rfl := Option.some.inj h
        exact ⟨hy, List.mem_cons_self, rfl, List.Perm.swap x y rest⟩
      · obtain ⟨q, hq, rfl⟩ := Option.map_eq_some_iff.1 h
        obtain ⟨hneeds, hmem, hlen, hperm⟩ := swapWith_spec hq
        refine ⟨hneeds, List.mem_cons_of_mem y hmem, by simp [hlen], ?_⟩
        calc q.1 :: y :: q.2
          _ |>.Perm (y :: q.1 :: q.2) := List.Perm.swap y q.1 q.2
          _ |>.Perm (y :: x :: rest) := hperm.cons y
          _ |>.Perm (x :: y :: rest) := List.Perm.swap x y rest

theorem swapWith_eq_none {x : α} : ∀ {l : List α},
    swapWith needs x l = none ↔ ∀ y ∈ l, needs x y = false
  | [] => by simp [swapWith]
  | y :: rest => by
      have ih := @swapWith_eq_none x rest
      rw [swapWith]
      cases hy : needs x y with
      | true => simp [hy]
      | false => simp [hy, ih]

/-- **There is no exchange exactly if nothing stands before what it needs.** -/
theorem exchange_eq_none : ∀ {l : List α},
    exchange needs l = none ↔ l.Pairwise fun x y => needs x y = false
  | [] => by simp [exchange]
  | x :: rest => by
      rw [exchange, List.pairwise_cons, ← swapWith_eq_none, ← exchange_eq_none]
      cases swapWith needs x rest with
      | some p => simp
      | none => simp

theorem exchange_perm : ∀ {l l' : List α}, exchange needs l = some l' → l'.Perm l
  | [], _, h => by cases h
  | x :: rest, l', h => by
      rw [exchange] at h
      split at h
      · rename_i p hp
        obtain rfl := Option.some.inj h
        exact (swapWith_spec needs hp).2.2.2
      · obtain ⟨rest', hrest, rfl⟩ := Option.map_eq_some_iff.1 h
        exact (exchange_perm hrest).cons x

theorem exchangeAll_perm : ∀ {fuel : Nat} {l l' : List α}, exchangeAll needs fuel l = some l' →
    l'.Perm l
  | 0, _, _, h => by cases h
  | fuel + 1, l, l', h => by
      rw [exchangeAll] at h
      split at h
      · rename_i l'' hl
        exact (exchangeAll_perm h).trans (exchange_perm needs hl)
      · obtain rfl := Option.some.inj h
        exact List.Perm.refl _

theorem exchangeAll_sorted : ∀ {fuel : Nat} {l l' : List α}, exchangeAll needs fuel l = some l' →
    l'.Pairwise fun x y => needs x y = false
  | 0, _, _, h => by cases h
  | fuel + 1, l, l', h => by
      rw [exchangeAll] at h
      split at h
      · exact exchangeAll_sorted h
      · rename_i hl
        obtain rfl := Option.some.inj h
        exact (exchange_eq_none needs).1 hl

/-- More fuel changes nothing. -/
theorem exchangeAll_of_le : ∀ {fuel n : Nat} {l l' : List α}, fuel ≤ n →
    exchangeAll needs fuel l = some l' → exchangeAll needs n l = some l'
  | 0, _, _, _, _, h => by cases h
  | fuel + 1, 0, _, _, hle, _ => absurd hle (Nat.not_succ_le_zero fuel)
  | fuel + 1, n + 1, l, l', hle, h => by
      rw [exchangeAll] at h ⊢
      split at h
      · exact exchangeAll_of_le (Nat.le_of_succ_le_succ hle) h
      · exact h

/-! ## 2. When it ends -/

/-- `y` and `x` are different members, and `x` needs `y`. -/
def Before (l : List α) (y x : α) : Prop := y ∈ l ∧ x ∈ l ∧ y ≠ x ∧ needs x y = true

/-- Ranks read as digits of a base, the first one the highest. -/
def weight (base : Nat) : List Nat → Nat
  | [] => 0
  | d :: ds => d * base ^ ds.length + weight base ds

theorem weight_lt {base : Nat} : ∀ {ds : List Nat}, (∀ d ∈ ds, d < base) →
    weight base ds < base ^ ds.length
  | [], _ => by simp [weight]
  | d :: ds, h => by
      have ih := weight_lt fun e he => h e (List.mem_cons_of_mem d he)
      have hd : d + 1 ≤ base := h d List.mem_cons_self
      rw [weight, List.length_cons, Nat.pow_succ]
      calc d * base ^ ds.length + weight base ds
        _ < d * base ^ ds.length + base ^ ds.length := Nat.add_lt_add_left ih _
        _ = (d + 1) * base ^ ds.length := by rw [Nat.add_mul, Nat.one_mul]
        _ ≤ base * base ^ ds.length := Nat.mul_le_mul_right _ hd
        _ = base ^ ds.length * base := Nat.mul_comm _ _

/-- A smaller first digit, whatever follows. -/
theorem weight_cons_lt {base d e : Nat} {ds es : List Nat} (hde : d < e)
    (hlen : ds.length = es.length) (hds : ∀ x ∈ ds, x < base) :
    weight base (d :: ds) < weight base (e :: es) := by
  have hlt := weight_lt hds
  rw [weight, weight, ← hlen]
  calc d * base ^ ds.length + weight base ds
    _ < d * base ^ ds.length + base ^ ds.length := Nat.add_lt_add_left hlt _
    _ = (d + 1) * base ^ ds.length := by rw [Nat.add_mul, Nat.one_mul]
    _ ≤ e * base ^ ds.length := Nat.mul_le_mul_right _ hde
    _ ≤ e * base ^ ds.length + weight base es := Nat.le_add_right _ _

/-- **An exchange makes the ranks, read as digits, smaller.** -/
theorem exchange_weight {base : Nat} {rank : α → Nat} : ∀ {l l' : List α},
    (∀ x ∈ l, rank x < base) → l.Nodup → (∀ y x, Before needs l y x → rank y < rank x) →
    exchange needs l = some l' → weight base (l'.map rank) < weight base (l.map rank)
  | [], _, _, _, _, h => by cases h
  | x :: rest, l', hbase, hnd, hrank, h => by
      obtain ⟨hx, hrest⟩ := List.nodup_cons.1 hnd
      rw [exchange] at h
      split at h
      · rename_i p hp
        obtain rfl := Option.some.inj h
        obtain ⟨hneeds, hmem, hlen, hperm⟩ := swapWith_spec needs hp
        have hne : p.1 ≠ x := fun heq => hx (heq ▸ hmem)
        rw [List.map_cons, List.map_cons]
        refine weight_cons_lt ?_ (by simp [hlen]) ?_
        · exact hrank p.1 x ⟨List.mem_cons_of_mem x hmem, List.mem_cons_self, hne, hneeds⟩
        · intro d hd
          obtain ⟨y, hy, rfl⟩ := List.mem_map.1 hd
          exact hbase y (hperm.subset (List.mem_cons_of_mem _ hy))
      · obtain ⟨rest', hr, rfl⟩ := Option.map_eq_some_iff.1 h
        have hlen : (rest'.map rank).length = (rest.map rank).length := by
          simp [(exchange_perm needs hr).length_eq]
        have ih := exchange_weight (fun y hy => hbase y (List.mem_cons_of_mem x hy)) hrest
          (fun y z hyz => hrank y z ⟨List.mem_cons_of_mem x hyz.1, List.mem_cons_of_mem x hyz.2.1,
            hyz.2.2⟩) hr
        rw [List.map_cons, List.map_cons, weight, weight, hlen]
        exact Nat.add_lt_add_left ih _

theorem exchangeAll_of_rank {base : Nat} {rank : α → Nat} : ∀ (n : Nat) {l : List α},
    weight base (l.map rank) < n → (∀ x ∈ l, rank x < base) → l.Nodup →
    (∀ y x, Before needs l y x → rank y < rank x) → ∃ l', exchangeAll needs n l = some l'
  | 0, _, h, _, _, _ => absurd h (Nat.not_lt_zero _)
  | n + 1, l, h, hbase, hnd, hrank => by
      rw [exchangeAll]
      cases hl : exchange needs l with
      | none => exact ⟨l, rfl⟩
      | some l' =>
          have hperm := exchange_perm needs hl
          have hlt := exchange_weight needs hbase hnd hrank hl
          refine exchangeAll_of_rank n (by omega) (fun x hx => hbase x (hperm.subset hx))
            (hperm.nodup_iff.2 hnd) fun y x hyx => ?_
          exact hrank y x ⟨hperm.subset hyx.1, hperm.subset hyx.2.1, hyx.2.2⟩

open Classical in
/-- How many members come before one. -/
noncomputable def rankIn (l : List α) (x : α) : Nat :=
  l.countP fun y => decide (Relation.TransGen (Before needs l) y x)

open Classical in
theorem rankIn_lt {l : List α} (hacyclic : ∀ x, ¬ Relation.TransGen (Before needs l) x x) {y x : α}
    (h : Before needs l y x) : rankIn needs l y < rankIn needs l x := by
  have hmono : ∀ z ∈ l, decide (Relation.TransGen (Before needs l) z y) = true →
      decide (Relation.TransGen (Before needs l) z x) = true := by
    intro z _ hz
    exact decide_eq_true ((of_decide_eq_true hz).tail h)
  refine Nat.lt_of_le_of_ne (List.countP_mono_left hmono) fun heq => ?_
  have hsame := eq_of_countP_eq l hmono heq y h.1
  rw [decide_eq_true (Relation.TransGen.single h)] at hsame
  exact hacyclic y (of_decide_eq_true hsame)

/-- In an ordered list, what comes before stands before. -/
theorem idxOf_lt_of_before [DecidableEq α] {l : List α} (h : l.Pairwise fun x y => needs x y = false)
    {y x : α} (hyx : Before needs l y x) : l.idxOf y < l.idxOf x := by
  obtain ⟨hy, hx, hne, hneeds⟩ := hyx
  have hix := List.idxOf_lt_length_iff.2 hx
  have hiy := List.idxOf_lt_length_iff.2 hy
  rcases Nat.lt_trichotomy (l.idxOf y) (l.idxOf x) with hlt | heq | hgt
  · exact hlt
  · have hsame : l[l.idxOf y] = l[l.idxOf x] := by simp only [heq]
    rw [List.getElem_idxOf, List.getElem_idxOf] at hsame
    exact absurd hsame hne
  · have hno := List.pairwise_iff_getElem.1 h _ _ hix hiy hgt
    rw [List.getElem_idxOf, List.getElem_idxOf, hneeds] at hno
    cases hno

/-- What goes down in a number has nothing that needs itself. -/
theorem acyclic_of_rank {l : List α} (rank : α → Nat) (h : ∀ y x, Before needs l y x → rank y < rank x)
    (x : α) : ¬ Relation.TransGen (Before needs l) x x := by
  have hup : ∀ {y z}, Relation.TransGen (Before needs l) y z → rank y < rank z := by
    intro y z hyz
    induction hyz with
    | single hone => exact h _ _ hone
    | tail _ hone ih => exact Nat.lt_trans ih (h _ _ hone)
  exact fun hx => Nat.lt_irrefl _ (hup hx)

/-- **The exchanges come to an end exactly if nothing needs itself through others.** -/
theorem exchangeAll_terminates_iff [DecidableEq α] {l : List α} (hnd : l.Nodup) :
    (∃ fuel l', exchangeAll needs fuel l = some l') ↔
      ∀ x, ¬ Relation.TransGen (Before needs l) x x := by
  constructor
  · intro ⟨fuel, l', h⟩ x hx
    have hperm := exchangeAll_perm needs h
    have hlt : ∀ {y z}, Relation.TransGen (Before needs l) y z → l'.idxOf y < l'.idxOf z := by
      intro y z hyz
      induction hyz with
      | single hone =>
          exact idxOf_lt_of_before needs (exchangeAll_sorted needs h)
            ⟨hperm.symm.subset hone.1, hperm.symm.subset hone.2.1, hone.2.2⟩
      | tail _ hone ih =>
          exact Nat.lt_trans ih (idxOf_lt_of_before needs (exchangeAll_sorted needs h)
            ⟨hperm.symm.subset hone.1, hperm.symm.subset hone.2.1, hone.2.2⟩)
    exact Nat.lt_irrefl _ (hlt hx)
  · intro hacyclic
    refine ⟨weight (l.length + 1) (l.map (rankIn needs l)) + 1, ?_⟩
    refine exchangeAll_of_rank needs _ (Nat.lt_succ_self _) (fun x _ => ?_) hnd
      fun y x h => rankIn_lt needs hacyclic h
    exact Nat.lt_succ_of_le List.countP_le_length

end Exchange

end YottaTest.Lib
