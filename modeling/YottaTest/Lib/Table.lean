/-
  File:      YottaTest/Lib/Table.lean
  Subject:   Finite tables: a program's keyed array as a list of entries with distinct keys.

  * `Table` -- the entries, with the distinctness of the keys as a field;
  * `get`, `set`, `filter`, `erase`, `map` -- the operations, each with what it does to every
    lookup (`get_set`, `get_filter`, `get_erase`, `get_map`);
  * `mem_entries_iff` -- the entries are exactly the defined lookups, so that a loop over the
    entries and a read by key see the same table;
  * `size`, `sum` -- the number of entries and sums over the values, which the lookups determine
    (`entries_perm`); what a store and an erasure change of them.
-/
import Mathlib.Algebra.GroupWithZero.Nat
import Mathlib.Data.List.Nodup

namespace YottaTest.Lib

/-- A finite table: entries whose keys are distinct. -/
structure Table (K V : Type) where
  entries : List (K × V)
  nodup : (entries.map Prod.fst).Nodup

namespace Table

variable {K V : Type}

/-- The table with no entry. -/
def empty : Table K V := ⟨[], List.nodup_nil⟩

/-- The entries whose key and value pass `p`. -/
def filter (p : K → V → Bool) (t : Table K V) : Table K V where
  entries := t.entries.filter fun e => p e.1 e.2
  nodup := t.nodup.sublist (List.filter_sublist.map _)

/-- Every value replaced, under its own key. -/
def map (f : K → V → V) (t : Table K V) : Table K V where
  entries := t.entries.map fun e => (e.1, f e.1 e.2)
  nodup := by
    have hkeys : (t.entries.map fun e => (e.1, f e.1 e.2)).map Prod.fst
        = t.entries.map Prod.fst := by
      rw [List.map_map]
      rfl
    rw [hkeys]
    exact t.nodup

variable [DecidableEq K]

/-- The value stored under a key. -/
def get (t : Table K V) (k : K) : Option V := t.entries.lookup k

/-- Remove a key. -/
def erase (t : Table K V) (k : K) : Table K V := t.filter fun k' _ => k' ≠ k

theorem notMem_keys_erase (t : Table K V) (k : K) : k ∉ (t.erase k).entries.map Prod.fst := by
  simp only [List.mem_map, not_exists, not_and]
  intro e he
  have hp := (List.mem_filter.1 he).2
  simpa using hp

/-- Store a value under a key, in place of what it held. -/
def set (t : Table K V) (k : K) (v : V) : Table K V where
  entries := (k, v) :: (t.erase k).entries
  nodup := List.nodup_cons.2 ⟨notMem_keys_erase t k, (t.erase k).nodup⟩

/-- **The entries are the defined lookups.** -/
theorem mem_entries_iff (t : Table K V) (k : K) (v : V) :
    (k, v) ∈ t.entries ↔ t.get k = some v := by
  obtain ⟨l, hl⟩ := t
  simp only [get]
  induction l with
  | nil => simp
  | cons e l ih =>
      obtain ⟨k', v'⟩ := e
      rw [List.map_cons, List.nodup_cons] at hl
      rw [List.lookup_cons, List.mem_cons, Prod.mk.injEq, ih hl.2]
      by_cases hk : k = k'
      · subst hk
        have hnone : l.lookup k = none := by
          rw [List.lookup_eq_none_iff]
          intro p hp
          have hne : p.1 ≠ k := fun he =>
            hl.1 (List.mem_map.2 ⟨p, hp, he⟩)
          simpa using fun he => hne he.symm
        simp [hnone, eq_comm]
      · simp [hk, beq_eq_false_iff_ne.2 hk]

theorem get_filter (p : K → V → Bool) (t : Table K V) (k : K) :
    (t.filter p).get k = (t.get k).filter (p k) := by
  apply Option.ext
  intro v
  rw [Option.filter_eq_some_iff, ← mem_entries_iff, ← mem_entries_iff]
  simp [filter, List.mem_filter]

theorem get_map (f : K → V → V) (t : Table K V) (k : K) :
    (t.map f).get k = (t.get k).map (f k) := by
  apply Option.ext
  intro v
  rw [← mem_entries_iff, Option.map_eq_some_iff]
  simp only [map, List.mem_map, Prod.mk.injEq]
  constructor
  · rintro ⟨⟨k', v'⟩, he, rfl, rfl⟩
    exact ⟨v', (mem_entries_iff t k' v').1 he, rfl⟩
  · rintro ⟨v', hv, rfl⟩
    exact ⟨(k, v'), (mem_entries_iff t k v').2 hv, rfl, rfl⟩

theorem get_erase (t : Table K V) (k k' : K) :
    (t.erase k).get k' = if k' = k then none else t.get k' := by
  rw [erase, get_filter]
  by_cases h : k' = k
  · simp [h]
  · cases t.get k' <;> simp [h]

/-- **A lookup after a store.** -/
theorem get_set (t : Table K V) (k : K) (v : V) (k' : K) :
    (t.set k v).get k' = if k' = k then some v else t.get k' := by
  have hcons : (t.set k v).get k' = if k' == k then some v else (t.erase k).get k' := by
    simp only [set, get, List.lookup_cons]
    cases k' == k <;> rfl
  rw [hcons, get_erase]
  by_cases h : k' = k
  · simp [h]
  · simp [h]

@[simp] theorem get_empty (k : K) : (empty : Table K V).get k = none := rfl

@[simp] theorem get_set_self (t : Table K V) (k : K) (v : V) : (t.set k v).get k = some v := by
  rw [get_set, if_pos rfl]

theorem get_set_of_ne (t : Table K V) {k k' : K} (v : V) (h : k' ≠ k) :
    (t.set k v).get k' = t.get k' := by
  rw [get_set, if_neg h]

/-- The number of entries. -/
def size (t : Table K V) : Nat := t.entries.length

omit [DecidableEq K] in
@[simp] theorem size_empty : (empty : Table K V).size = 0 := rfl

/-- Tables with the same lookups have the same entries, up to their order. -/
theorem entries_perm {t u : Table K V} (h : ∀ k, t.get k = u.get k) :
    t.entries.Perm u.entries := by
  refine (List.perm_ext_iff_of_nodup t.nodup.of_map u.nodup.of_map).2 ?_
  rintro ⟨k, v⟩
  rw [mem_entries_iff, mem_entries_iff, h]

theorem size_congr {t u : Table K V} (h : ∀ k, t.get k = u.get k) : t.size = u.size :=
  (entries_perm h).length_eq

theorem size_set_of_none {t : Table K V} {k : K} (h : t.get k = none) (v : V) :
    (t.set k v).size = t.size + 1 := by
  have herase : (t.erase k).size = t.size := size_congr fun k' => by
    rw [get_erase]
    split
    · rename_i he
      rw [he, h]
    · rfl
  exact congrArg (· + 1) herase

theorem size_set_of_some {t : Table K V} {k : K} {w : V} (h : t.get k = some w) (v : V) :
    (t.set k v).size = t.size := by
  have hsame : (t.set k w).size = t.size := size_congr fun k' => by
    rw [get_set]
    split
    · rename_i he
      rw [he, h]
    · rfl
  exact hsame

theorem size_erase_of_some {t : Table K V} {k : K} {w : V} (h : t.get k = some w) :
    (t.erase k).size + 1 = t.size := size_set_of_some h w

theorem size_eq_zero {t : Table K V} : t.size = 0 ↔ ∀ k, t.get k = none := by
  constructor
  · intro h k
    cases hk : t.get k with
    | none => rfl
    | some v =>
        have hmem := (mem_entries_iff t k v).2 hk
        rw [List.length_eq_zero_iff.1 h] at hmem
        cases hmem
  · intro h
    exact (size_congr (u := empty) h).trans rfl

/-- A sum over the values. -/
def sum (f : V → Nat) (t : Table K V) : Nat := (t.entries.map fun e => f e.2).sum

theorem sum_congr (f : V → Nat) {t u : Table K V} (h : ∀ k, t.get k = u.get k) :
    t.sum f = u.sum f :=
  List.Perm.sum_nat ((entries_perm h).map _)

/-- **A store changes a sum by what it changes at its key.** -/
theorem sum_set (f : V → Nat) {d : V} (hd : f d = 0) (t : Table K V) (k : K) (v : V) :
    (t.set k v).sum f + f ((t.get k).getD d) = t.sum f + f v := by
  have hset : ∀ u, (t.set k u).sum f = f u + (t.erase k).sum f := fun _ => rfl
  cases hk : t.get k with
  | none =>
      have hsame : ∀ k', (t.erase k).get k' = t.get k' := by
        intro k'
        rw [get_erase]
        split
        · rename_i he
          rw [he, hk]
        · rfl
      rw [hset, sum_congr f hsame, Option.getD_none, hd]
      omega
  | some w =>
      have hsame : ∀ k', (t.set k w).get k' = t.get k' := by
        intro k'
        rw [get_set]
        split
        · rename_i he
          rw [he, hk]
        · rfl
      rw [← sum_congr f hsame, hset, hset, Option.getD_some]
      omega

end Table

end YottaTest.Lib
