/-
  File:      YottaTest/Lib/Subtree.lean
  Subject:   Going through a tree of paths child by child.

  A tree is a list of paths, the nodes that have something; a path is a list of keys.

  * `children` -- the keys that continue a path to some node;
  * `preorder` -- a node, and then the subtrees below its children in the order of the keys;
  * `mem_preorder`, `preorder_sorted` -- **it comes to every node below once, in the order of the paths**;
  * `preorder_eq_visit` -- so it comes to the same nodes as asking for the next path.
-/
import YottaTest.Lib.Ordered

namespace YottaTest.Lib

namespace Collation

variable {K : Type} [DecidableEq K]

/-- The keys that continue a path. -/
def children (paths : List (List K)) (p : List K) : List K :=
  paths.filterMap fun x => if p <+: x then (x.drop p.length).head? else none

theorem mem_children {paths : List (List K)} {p : List K} {k : K} :
    k ∈ children paths p ↔ ∃ x ∈ paths, p ++ [k] <+: x := by
  unfold children
  rw [List.mem_filterMap]
  refine exists_congr fun x => and_congr_right fun _ => ?_
  constructor
  · intro h
    split at h
    · rename_i hp
      obtain ⟨s, rfl⟩ := hp
      rw [List.drop_left] at h
      obtain ⟨t, rfl⟩ := List.head?_eq_some_iff.1 h
      exact ⟨t, by rw [List.append_assoc, List.singleton_append]⟩
    · cases h
  · intro h
    obtain ⟨t, rfl⟩ := h
    rw [List.append_assoc, if_pos (List.prefix_append p _), List.drop_left]
    rfl

/-- A path as the list of the nodes at it. -/
def here (paths : List (List K)) (p : List K) : List (List K) := if p ∈ paths then [p] else []

theorem mem_here {paths : List (List K)} {p x : List K} : x ∈ here paths p ↔ x ∈ paths ∧ x = p := by
  unfold here
  split
  · rename_i hp
    rw [List.mem_singleton]
    exact ⟨fun h => ⟨h ▸ hp, h⟩, And.right⟩
  · rename_i hp
    exact iff_of_false List.not_mem_nil fun h => hp (h.2 ▸ h.1)

variable (c : Collation K)

/-- The nodes below a path, through its children, so many levels deep. -/
def preorder (paths : List (List K)) : Nat → List K → List (List K)
  | 0, p => here paths p
  | levels + 1, p => here paths p ++
      (c.visit (children paths p) none).flatMap fun k => preorder paths levels (p ++ [k])

variable {c} {paths : List (List K)}

theorem prefix_of_mem_preorder : ∀ {levels : Nat} {p x : List K}, x ∈ c.preorder paths levels p →
    x ∈ paths ∧ p <+: x
  | 0, p, x, h => by
      obtain ⟨hx, rfl⟩ := mem_here.1 h
      exact ⟨hx, List.prefix_rfl⟩
  | levels + 1, p, x, h => by
      rw [preorder] at h
      rcases List.mem_append.1 h with h | h
      · obtain ⟨hx, rfl⟩ := mem_here.1 h
        exact ⟨hx, List.prefix_rfl⟩
      · obtain ⟨k, -, h⟩ := List.mem_flatMap.1 h
        have hx := prefix_of_mem_preorder h
        exact ⟨hx.1, (List.prefix_append p [k]).trans hx.2⟩

/-- A node below a path is the path itself, or below one of its children. -/
theorem eq_or_child {p x : List K} (hx : x ∈ paths) (h : p <+: x) :
    x = p ∨ ∃ k ∈ children paths p, p ++ [k] <+: x := by
  obtain ⟨s, rfl⟩ := h
  cases s with
  | nil => exact Or.inl (List.append_nil p)
  | cons k s =>
      have hk : p ++ [k] <+: p ++ k :: s := ⟨s, by rw [List.append_assoc, List.singleton_append]⟩
      exact Or.inr ⟨k, mem_children.2 ⟨_, hx, hk⟩, hk⟩

/-- **Every node below the path is come to**, if the levels are enough. -/
theorem mem_preorder : ∀ {levels : Nat} {p x : List K}, (∀ x ∈ paths, x.length ≤ p.length + levels) →
    (x ∈ c.preorder paths levels p ↔ x ∈ paths ∧ p <+: x)
  | levels, p, x, hdeep => by
      refine ⟨prefix_of_mem_preorder, fun h => ?_⟩
      obtain ⟨hx, hp⟩ := h
      cases levels with
      | zero =>
          obtain rfl := hp.eq_of_length (Nat.le_antisymm hp.length_le (hdeep x hx))
          exact mem_here.2 ⟨hx, rfl⟩
      | succ levels =>
          rw [preorder, List.mem_append]
          rcases eq_or_child hx hp with rfl | ⟨k, hk, hpk⟩
          · exact Or.inl (mem_here.2 ⟨hx, rfl⟩)
          · refine Or.inr (List.mem_flatMap.2 ⟨k, c.mem_visit.2 ⟨hk, rfl⟩, ?_⟩)
            refine (mem_preorder fun y hy => ?_).2 ⟨hx, hpk⟩
            rw [List.length_append, List.length_singleton, Nat.add_assoc, Nat.add_comm 1]
            exact hdeep y hy

theorem here_sorted (p : List K) : (here paths p).Pairwise fun x y => c.words.lt x y = true := by
  unfold here
  split
  · exact List.pairwise_singleton _ _
  · exact List.Pairwise.nil

/-- **The nodes come in order**: a path before those that continue it, and these by their next keys. -/
theorem preorder_sorted : ∀ (levels : Nat) (p : List K),
    (c.preorder paths levels p).Pairwise fun x y => c.words.lt x y = true
  | 0, p => here_sorted p
  | levels + 1, p => by
      rw [preorder, List.pairwise_append]
      refine ⟨here_sorted p, List.pairwise_flatMap.2 ⟨fun k _ => preorder_sorted levels (p ++ [k]), ?_⟩, ?_⟩
      · -- below two children, the first of them in front
        refine (c.visit_sorted _ none).imp fun {k l} hkl x hx y hy => ?_
        obtain ⟨s, rfl⟩ := (prefix_of_mem_preorder hx).2
        obtain ⟨t, rfl⟩ := (prefix_of_mem_preorder hy).2
        show c.ltWords _ _ = true
        rw [List.append_assoc, List.append_assoc, ltWords_append, List.singleton_append,
          List.singleton_append]
        exact (c.ltWords_cons).2 (Or.inl hkl)
      · intro x hx y hy
        have hxp := (mem_here.1 hx).2
        obtain ⟨k, -, hy⟩ := List.mem_flatMap.1 hy
        obtain ⟨t, rfl⟩ := (prefix_of_mem_preorder hy).2
        show c.ltWords x _ = true
        have hcut := ltWords_append c p [] (k :: t)
        rw [List.append_nil] at hcut
        rw [hxp, List.append_assoc, List.singleton_append, hcut]
        rfl

/-- The empty path is in front of all others. -/
theorem here_append_visit :
    here paths [] ++ c.words.visit paths (some []) = c.words.visit paths none := by
  have hsorted : (here paths [] ++ c.words.visit paths (some [])).Pairwise
      fun x y => c.words.lt x y = true := by
    refine List.pairwise_append.2 ⟨here_sorted [], c.words.visit_sorted paths _, fun x hx y hy => ?_⟩
    rw [(mem_here.1 hx).2]
    exact (c.words.mem_visit.1 hy).2
  refine c.words.sorted_unique hsorted (c.words.visit_sorted paths none) fun x => ?_
  rw [List.mem_append, mem_here, c.words.mem_visit, c.words.mem_visit, ← and_or_left]
  refine and_congr_right fun _ => iff_of_true ?_ rfl
  cases x with
  | nil => exact Or.inl rfl
  | cons k s => exact Or.inr rfl

/-- **Both ways through a tree come to the same nodes in the same order.** -/
theorem preorder_eq_visit {levels : Nat} (hdeep : ∀ x ∈ paths, x.length ≤ levels) :
    c.preorder paths levels [] = c.words.visit paths none := by
  refine c.words.sorted_unique (preorder_sorted levels []) (c.words.visit_sorted paths none) fun x => ?_
  have hdeep' : ∀ x ∈ paths, x.length ≤ ([] : List K).length + levels := fun x hx => by
    rw [List.length_nil, Nat.zero_add]
    exact hdeep x hx
  rw [mem_preorder hdeep', c.words.mem_visit]
  exact and_congr_right fun _ => iff_of_true List.nil_prefix rfl

end Collation

end YottaTest.Lib
