/-
  File:      YottaTest/Lib/Orbit.lean
  Subject:   The way of a point to a goal under a function.

  * `Takes f goal k u` -- from `u` the goal is first met after `k` steps; `Takes.unique`;
  * `Visits f goal u v` -- on its way to the goal, `u` meets `v`;
  * `takes_iterate`, `visits_iterate`, `Visits.split` -- both along a first part of the way.
-/
import Mathlib.Logic.Function.Iterate

namespace YottaTest.Lib

variable {α : Type} {f : α → α} {goal : α}

/-- The goal is first met after so many steps. -/
inductive Takes (f : α → α) (goal : α) : Nat → α → Prop
  | zero : Takes f goal 0 goal
  | succ {k : Nat} {u : α} (hu : u ≠ goal) (h : Takes f goal k (f u)) : Takes f goal (k + 1) u

/-- The second point is on the way of the first one to the goal. -/
inductive Visits (f : α → α) (goal : α) : α → α → Prop
  | refl (u : α) : Visits f goal u u
  | step {u v : α} (hu : u ≠ goal) (h : Visits f goal (f u) v) : Visits f goal u v

theorem Takes.unique {k l : Nat} {u : α} (h : Takes f goal k u) (h' : Takes f goal l u) :
    k = l := by
  induction h generalizing l with
  | zero =>
      cases h' with
      | zero => rfl
      | succ hu _ => exact absurd rfl hu
  | succ hu _ ih =>
      cases h' with
      | zero => exact absurd rfl hu
      | succ _ h' => rw [ih h']

theorem Takes.eq_goal {u : α} (h : Takes f goal 0 u) : u = goal := by
  cases h
  rfl

theorem Takes.ne_zero {k : Nat} {u : α} (h : Takes f goal k u) (hu : u ≠ goal) : k ≠ 0 := by
  rintro rfl
  exact hu h.eq_goal

/-- What is on the way takes no more steps. -/
theorem Visits.takes {k : Nat} {u v : α} (h : Visits f goal u v) (hk : Takes f goal k u) :
    ∃ l ≤ k, Takes f goal l v := by
  induction h generalizing k with
  | refl => exact ⟨k, Nat.le_refl k, hk⟩
  | step hu _ ih =>
      cases hk with
      | zero => exact absurd rfl hu
      | succ _ hk =>
          obtain ⟨l, hl, hv⟩ := ih hk
          exact ⟨l, Nat.le_succ_of_le hl, hv⟩

theorem Visits.trans {u v w : α} (h : Visits f goal u v) (h' : Visits f goal v w) :
    Visits f goal u w := by
  induction h with
  | refl => exact h'
  | step hu _ ih => exact .step hu (ih h')

/-- Nothing comes after the goal. -/
theorem Visits.of_goal {v : α} (h : Visits f goal goal v) : v = goal := by
  cases h with
  | refl => rfl
  | step hu _ => exact absurd rfl hu

/-- A first part of the way, of `n` steps. -/
theorem visits_iterate {u : α} {n : Nat} (h : ∀ j < n, f^[j] u ≠ goal) :
    Visits f goal u (f^[n] u) := by
  induction n with
  | zero => exact .refl u
  | succ n ih =>
      have hstep : Visits f goal (f^[n] u) (f (f^[n] u)) := .step (h n (by omega)) (.refl _)
      rw [Function.iterate_succ_apply']
      exact (ih fun j hj => h j (by omega)).trans hstep

theorem takes_iterate {u : α} {n k : Nat} (h : ∀ j < n, f^[j] u ≠ goal)
    (hk : Takes f goal k (f^[n] u)) : Takes f goal (k + n) u := by
  induction n generalizing k with
  | zero => exact hk
  | succ n ih =>
      rw [Function.iterate_succ_apply'] at hk
      have := ih (fun j hj => h j (by omega)) (.succ (h n (by omega)) hk)
      rwa [show k + (n + 1) = k + 1 + n by omega]

/-- What is left after a first part. -/
theorem Takes.iterate {u : α} {n k : Nat} (h : ∀ j < n, f^[j] u ≠ goal) (hk : Takes f goal k u) :
    n ≤ k ∧ Takes f goal (k - n) (f^[n] u) := by
  induction n with
  | zero => exact ⟨Nat.zero_le k, hk⟩
  | succ n ih =>
      obtain ⟨hle, hn⟩ := ih fun j hj => h j (by omega)
      obtain ⟨l, hl⟩ := Nat.exists_eq_succ_of_ne_zero (hn.ne_zero (h n (by omega)))
      rw [hl] at hn
      cases hn with
      | succ _ hn =>
          rw [Function.iterate_succ_apply', show k - (n + 1) = l by omega]
          exact ⟨by omega, hn⟩

/-- What is on the way is on a first part of it, or beyond. -/
theorem Visits.split {u v : α} (h : Visits f goal u v) (n : Nat) :
    (∃ j < n, v = f^[j] u) ∨ Visits f goal (f^[n] u) v := by
  induction n with
  | zero => exact Or.inr h
  | succ n ih =>
      rcases ih with ⟨j, hj, hv⟩ | hn
      · exact Or.inl ⟨j, by omega, hv⟩
      · rw [Function.iterate_succ_apply']
        cases hn with
        | refl => exact Or.inl ⟨n, by omega, rfl⟩
        | step _ hn => exact Or.inr hn

/-- What contains a start and, with a point, the next one unless it is the goal, contains the way
    up to the goal. -/
theorem Visits.mem {u v : α} {p : α → Prop} (h : Visits f goal u v) (hu : p u)
    (hclosed : ∀ w, p w → f w = goal ∨ p (f w)) : v = goal ∨ p v := by
  induction h with
  | refl => exact Or.inr hu
  | step _ h ih =>
      rcases hclosed _ hu with hgoal | hp
      · rw [hgoal] at h
        exact Or.inl h.of_goal
      · exact ih hp

end YottaTest.Lib
