/-
  File:      YottaTest/Lib/Reserve.lean
  Subject:   Reserving by appending: lists that many append to, and who is first in them.

  * `Log`, `reserve`, `drop`, `first` -- under every key a list of entries, which may be missing; an
    entry goes to the end of a list, and makes it where it is missing; a list can be removed;
  * `first_reserve`, `first_reserve_cases` -- the first entry stays the first, and one that is first
    after a reservation was so before or is the new one;
  * `first_drop_self`, `first_drop_of_ne` -- a list that is removed, and the others.
-/
import Mathlib.Logic.Function.Basic

namespace YottaTest.Lib

open Function

/-- Lists of entries under keys; `none` where there is no list. -/
abbrev Log (K E : Type) := K → Option (List E)

namespace Log

variable {K E : Type}

def first (log : Log K E) (k : K) : Option E := (log k).bind List.head?

theorem first_eq_some {log : Log K E} {k : K} {e : E} : log.first k = some e ↔ ∃ es, log k = some (e :: es) := by
  unfold first
  cases h : log k with
  | none => simp
  | some l => cases l <;> simp

variable [DecidableEq K]

def reserve (log : Log K E) (k : K) (e : E) : Log K E := update log k (some ((log k).getD [] ++ [e]))

def drop (log : Log K E) (k : K) : Log K E := update log k none

theorem reserve_self (log : Log K E) (k : K) (e : E) :
    log.reserve k e k = some ((log k).getD [] ++ [e]) :=
  update_self ..

theorem reserve_of_ne {k k' : K} (h : k' ≠ k) (log : Log K E) (e : E) : log.reserve k e k' = log k' :=
  update_of_ne h ..

/-- Who is first stays first. -/
theorem first_reserve {log : Log K E} {k : K} {e : E} (h : log.first k = some e) (k' : K) (e' : E) :
    (log.reserve k' e').first k = some e := by
  obtain ⟨es, hes⟩ := first_eq_some.1 h
  by_cases hk : k = k'
  · subst hk
    exact first_eq_some.2 ⟨es ++ [e'], by rw [reserve_self, hes]; rfl⟩
  · exact first_eq_some.2 ⟨es, by rw [reserve_of_ne hk, hes]⟩

theorem first_reserve_of_ne {k k' : K} (h : k' ≠ k) (log : Log K E) (e : E) :
    (log.reserve k e).first k' = log.first k' := by
  rw [first, first, reserve_of_ne h]

theorem first_reserve_cases {log : Log K E} {k : K} {e e' : E} (h : (log.reserve k e).first k = some e') :
    log.first k = some e' ∨ e' = e := by
  rw [first, reserve_self] at h
  cases hlog : log k with
  | none =>
      rw [hlog] at h
      exact Or.inr (Option.some.inj h).symm
  | some l =>
      rw [hlog] at h
      cases l with
      | nil => exact Or.inr (Option.some.inj h).symm
      | cons a l => exact Or.inl (by rw [first, hlog]; exact h)

theorem first_drop_self (log : Log K E) (k : K) : (log.drop k).first k = none := by
  rw [first, drop, update_self, Option.bind_none]

theorem first_drop_of_ne {log : Log K E} {k k' : K} (h : k ≠ k') : (log.drop k').first k = log.first k := by
  rw [first, first, drop, update_of_ne h]

end Log

end YottaTest.Lib
