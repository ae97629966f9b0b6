/-
  File:      YottaTest/Lib/Locks.lean
  Subject:   Locks on hierarchical names, that their owners count (M's `LOCK +` and `LOCK -`).

  A name is a list, and stands for everything below it: two names are in conflict if one is the
  beginning of the other. A process can lock a name if no other process holds a conflicting one;
  what it locks again it has to unlock again.

  * `Conflict`, `conflict_iff_of_length`, `not_conflict_of_head` -- conflicts;
  * `Locks`, `isFree`, `lock`, `unlock`, `unlockAll` -- the table and its operations;
  * `mem_lock`, `mem_of_mem_unlock`, `perm_unlock`, `mem_unlock_of_ne`, `mem_unlockAll` -- what they
    do to it;
  * `exists_of_not_isFree`, `not_isFree` -- who is in the way.
-/
import Mathlib.Data.List.Infix

namespace YottaTest.Lib

section Names

variable {N : Type}

def Conflict (a b : List N) : Prop := a <+: b ∨ b <+: a

instance [DecidableEq N] (a b : List N) : Decidable (Conflict a b) :=
  inferInstanceAs (Decidable (a <+: b ∨ b <+: a))

theorem conflict_iff_of_length {a b : List N} (h : a.length = b.length) : Conflict a b ↔ a = b := by
  constructor
  · intro hc
    rcases hc with hc | hc
    · exact hc.eq_of_length h
    · exact (hc.eq_of_length h.symm).symm
  · intro heq
    exact Or.inl (heq ▸ List.prefix_refl a)

theorem not_conflict_of_head {x y : N} (h : x ≠ y) (a b : List N) : ¬ Conflict (x :: a) (y :: b) := by
  intro hc
  rcases hc with hc | hc
  · exact h (List.cons_prefix_cons.1 hc).1
  · exact h (List.cons_prefix_cons.1 hc).1.symm

end Names

/-- Who locked what; what is locked twice stands there twice. -/
abbrev Locks (P N : Type) := List (P × List N)

namespace Locks

variable {P N : Type} {locks : Locks P N} {p q : P} {name other : List N}

def lock (locks : Locks P N) (p : P) (name : List N) : Locks P N := (p, name) :: locks

theorem mem_lock : (q, other) ∈ locks.lock p name ↔ (q = p ∧ other = name) ∨ (q, other) ∈ locks := by
  rw [lock, List.mem_cons, Prod.mk.injEq]

variable [DecidableEq P]

def unlockAll (locks : Locks P N) (p : P) : Locks P N := locks.filter fun e => e.1 ≠ p

theorem mem_unlockAll : (q, other) ∈ locks.unlockAll p ↔ (q, other) ∈ locks ∧ q ≠ p := by
  rw [unlockAll, List.mem_filter, decide_eq_true_eq]

variable [DecidableEq N]

/-- No other process is in the way. -/
def isFree (locks : Locks P N) (p : P) (name : List N) : Bool :=
  locks.all fun e => decide (e.1 = p) || !decide (Conflict name e.2)

def unlock (locks : Locks P N) (p : P) (name : List N) : Locks P N := locks.erase (p, name)

theorem mem_of_mem_unlock (h : (q, other) ∈ locks.unlock p name) : (q, other) ∈ locks :=
  List.mem_of_mem_erase h

theorem perm_unlock (h : (p, name) ∈ locks) : locks.Perm ((p, name) :: locks.unlock p name) :=
  List.perm_cons_erase h

theorem mem_unlock_of_ne (hne : q ≠ p ∨ other ≠ name) (h : (q, other) ∈ locks) :
    (q, other) ∈ locks.unlock p name := by
  refine (List.mem_erase_of_ne fun heq => ?_).2 h
  rw [Prod.mk.injEq] at heq
  rcases hne with hne | hne
  · exact hne heq.1
  · exact hne heq.2

/-- Someone is in the way. -/
theorem exists_of_not_isFree (h : locks.isFree p name = false) :
    ∃ q other, (q, other) ∈ locks ∧ q ≠ p ∧ Conflict name other := by
  unfold isFree at h
  rw [List.all_eq_false] at h
  obtain ⟨⟨q, other⟩, hmem, hfalse⟩ := h
  simp only [Bool.not_eq_true, Bool.or_eq_false_iff, decide_eq_false_iff_not, Bool.not_eq_false',
    decide_eq_true_eq] at hfalse
  exact ⟨q, other, hmem, hfalse.1, hfalse.2⟩

theorem not_isFree (h : (q, other) ∈ locks) (hq : q ≠ p) (hc : Conflict name other) :
    locks.isFree p name = false := by
  rw [isFree, List.all_eq_false]
  exact ⟨(q, other), h, by simp [hq, hc]⟩

end Locks

end YottaTest.Lib
