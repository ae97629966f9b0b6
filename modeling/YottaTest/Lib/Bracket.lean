/-
  File:      YottaTest/Lib/Bracket.lean
  Subject:   Texts of operands, operators and brackets that are written from left to right.

  A text is written one piece after the other, with brackets that are open for a while. It is well formed
  if every operator stands between two operands and every bracket has something in it. What is written so
  far is a stack: for each open bracket the part before it.

  * `Nested` -- a text of `n` operands that is well formed, by its structure;
  * `Wants d n s` -- after `s` an operand has to follow, `d` brackets are open; `Has d n s` -- one has
    just been written;
  * `Wants.opened`, `Wants.operand`, `Has.operator`, `Has.closed` -- what may be written next;
  * `Has.nested` -- **when no bracket is open any more, the text is well formed.**
-/
import Mathlib.Data.List.Basic

namespace YottaTest.Lib

variable {α : Type}

section Nested

variable (opn cls : α) (Operand Operator : List α → Prop)

/-- A text of `n` operands. With `single` it is one operand or one pair of brackets. -/
inductive Nested : Bool → Nat → List α → Prop where
  | operand {s : List α} (hs : Operand s) : Nested true 1 s
  | brackets {n : Nat} {s : List α} (hs : Nested false n s) : Nested true n ([opn] ++ s ++ [cls])
  | single {n : Nat} {s : List α} (hs : Nested true n s) : Nested false n s
  | binary {m n : Nat} {s o t : List α} (hs : Nested false m s) (ho : Operator o) (ht : Nested true n t) :
      Nested false (m + n) (s ++ o ++ t)

/-- A text with `d` open brackets and `n` operands, after which an operand has to follow. -/
inductive Wants : Nat → Nat → List α → Prop where
  | nil : Wants 0 0 []
  | operator {n : Nat} {s o : List α} (hs : Nested opn cls Operand Operator false n s) (ho : Operator o) :
      Wants 0 n (s ++ o)
  | opened {d n : Nat} {s : List α} (hs : Wants d n s) : Wants (d + 1) n (s ++ [opn])
  | openedOperator {d m n : Nat} {s t o : List α} (hs : Wants d m s)
      (ht : Nested opn cls Operand Operator false n t) (ho : Operator o) :
      Wants (d + 1) (m + n) (s ++ [opn] ++ (t ++ o))

/-- A text after which an operator may follow, or a bracket may be closed. -/
def Has : Nat → Nat → List α → Prop
  | 0, n, s => Nested opn cls Operand Operator false n s
  | d + 1, n, s => ∃ m k p t, Wants opn cls Operand Operator d m p ∧
      Nested opn cls Operand Operator false k t ∧ n = m + k ∧ s = p ++ [opn] ++ t

end Nested

section Steps

variable {opn cls : α} {Operand Operator : List α → Prop} {d m n : Nat} {s t o : List α}

/-- The next operand, or the next pair of brackets. -/
theorem Wants.single (hs : Wants opn cls Operand Operator d m s)
    (ht : Nested opn cls Operand Operator true n t) : Has opn cls Operand Operator d (m + n) (s ++ t) := by
  cases hs with
  | nil =>
    rw [Nat.zero_add]
    exact .single ht
  | operator hs ho => exact .binary hs ho ht
  | opened hs => exact ⟨m, n, _, t, hs, .single ht, rfl, rfl⟩
  | @openedOperator d m k s t' o hs ht' ho =>
    refine ⟨m, k + n, s, t' ++ o ++ t, hs, .binary ht' ho ht, Nat.add_assoc m k n, ?_⟩
    simp only [List.append_assoc]

theorem Wants.operand (hs : Wants opn cls Operand Operator d n s) (ht : Operand t) :
    Has opn cls Operand Operator d (n + 1) (s ++ t) := hs.single (.operand ht)

theorem Has.operator (hs : Has opn cls Operand Operator d n s) (ho : Operator o) :
    Wants opn cls Operand Operator d n (s ++ o) := by
  cases d with
  | zero => exact .operator hs ho
  | succ d =>
    obtain ⟨m, k, p, t, hp, ht, rfl, rfl⟩ := hs
    rw [List.append_assoc (p ++ [opn])]
    exact .openedOperator hp ht ho

theorem Has.closed (hs : Has opn cls Operand Operator (d + 1) n s) :
    Has opn cls Operand Operator d n (s ++ [cls]) := by
  obtain ⟨m, k, p, t, hp, ht, rfl, rfl⟩ := hs
  have h := hp.single (.brackets ht)
  rwa [← List.append_assoc, ← List.append_assoc] at h

end Steps

end YottaTest.Lib
