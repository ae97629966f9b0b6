/-
  File:      YottaTest/Lib/Shared.lean
  Subject:   Programs of single operations on a store they share with others.

  * `Prog`, `Prog.bind` -- a program up to its next operation: a read, a write, a message or a stop;
  * `Prog.step`, `Prog.run` -- one operation of it, and all of it at once (a transaction);
  * `Holds rely may p Q` -- with the others doing no more than `rely` between two operations, the
    program writes where it may only, says nothing, and ends with `Q`;
  * `Holds.bind`, `Holds.stable`, `Holds.mono`, `Holds.weaken` -- its rules;
  * `Holds.step`, `Holds.run` -- what it is worth for one operation and for a transaction.
-/
import Mathlib.Logic.Function.Basic

namespace YottaTest.Lib

open Function

variable {K V M α β : Type}

/-- A program up to its next operation on the store. -/
inductive Prog (K V M α : Type) where
  | ret (a : α)
  | read (k : K) (next : Option V → Prog K V M α)
  | write (k : K) (v : Option V) (next : Prog K V M α)
  | tell (m : M) (next : Prog K V M α)
  /-- an error: the program goes no further -/
  | stop (m : M)

namespace Prog

def bind (p : Prog K V M α) (f : α → Prog K V M β) : Prog K V M β :=
  match p with
  | .ret a => f a
  | .read k next => .read k fun v => (next v).bind f
  | .write k v next => .write k v (next.bind f)
  | .tell m next => .tell m (next.bind f)
  | .stop m => .stop m

instance : Monad (Prog K V M) where
  pure := .ret
  bind := bind

/-- `$GET` -/
def get (k : K) : Prog K V M (Option V) := .read k .ret

def set (k : K) (v : V) : Prog K V M Unit := .write k (some v) (.ret ())

def kill (k : K) : Prog K V M Unit := .write k none (.ret ())

def say (m : M) : Prog K V M Unit := .tell m (.ret ())

variable [DecidableEq K]

/-- The next operation: the store, what is said, and the rest. -/
def step (s : K → Option V) : Prog K V M α → (K → Option V) × List M × Prog K V M α
  | .ret a => (s, [], .ret a)
  | .read k next => (s, [], next (s k))
  | .write k v next => (update s k v, [], next)
  | .tell m next => (s, [m], next)
  | .stop m => (s, [], .stop m)

/-- The whole program with nobody in between: the store, what is said, and the result, if it
    comes to one. -/
def run : Prog K V M α → (K → Option V) → (K → Option V) × List M × Option α
  | .ret a, s => (s, [], some a)
  | .read k next, s => (next (s k)).run s
  | .write k v next, s => next.run (update s k v)
  | .tell m next, s =>
      let (s', ms, a) := next.run s
      (s', m :: ms, a)
  | .stop m, s => (s, [m], none)

end Prog

/-- What the others may do, they may do never or again and again. -/
structure IsRely (rely : (K → Option V) → (K → Option V) → Prop) : Prop where
  refl : ∀ s, rely s s
  trans : ∀ {s s' s''}, rely s s' → rely s' s'' → rely s s''

/-- Nobody else is there. -/
theorem isRely_eq : IsRely fun s s' : K → Option V => s' = s where
  refl _ := rfl
  trans h h' := h'.trans h

variable [DecidableEq K] {rely : (K → Option V) → (K → Option V) → Prop} {may : K → Prop}

/-- The program keeps to its keys, says nothing and ends with `Q`, whatever the others do within
    `rely`. -/
def Holds (rely : (K → Option V) → (K → Option V) → Prop) (may : K → Prop) :
    Prog K V M α → (α → (K → Option V) → Prop) → (K → Option V) → Prop
  | .ret a, Q, s => ∀ s', rely s s' → Q a s'
  | .read k next, Q, s => ∀ s', rely s s' → Holds rely may (next (s' k)) Q s'
  | .write k v next, Q, s => may k ∧ ∀ s', rely s s' → Holds rely may next Q (update s' k v)
  | .tell _ _, _, _ => False
  | .stop _, _, _ => False

section Rules

variable {p : Prog K V M α} {Q Q' : α → (K → Option V) → Prop} {s s' : K → Option V}

/-- The others do not disturb. -/
theorem Holds.stable (hr : IsRely rely) (h : Holds rely may p Q s) (hs : rely s s') :
    Holds rely may p Q s' := by
  cases p with
  | ret a => exact fun t ht => h t (hr.trans hs ht)
  | read k next => exact fun t ht => h t (hr.trans hs ht)
  | write k v next => exact ⟨h.1, fun t ht => h.2 t (hr.trans hs ht)⟩
  | tell m next => exact h
  | stop m => exact h

theorem Holds.mono (h : Holds rely may p Q s) (hQ : ∀ a t, Q a t → Q' a t) :
    Holds rely may p Q' s := by
  induction p generalizing s with
  | ret a => exact fun t ht => hQ a t (h t ht)
  | read k next ih => exact fun t ht => ih _ (h t ht)
  | write k v next ih => exact ⟨h.1, fun t ht => ih (h.2 t ht)⟩
  | tell m next => exact h
  | stop m => exact h

theorem Holds.weaken {may' : K → Prop} (h : Holds rely may p Q s) (hk : ∀ k, may k → may' k) :
    Holds rely may' p Q s := by
  induction p generalizing s with
  | ret a => exact h
  | read k next ih => exact fun t ht => ih _ (h t ht)
  | write k v next ih => exact ⟨hk k h.1, fun t ht => ih (h.2 t ht)⟩
  | tell m next => exact h
  | stop m => exact h

theorem Holds.bind (hr : IsRely rely) {f : α → Prog K V M β} {R : β → (K → Option V) → Prop}
    (h : Holds rely may p (fun a t => Holds rely may (f a) R t) s) :
    Holds rely may (p >>= f) R s := by
  show Holds rely may (p.bind f) R s
  induction p generalizing s with
  | ret a => exact h s (hr.refl s)
  | read k next ih => exact fun t ht => ih _ (h t ht)
  | write k v next ih => exact ⟨h.1, fun t ht => ih (h.2 t ht)⟩
  | tell m next => exact h
  | stop m => exact h

/-- One operation: nothing is said, the rest holds, and only a key of the program has changed. -/
theorem Holds.step (hr : IsRely rely) (h : Holds rely may p Q s) :
    (p.step s).2.1 = [] ∧ Holds rely may (p.step s).2.2 Q (p.step s).1 ∧
      ∀ k, ¬ may k → (p.step s).1 k = s k := by
  cases p with
  | ret a => exact ⟨rfl, h, fun _ _ => rfl⟩
  | read k next => exact ⟨rfl, h s (hr.refl s), fun _ _ => rfl⟩
  | write k v next =>
      refine ⟨rfl, h.2 s (hr.refl s), fun k' hk => ?_⟩
      have hne : k' ≠ k := by
        rintro rfl
        exact hk h.1
      exact update_of_ne hne _ _
  | tell m next => exact h.elim
  | stop m => exact h.elim

/-- All of it: nothing is said, there is a result, and only keys of the program have changed. -/
theorem Holds.run (hr : IsRely rely) (h : Holds rely may p Q s) :
    ∃ t a, p.run s = (t, [], some a) ∧ Q a t ∧ ∀ k, ¬ may k → t k = s k := by
  induction p generalizing s with
  | ret a => exact ⟨s, a, rfl, h s (hr.refl s), fun _ _ => rfl⟩
  | read k next ih => exact ih _ (h s (hr.refl s))
  | write k v next ih =>
      obtain ⟨t, a, hrun, hQ, hframe⟩ := ih (h.2 s (hr.refl s))
      refine ⟨t, a, hrun, hQ, fun k' hk => ?_⟩
      have hne : k' ≠ k := by
        rintro rfl
        exact hk h.1
      rw [hframe k' hk, update_of_ne hne]
  | tell m next => exact h.elim
  | stop m => exact h.elim

end Rules

end YottaTest.Lib
