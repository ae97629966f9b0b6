/-
  File:      YottaTest/Lib/Bounded.lean
  Subject:   Buffers of fixed size, and programs that fill them and copy between them.

  A text that is too long for the buffer it is meant for is an error, and nothing is done after it.

  * `Bounded` -- what the buffers hold; each of them holds no more than it can;
  * `BufferOp` -- a text that comes from outside, or a copy; `run` -- one after the other;
  * `run_of_safe` -- texts short enough, and copies into buffers no smaller, never fail;
  * `size_of_relay` -- a text that was passed on in a run that does not fail fits.
-/
import Mathlib.Logic.Function.Basic

namespace YottaTest.Lib

variable {β α : Type} [DecidableEq β] {size : α → Nat} {room : β → Nat}

/-- The contents of buffers with `room` for so much. -/
structure Bounded (size : α → Nat) (room : β → Nat) where
  get : β → α
  fits : ∀ b, size (get b) ≤ room b

namespace Bounded

/-- A text into a buffer. -/
def put (m : Bounded size room) (b : β) (s : α) : Option (Bounded size room) :=
  if h : size s ≤ room b then
    some
      { get := Function.update m.get b s
        fits := fun b' => by
          by_cases hb : b' = b
          · rw [hb, Function.update_self]
            exact h
          · rw [Function.update_of_ne hb]
            exact m.fits b' }
  else none

theorem put_eq_some {m m' : Bounded size room} {b : β} {s : α} (h : m.put b s = some m') :
    size s ≤ room b ∧ m'.get b = s := by
  unfold put at h
  split at h
  · rename_i hs
    obtain rfl := Option.some.inj h
    exact ⟨hs, Function.update_self b s m.get⟩
  · cases h

theorem put_isSome {m : Bounded size room} {b : β} {s : α} (h : size s ≤ room b) :
    ∃ m', m.put b s = some m' := ⟨_, dif_pos h⟩

end Bounded

/-- One step: a text received from outside, or a copy from one buffer into another. -/
inductive BufferOp (β α : Type) where
  | receive (dst : β) (s : α)
  | copy (src dst : β)

namespace BufferOp

/-- The text a step moves. -/
def text (m : Bounded size room) : BufferOp β α → α
  | receive _ s => s
  | copy src _ => m.get src

/-- The buffer it goes into. -/
def into : BufferOp β α → β
  | receive dst _ => dst
  | copy _ dst => dst

def run : List (BufferOp β α) → Bounded size room → Option (Bounded size room)
  | [], m => some m
  | t :: ts, m => (m.put t.into (t.text m)).bind (run ts)

/-- A step that cannot fail, whatever the buffers hold. -/
def Safe (size : α → Nat) (room : β → Nat) : BufferOp β α → Prop
  | receive dst s => size s ≤ room dst
  | copy src dst => room src ≤ room dst

/-! ## Rules -/

omit [DecidableEq β] in
theorem size_text_of_safe {t : BufferOp β α} (h : t.Safe size room) (m : Bounded size room) :
    size (t.text m) ≤ room t.into := by
  cases t with
  | receive dst s => exact h
  | copy src dst => exact Nat.le_trans (m.fits src) h

theorem run_append (ts us : List (BufferOp β α)) (m : Bounded size room) :
    run (ts ++ us) m = (run ts m).bind (run us) := by
  induction ts generalizing m with
  | nil => rfl
  | cons t ts ih =>
      rw [List.cons_append, run, run, Option.bind_assoc]
      exact congrArg _ (funext ih)

theorem run_of_safe {ts : List (BufferOp β α)} (h : ∀ t ∈ ts, t.Safe size room)
    (m : Bounded size room) : ∃ m', run ts m = some m' := by
  induction ts generalizing m with
  | nil => exact ⟨m, rfl⟩
  | cons t ts ih =>
      obtain ⟨m', hm'⟩ := Bounded.put_isSome (m := m) (size_text_of_safe (h t List.mem_cons_self) m)
      obtain ⟨m'', hm''⟩ := ih (fun u hu => h u (List.mem_cons_of_mem t hu)) m'
      exact ⟨m'', by rw [run, hm', Option.bind_some, hm'']⟩

/-- A text received and passed on. -/
theorem run_relay {s : α} {v b : β} (hv : size s ≤ room v) (hb : size s ≤ room b)
    (m : Bounded size room) : ∃ m', run [receive v s, copy v b] m = some m' := by
  obtain ⟨m', hm'⟩ := Bounded.put_isSome (m := m) hv
  obtain ⟨m'', hm''⟩ := Bounded.put_isSome (m := m') hb
  refine ⟨m'', ?_⟩
  have hget : m'.get v = s := (Bounded.put_eq_some hm').2
  rw [run, into, text, hm', Option.bind_some, run, into, text, hget, hm'', Option.bind_some, run]

/-- Where a run does not fail, neither do its parts. -/
theorem run_of_append {ts us : List (BufferOp β α)} {m m' : Bounded size room}
    (h : run (ts ++ us) m = some m') : ∃ m₁, run ts m = some m₁ ∧ run us m₁ = some m' := by
  rw [run_append] at h
  exact Option.bind_eq_some_iff.1 h

theorem run_cons {t : BufferOp β α} {ts : List (BufferOp β α)} {m m' : Bounded size room}
    (h : run (t :: ts) m = some m') :
    ∃ m₁, m.put t.into (t.text m) = some m₁ ∧ run ts m₁ = some m' :=
  Option.bind_eq_some_iff.1 h

theorem size_of_relay (ts us : List (BufferOp β α)) {v b : β} {s : α} {m m' : Bounded size room}
    (h : run (ts ++ receive v s :: copy v b :: us) m = some m') : size s ≤ room b := by
  obtain ⟨m₁, -, h₁⟩ := run_of_append h
  obtain ⟨m₂, hput, h₂⟩ := run_cons h₁
  obtain ⟨m₃, hcopy, -⟩ := run_cons h₂
  have hget : m₂.get v = s := (Bounded.put_eq_some hput).2
  have hfits := (Bounded.put_eq_some hcopy).1
  rwa [text, hget] at hfits

end BufferOp

end YottaTest.Lib
