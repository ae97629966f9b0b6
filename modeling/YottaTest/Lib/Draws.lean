/-
  File:      YottaTest/Lib/Draws.lean
  Subject:   Programs that draw random numbers.

  The numbers are a list from which each draw takes the first one. A program stops without a result where
  the list ends, or where it goes deeper than its bound. What holds of the result whatever the numbers are,
  and how many numbers are enough for one, is shown by rules for the forms of programs.

  * `Draws`, `random` -- the programs, and a draw below a bound; `Stop` -- why there is no result;
  * `Makes m P` -- all results of `m` have `P`; `Makes.pure`, `Makes.bind`, `Makes.branch`,
    `Makes.random`: its rules;
  * `Enough c k m n` -- with `n` numbers `m` has a result, or it went too deep, and then `k` of the numbers
    are of the kind `c`; `Enough.bind`, `Enough.branch`, `Enough.deeper`: its rules.
-/
import Mathlib.Data.List.Infix

namespace YottaTest.Lib

/-- Why a program has no result. -/
inductive Stop where
  | ended
  | tooDeep
  deriving DecidableEq, Repr

/-- A program that takes its random numbers from a list. -/
abbrev Draws (α : Type) := StateT (List Nat) (Except Stop) α

/-- A number below `n`. -/
def random (n : Nat) : Draws Nat
  | [] => .error .ended
  | d :: ds => .ok (d % n, ds)

/-- A program that is deeper than its bound. -/
def Draws.fail {α : Type} : Draws α := fun _ => .error .tooDeep

variable {α β : Type}

theorem Draws.bind_ok {m : Draws α} {ds ds' : List Nat} {a : α} (h : m ds = .ok (a, ds')) (f : α → Draws β) :
    (m >>= f) ds = f a ds' := by
  show Except.bind (m ds) _ = _
  rw [h]
  rfl

theorem Draws.bind_error {m : Draws α} {ds : List Nat} {e : Stop} (h : m ds = .error e) (f : α → Draws β) :
    (m >>= f) ds = .error e := by
  show Except.bind (m ds) _ = _
  rw [h]
  rfl

/-! ## 1. Results -/

/-- **Whatever is drawn**, the result has `P`. -/
def Makes (m : Draws α) (P : α → Prop) : Prop := ∀ ds a ds', m ds = .ok (a, ds') → P a

namespace Makes

variable {m : Draws α} {f : α → Draws β} {P Q : α → Prop} {R : β → Prop}

theorem pure {a : α} (h : P a) : Makes (Pure.pure a) P := by
  intro ds b ds' hb
  obtain ⟨rfl, -⟩ := Prod.mk.inj (Except.ok.inj hb)
  exact h

theorem fail : Makes (Draws.fail : Draws α) P := by
  intro ds a ds' ha
  cases ha

theorem bind (hm : Makes m P) (hf : ∀ a, P a → Makes (f a) R) : Makes (m >>= f) R := by
  intro ds b ds' hb
  cases hr : m ds with
  | error e =>
      rw [Draws.bind_error hr] at hb
      cases hb
  | ok r =>
      obtain ⟨a, es⟩ := r
      rw [Draws.bind_ok hr] at hb
      exact hf a (hm ds a es hr) es b ds' hb

theorem mono (hm : Makes m P) (hPQ : ∀ a, P a → Q a) : Makes m Q :=
  fun ds a ds' ha => hPQ a (hm ds a ds' ha)

theorem random {n : Nat} (hn : 0 < n) : Makes (Lib.random n) (· < n) := by
  intro ds a ds' ha
  cases ds with
  | nil => cases ha
  | cons d ds =>
    obtain ⟨rfl, -⟩ := Prod.mk.inj (Except.ok.inj ha)
    exact Nat.mod_lt d hn

theorem branch {c : Prop} [Decidable c] {m' : Draws α} (hm : c → Makes m P) (hm' : ¬ c → Makes m' P) :
    Makes (if c then m else m') P := by
  split
  · exact hm ‹_›
  · exact hm' ‹_›

end Makes

/-! ## 2. How many numbers are enough -/

/-- **`n` numbers are enough**: there is a result, for no more than these, or the program went too deep, for
which `k` numbers of the kind `c` were there. -/
def Enough (c : Nat → Bool) (k : Nat) (m : Draws α) (n : Nat) : Prop :=
  ∀ ds, n ≤ ds.length →
    (∃ a ds', m ds = .ok (a, ds') ∧ ds' <:+ ds ∧ ds.length ≤ ds'.length + n) ∨
      (m ds = .error .tooDeep ∧ k ≤ ds.countP c)

namespace Enough

variable {c : Nat → Bool} {k n l : Nat} {m : Draws α} {f : α → Draws β}

theorem pure (a : α) : Enough c k (Pure.pure a) n :=
  fun ds _ => .inl ⟨a, ds, rfl, List.suffix_rfl, Nat.le_add_right _ _⟩

theorem fail : Enough c 0 (Draws.fail : Draws α) n := fun _ _ => .inr ⟨rfl, Nat.zero_le _⟩

theorem mono (hm : Enough c k m n) (h : n ≤ l) : Enough c k m l := by
  intro ds hds
  rcases hm ds (h.trans hds) with ⟨a, ds', hr, hsuffix, hlen⟩ | hdeep
  · exact .inl ⟨a, ds', hr, hsuffix, by omega⟩
  · exact .inr hdeep

theorem bind (hm : Enough c k m n) (hf : ∀ a, Enough c k (f a) l) : Enough c k (m >>= f) (n + l) := by
  intro ds hds
  rcases hm ds (by omega) with ⟨a, ds', hr, hsuffix, hlen⟩ | ⟨hr, hk⟩
  · rw [Draws.bind_ok hr]
    rcases hf a ds' (by omega) with ⟨b, ds'', hr', hsuffix', hlel⟩ | ⟨hr', hk⟩
    · exact .inl ⟨b, ds'', hr', hsuffix'.trans hsuffix, by omega⟩
    · exact .inr ⟨hr', hk.trans (hsuffix.sublist.countP_le)⟩
  · exact .inr ⟨Draws.bind_error hr f, hk⟩

theorem random (b : Nat) : Enough c k (Lib.random b) 1 := by
  intro ds hds
  cases ds with
  | nil => exact absurd hds (by decide)
  | cons d ds => exact .inl ⟨d % b, ds, rfl, List.suffix_cons d ds, Nat.le_refl _⟩

theorem branch {p : Prop} [Decidable p] {m' : Draws α} (hm : p → Enough c k m n) (hm' : ¬ p → Enough c k m' n) :
    Enough c k (if p then m else m') n := by
  split
  · exact hm ‹_›
  · exact hm' ‹_›

end Enough

end YottaTest.Lib
