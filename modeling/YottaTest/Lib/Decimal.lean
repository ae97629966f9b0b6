/-
  File:      YottaTest/Lib/Decimal.lean
  Subject:   Nonnegative numbers with decimal places: remainders, six significant digits, doubles.

  Every double is such a number, so that a program that computes with doubles and prints six digits is
  described by whole numbers only.

  * `Decimal`, `Same` -- a number with decimal places; two that have one value;
  * `rounded` -- the first six significant digits; `rounded_div`: rounding does not cross a whole number,
    but it can reach one;
  * `toDouble` -- the double nearest to a quotient; `toDouble_of_eq_mul`: a whole number below 2 ^ 53 is one;
    `half_le_floor_toDouble`: and no number is rounded to less than half of it.
-/
import Mathlib.Algebra.Order.Ring.Nat
import Mathlib.Data.Nat.Log
import YottaTest.Lib.Digits

namespace YottaTest.Lib

/-! ## 1. Values -/

/-- `mant / 10 ^ scale` -/
structure Decimal where
  mant : Nat
  scale : Nat
  deriving DecidableEq, Repr

/-- The whole number nearest to a fraction, and of two the even one. -/
def nearest (a b : Nat) : Nat :=
  if 2 * (a % b) < b ∨ (2 * (a % b) = b ∧ a / b % 2 = 0) then a / b else a / b + 1

namespace Decimal

section Values

variable (p : Decimal)

/-- The whole part. -/
def floor : Nat := p.mant / 10 ^ p.scale

/-- It has no fraction. -/
def IsWhole : Prop := p.mant % 10 ^ p.scale = 0

instance : Decidable p.IsWhole := inferInstanceAs (Decidable (p.mant % 10 ^ p.scale = 0))

def mul (q : Decimal) : Decimal := ⟨p.mant * q.mant, p.scale + q.scale⟩

/-- Both have one value. -/
def Same (q : Decimal) : Prop := p.mant * 10 ^ q.scale = q.mant * 10 ^ p.scale

instance (q : Decimal) : Decidable (p.Same q) :=
  inferInstanceAs (Decidable (p.mant * 10 ^ q.scale = q.mant * 10 ^ p.scale))

/-- The remainder of the division by a whole number. -/
def mod (n : Nat) : Decimal := ⟨p.mant % (n * 10 ^ p.scale), p.scale⟩

/-- The number of times that a whole number goes into one. -/
def div (n : Nat) : Nat := p.mant / (n * 10 ^ p.scale)

/-- The number of its digits. -/
def places : Nat := (Nat.toDigits 10 p.mant).length

/-- The power of ten of the first digit. -/
def leading : Int := p.places - 1 - p.scale

/-- Its first six digits, the last of them rounded. -/
def six : Nat :=
  if p.places ≤ 6 then p.mant * 10 ^ (6 - p.places) else nearest p.mant (10 ^ (p.places - 6))

/-- Six significant digits, as a number, and the power of ten of the first one. -/
def rounded : Nat × Int := if p.six = 10 ^ 6 then (10 ^ 5, p.leading + 1) else (p.six, p.leading)

theorem floor_mod (n : Nat) : (p.mod n).floor = p.floor % n := Nat.mod_mul_left_div_self _ _ _

theorem div_eq (n : Nat) : p.div n = p.floor / n := by
  unfold div floor
  rw [Nat.mul_comm, Nat.div_div_eq_div_mul]

theorem isWhole_mod (n : Nat) : (p.mod n).IsWhole ↔ p.IsWhole := by
  unfold IsWhole mod
  rw [Nat.mod_mod_of_dvd _ (Nat.dvd_mul_left _ _)]

/-- A remainder of a remainder. -/
theorem mod_mod {m n : Nat} (h : n ∣ m) : (p.mod m).mod n = p.mod n := by
  unfold mod
  rw [Nat.mod_mod_of_dvd _ (Nat.mul_dvd_mul_right h _)]

end Values

/-! ## 2. Six significant digits -/

section Rounding

variable {p : Decimal}

theorem mant_pos (h : ¬ p.IsWhole) : 0 < p.mant :=
  Nat.pos_of_ne_zero fun h0 => h (by rw [IsWhole, h0, Nat.zero_mod])

theorem places_pos (p : Decimal) : 0 < p.places := Nat.length_toDigits_pos

/-- A number lies between the powers of ten of its digits. -/
theorem places_spec (h : 0 < p.mant) : 10 ^ (p.places - 1) ≤ p.mant ∧ p.mant < 10 ^ p.places := by
  have hpos := places_pos p
  constructor
  · by_cases hone : p.places = 1
    · rw [hone]
      exact h
    · by_contra hlt
      have hle := (Nat.length_toDigits_le_iff (by decide) (by omega)).2 (Nat.not_le.1 hlt)
      unfold places at hle hpos
      omega
  · exact (Nat.length_toDigits_le_iff (by decide) hpos).1 (Nat.le_refl _)

/-- Below 1 if the first digit stands behind the point. -/
theorem floor_eq_zero (h : 0 < p.mant) (hneg : p.leading < 0) : p.floor = 0 := by
  obtain ⟨-, hlt⟩ := places_spec h
  have hpos := places_pos p
  unfold leading at hneg
  exact Nat.div_eq_of_lt (Nat.lt_of_lt_of_le hlt (Nat.pow_le_pow_right (by decide) (by omega)))

/-- With a first digit of a high place the number is large. -/
theorem le_floor (h : 0 < p.mant) (hfive : 5 ≤ p.leading) : 10 ^ 5 ≤ p.floor := by
  obtain ⟨hle, -⟩ := places_spec h
  unfold leading at hfive
  unfold floor
  rw [Nat.le_div_iff_mul_le (Nat.pow_pos (by decide)), ← Nat.pow_add]
  exact Nat.le_trans (Nat.pow_le_pow_right (by decide) (by omega)) hle

theorem nearest_cases (a b : Nat) : nearest a b = a / b ∨ nearest a b = a / b + 1 := by
  unfold nearest
  split
  · exact Or.inl rfl
  · exact Or.inr rfl

theorem six_le_leading (h : 0 < p.mant) (hlarge : 10 ^ 6 ≤ p.floor) : 6 ≤ p.leading := by
  obtain ⟨-, hlt⟩ := places_spec h
  have hpos := places_pos p
  unfold floor at hlarge
  rw [Nat.le_div_iff_mul_le (Nat.pow_pos (by decide)), ← Nat.pow_add] at hlarge
  have hexp := (Nat.pow_lt_pow_iff_right (by decide)).1 (Nat.lt_of_le_of_lt hlarge hlt)
  unfold leading
  omega

/-- Six digits, or a one with six zeros. -/
theorem six_spec (h : 0 < p.mant) : 10 ^ 5 ≤ p.six ∧ p.six ≤ 10 ^ 6 := by
  obtain ⟨hle, hlt⟩ := places_spec h
  have hpos := places_pos p
  unfold six
  split
  · constructor
    · calc 10 ^ 5 = 10 ^ (p.places - 1) * 10 ^ (6 - p.places) := by
            rw [← Nat.pow_add]
            congr 1
            omega
        _ ≤ p.mant * 10 ^ (6 - p.places) := Nat.mul_le_mul_right _ hle
    · calc p.mant * 10 ^ (6 - p.places) ≤ 10 ^ p.places * 10 ^ (6 - p.places) :=
            Nat.mul_le_mul_right _ (Nat.le_of_lt hlt)
        _ = 10 ^ 6 := by
            rw [← Nat.pow_add]
            congr 1
            omega
  · have hfive : 10 ^ 5 ≤ p.mant / 10 ^ (p.places - 6) := by
      rw [Nat.le_div_iff_mul_le (Nat.pow_pos (by decide)), ← Nat.pow_add]
      exact Nat.le_trans (Nat.pow_le_pow_right (by decide) (by omega)) hle
    have hsix : p.mant / 10 ^ (p.places - 6) < 10 ^ 6 := by
      rw [Nat.div_lt_iff_lt_mul (Nat.pow_pos (by decide)), ← Nat.pow_add]
      exact Nat.lt_of_lt_of_le hlt (Nat.pow_le_pow_right (by decide) (by omega))
    rcases nearest_cases p.mant (10 ^ (p.places - 6)) with heq | heq
    · rw [heq]
      omega
    · rw [heq]
      omega

/-- **Rounding to six digits keeps the whole part**, unless it reaches a whole number. -/
theorem six_div (hpos : 0 ≤ p.leading) (hsix : p.leading < 6)
    (hfrac : p.six % 10 ^ (5 - p.leading).toNat ≠ 0) :
    p.six / 10 ^ (5 - p.leading).toNat = p.floor := by
  have hplaces := places_pos p
  unfold leading at hpos hsix hfrac ⊢
  unfold floor
  unfold six at hfrac ⊢
  split
  · have hpow : 10 ^ (5 - ((p.places : Int) - 1 - p.scale)).toNat =
        10 ^ p.scale * 10 ^ (6 - p.places) := by
      rw [← Nat.pow_add]
      congr 1
      omega
    rw [hpow, Nat.mul_div_mul_right _ _ (Nat.pow_pos (by decide))]
  · rename_i hmore
    rw [if_neg hmore] at hfrac
    have hpow : 10 ^ p.scale =
        10 ^ (p.places - 6) * 10 ^ (5 - ((p.places : Int) - 1 - p.scale)).toNat := by
      rw [← Nat.pow_add]
      congr 1
      omega
    rw [hpow, ← Nat.div_div_eq_div_mul]
    rcases nearest_cases p.mant (10 ^ (p.places - 6)) with heq | heq
    · rw [heq]
    · rw [heq] at hfrac ⊢
      exact Nat.succ_div_of_not_dvd fun hdvd => hfrac (Nat.mod_eq_zero_of_dvd hdvd)

/-- Rounding up to the next power of ten moves the first digit by one place. -/
theorem rounded_cases (p : Decimal) : (p.six = 10 ^ 6 ∧ p.rounded = (10 ^ 5, p.leading + 1)) ∨
    (p.six ≠ 10 ^ 6 ∧ p.rounded = (p.six, p.leading)) := by
  by_cases h : p.six = 10 ^ 6
  · exact Or.inl ⟨h, by rw [rounded, if_pos h]⟩
  · exact Or.inr ⟨h, by rw [rounded, if_neg h]⟩

theorem rounded_spec (h : 0 < p.mant) : 10 ^ 5 ≤ p.rounded.1 ∧ p.rounded.1 < 10 ^ 6 := by
  obtain ⟨hle, hlt⟩ := six_spec h
  rcases rounded_cases p with ⟨-, heq⟩ | ⟨hne, heq⟩
  · rw [heq]
    exact ⟨Nat.le_refl _, Nat.pow_lt_pow_right (by decide) (by decide)⟩
  · rw [heq]
    exact ⟨hle, Nat.lt_of_le_of_ne hlt hne⟩

theorem length_rounded (h : 0 < p.mant) : (Nat.toDigits 10 p.rounded.1).length = 6 := by
  obtain ⟨hle, hlt⟩ := rounded_spec h
  have hsix := (Nat.length_toDigits_le_iff (by decide) (by decide)).2 hlt
  by_contra hne
  have hfive := (Nat.length_toDigits_le_iff (show 1 < 10 by decide) (show 0 < 5 by decide)).1
    (show (Nat.toDigits 10 p.rounded.1).length ≤ 5 by omega)
  omega

theorem leading_bounds (p : Decimal) : p.leading ≤ p.rounded.2 ∧ p.rounded.2 ≤ p.leading + 1 := by
  rcases rounded_cases p with ⟨-, heq⟩ | ⟨-, heq⟩
  · rw [heq]
    simp only
    omega
  · rw [heq]
    simp only
    omega

/-- **In front of the point of a rounded number stands its whole part**, if something stands behind it. -/
theorem rounded_div (hpos : 0 ≤ p.rounded.2) (hsix : p.rounded.2 < 6)
    (hfrac : p.rounded.1 % 10 ^ (5 - p.rounded.2).toNat ≠ 0) :
    p.rounded.1 / 10 ^ (5 - p.rounded.2).toNat = p.floor := by
  rcases rounded_cases p with ⟨-, heq⟩ | ⟨-, heq⟩
  · rw [heq] at hpos hsix hfrac
    exact absurd (Nat.mod_eq_zero_of_dvd (Nat.pow_dvd_pow 10 (by simp only at *; omega))) hfrac
  · rw [heq] at hpos hsix hfrac ⊢
    exact six_div hpos hsix hfrac

end Rounding

/-! ## 3. One value in two forms -/

section Forms

variable {p q : Decimal} {d : Nat}

/-- The same number with more decimal places. -/
def scaled (p : Decimal) (d : Nat) : Decimal := ⟨p.mant * 10 ^ d, p.scale + d⟩

theorem Same.scaled_eq (h : p.Same q) : p.scaled q.scale = q.scaled p.scale := by
  have hmant : p.mant * 10 ^ q.scale = q.mant * 10 ^ p.scale := h
  unfold scaled
  rw [hmant, Nat.add_comm]

@[simp] theorem floor_scaled (p : Decimal) (d : Nat) : (p.scaled d).floor = p.floor := by
  unfold scaled floor
  rw [Nat.pow_add, Nat.mul_div_mul_right _ _ (Nat.pow_pos (by decide))]

@[simp] theorem isWhole_scaled (p : Decimal) (d : Nat) : (p.scaled d).IsWhole ↔ p.IsWhole := by
  have hpow : 10 ^ d ≠ 0 := Nat.pos_iff_ne_zero.1 (Nat.pow_pos (by decide))
  unfold scaled IsWhole
  rw [Nat.pow_add, Nat.mul_mod_mul_right, Nat.mul_eq_zero]
  exact ⟨fun h => h.resolve_right hpow, Or.inl⟩

theorem mod_scaled (p : Decimal) (d n : Nat) : (p.scaled d).mod n = (p.mod n).scaled d := by
  unfold scaled mod
  rw [Nat.pow_add, ← Nat.mul_assoc, Nat.mul_mod_mul_right]

/-- The number of digits is known by the powers of ten around a number. -/
theorem places_eq {k : Nat} (h : 0 < p.mant) (hk : 0 < k) (hle : 10 ^ (k - 1) ≤ p.mant) (hlt : p.mant < 10 ^ k) :
    p.places = k := by
  obtain ⟨hple, hplt⟩ := places_spec h
  have hpos := places_pos p
  have hone : p.places - 1 < k := (Nat.pow_lt_pow_iff_right (by decide)).1 (Nat.lt_of_le_of_lt hple hlt)
  have htwo : k - 1 < p.places := (Nat.pow_lt_pow_iff_right (by decide)).1 (Nat.lt_of_le_of_lt hle hplt)
  omega

theorem places_scaled (h : 0 < p.mant) (d : Nat) : (p.scaled d).places = p.places + d := by
  obtain ⟨hle, hlt⟩ := places_spec h
  have hpos := places_pos p
  have hsplit : p.places + d - 1 = p.places - 1 + d := by omega
  refine places_eq (Nat.mul_pos h (Nat.pow_pos (by decide))) (by omega) ?_ ?_
  · rw [hsplit, Nat.pow_add]
    exact Nat.mul_le_mul_right _ hle
  · rw [Nat.pow_add]
    exact Nat.mul_lt_mul_of_pos_right hlt (Nat.pow_pos (by decide))

theorem leading_scaled (h : 0 < p.mant) (d : Nat) : (p.scaled d).leading = p.leading := by
  unfold leading
  rw [places_scaled h]
  unfold scaled
  push_cast
  omega

theorem nearest_mul (a : Nat) {b c : Nat} (hc : 0 < c) : nearest (a * c) (b * c) = nearest a b := by
  have hlt : 2 * (a % b) * c < b * c ↔ 2 * (a % b) < b := Nat.mul_lt_mul_right hc
  have heq : 2 * (a % b) * c = b * c ↔ 2 * (a % b) = b := Nat.mul_left_inj (Nat.pos_iff_ne_zero.1 hc)
  unfold nearest
  rw [Nat.mul_mod_mul_right, Nat.mul_div_mul_right _ _ hc, ← Nat.mul_assoc]
  simp only [hlt, heq]

/-- A whole number is the nearest one to itself. -/
theorem nearest_of_dvd (n : Nat) {b : Nat} (hb : 0 < b) : nearest (n * b) b = n := by
  unfold nearest
  rw [Nat.mul_mod_left, if_pos (Or.inl hb), Nat.mul_div_cancel _ hb]

theorem six_scaled (h : 0 < p.mant) (d : Nat) : (p.scaled d).six = p.six := by
  have hten : ∀ k, 0 < 10 ^ k := fun k => Nat.pow_pos (by decide)
  unfold six
  rw [places_scaled h]
  simp only [scaled]
  by_cases hless : p.places ≤ 6
  · rw [if_pos hless]
    split
    · rw [Nat.mul_assoc, ← Nat.pow_add]
      congr 2
      omega
    · -- only zeros are cut off
      have hpow : 10 ^ d = 10 ^ (6 - p.places) * 10 ^ (p.places + d - 6) := by
        rw [← Nat.pow_add]
        congr 1
        omega
      rw [hpow, ← Nat.mul_assoc]
      exact nearest_of_dvd _ (hten _)
  · have hsplit : p.places + d - 6 = p.places - 6 + d := by omega
    rw [if_neg hless, if_neg (by omega), hsplit, Nat.pow_add]
    exact nearest_mul _ (hten d)

theorem rounded_scaled (h : 0 < p.mant) (d : Nat) : (p.scaled d).rounded = p.rounded := by
  unfold rounded
  rw [six_scaled h, leading_scaled h]

end Forms

/-! ## 4. Doubles -/

section Doubles

/-- The power of two of the first binary digit of `a / b`. -/
def binary (a b : Nat) : Int := if b ≤ a then Nat.log2 (a / b) else -(Nat.log2 ((b - 1) / a) + 1)

/-- The power of two of the last one of 53 binary digits. -/
def lastDigit (a b : Nat) : Int := max (binary a b - 52) (-1074)

/-- The number of 53 binary digits that is nearest to `a / b`, and of two the one with an even last digit. -/
def toDouble (a b : Nat) : Decimal :=
  if 0 ≤ lastDigit a b then
    ⟨nearest a (b * 2 ^ (lastDigit a b).toNat) * 2 ^ (lastDigit a b).toNat, 0⟩
  else
    ⟨nearest (a * 2 ^ (-lastDigit a b).toNat) b * 5 ^ (-lastDigit a b).toNat, (-lastDigit a b).toNat⟩

/-- The double nearest to a number, if it is not too large for one. -/
def double (p : Decimal) : Option Decimal :=
  let q := toDouble p.mant (10 ^ p.scale)
  if q.mant < 2 ^ 1024 * 10 ^ q.scale then some q else none

/-- The product of the doubles for two numbers. -/
def times (p q : Decimal) : Option Decimal :=
  p.double.bind fun p => q.double.bind fun q => (p.mul q).double

/-- **A whole number below 2 ^ 53 is a double.** -/
theorem toDouble_of_eq_mul {a b n : Nat} (hb : 0 < b) (h : a = n * b) (hn : n < 2 ^ 53) :
    ∃ k, toDouble a b = ⟨n * 10 ^ k, k⟩ := by
  have hlast : lastDigit a b ≤ 0 := by
    unfold lastDigit binary
    split
    · rw [h, Nat.mul_div_cancel _ hb]
      have hlog : n.log2 < 53 := by
        by_cases hzero : n = 0
        · rw [hzero]
          decide
        · exact (Nat.log2_lt hzero).2 hn
      omega
    · omega
  unfold toDouble
  split
  · rename_i hle
    have hzero : lastDigit a b = 0 := by omega
    refine ⟨0, ?_⟩
    rw [hzero, h, Int.toNat_zero, Nat.pow_zero, Nat.pow_zero, Nat.mul_one, Nat.mul_one, Nat.mul_one,
      nearest_of_dvd n hb]
  · refine ⟨(-lastDigit a b).toNat, ?_⟩
    generalize (-lastDigit a b).toNat = k
    have hmul : a * 2 ^ k = n * 2 ^ k * b := by
      rw [h]
      ring
    rw [hmul, nearest_of_dvd _ hb, Nat.mul_assoc, ← Nat.mul_pow]

theorem div_le_nearest (a b : Nat) : a / b ≤ nearest a b := by
  rcases nearest_cases a b with h | h
  · rw [h]
  · rw [h]
    exact Nat.le_succ _

/-- **No number is rounded to less than half of it.** -/
theorem half_le_floor_toDouble (a : Nat) {b : Nat} (hb : 0 < b) : a / b ≤ 2 * (toDouble a b).floor := by
  unfold toDouble
  split
  · rename_i hle
    have hpow : 2 ^ (lastDigit a b).toNat ≤ a / b := by
      unfold lastDigit binary at hle ⊢
      split at hle
      · rename_i hba
        rw [if_pos hba]
        have hne : a / b ≠ 0 := Nat.pos_iff_ne_zero.1 (Nat.div_pos hba hb)
        exact Nat.le_trans (Nat.pow_le_pow_right (by decide) (by omega)) (Nat.log2_self_le hne)
      · omega
    generalize (lastDigit a b).toNat = k at hpow
    have hnear := div_le_nearest a (b * 2 ^ k)
    rw [← Nat.div_div_eq_div_mul] at hnear
    have hone : 1 ≤ a / b / 2 ^ k := Nat.div_pos hpow (Nat.pow_pos (by decide))
    have hdiv := Nat.div_add_mod (a / b) (2 ^ k)
    have hmod := Nat.mod_lt (a / b) (show 0 < 2 ^ k from Nat.pow_pos (by decide))
    unfold floor
    simp only [Nat.pow_zero, Nat.div_one]
    have hfirst : 2 ^ k ≤ nearest a (b * 2 ^ k) * 2 ^ k := Nat.le_mul_of_pos_left _ (by omega)
    have hsecond : 2 ^ k * (a / b / 2 ^ k) ≤ nearest a (b * 2 ^ k) * 2 ^ k := by
      rw [Nat.mul_comm]
      exact Nat.mul_le_mul_right _ hnear
    omega
  · generalize (-lastDigit a b).toNat = k
    have hfive : 0 < 5 ^ k := Nat.pow_pos (by decide)
    have hten : 10 ^ k = 2 ^ k * 5 ^ k := by rw [← Nat.mul_pow]
    unfold floor
    simp only
    rw [hten, Nat.mul_div_mul_right _ _ hfive]
    have hle : a / b ≤ nearest (a * 2 ^ k) b / 2 ^ k := by
      rw [Nat.le_div_iff_mul_le (Nat.pow_pos (by decide))]
      have hmul : a / b * 2 ^ k * b ≤ a * 2 ^ k := by
        rw [Nat.mul_right_comm]
        exact Nat.mul_le_mul_right _ (Nat.div_mul_le_self a b)
      calc a / b * 2 ^ k ≤ a * 2 ^ k / b := (Nat.le_div_iff_mul_le hb).2 hmul
        _ ≤ nearest (a * 2 ^ k) b := div_le_nearest _ _
    omega

end Doubles

end Decimal

end YottaTest.Lib
