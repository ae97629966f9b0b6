/-
  File:      YottaTest/M/Numbers.lean
  Subject:   How M reads a number off the front of a text, and the text a number has.

  A text counts as the number it begins with: signs, digits, a point with more digits, and a power of
  ten behind "E". What follows is ignored, and a text that begins with none of this counts as 0. A
  number is written in one way only, without zeros in front of or behind its digits.

  * `readNumber`, `Reading.toInt` -- what is read, and the whole number it stands for;
  * `Reading.overflows`, `Reading.text` -- the canonical text, and the error for a number of 10^47 or
    more;
  * `toInt_intText` -- reading the text of a whole number gives the number;
  * `Precision` -- sums and products are exact up to 18 digits and at least stay large beyond.
-/
import Mathlib.Data.List.DropRight
import Mathlib.Data.List.TakeWhile
import YottaTest.Lib.Digits

namespace YottaTest.M

open YottaTest.Lib

/-! ## 1. Reading -/

/-- What is read off a text: a sign, the digits around the point, and the power of ten. -/
structure Reading where
  neg : Bool
  whole : List Char
  frac : List Char
  exp : Int
  deriving DecidableEq, Repr

def isSign (ch : Char) : Bool := ch = '-' ∨ ch = '+'

/-- The power of ten; "E" without digits is none. -/
def readExp : List Char → Int
  | 'E' :: '-' :: t => -Nat.ofDigitChars 10 (t.takeWhile Char.isDigit) 0
  | 'E' :: '+' :: t => Nat.ofDigitChars 10 (t.takeWhile Char.isDigit) 0
  | 'E' :: t => Nat.ofDigitChars 10 (t.takeWhile Char.isDigit) 0
  | _ => 0

/-- The digits behind a point, and what follows them. -/
def readFrac : List Char → List Char × List Char
  | '.' :: t => (t.takeWhile Char.isDigit, t.dropWhile Char.isDigit)
  | t => ([], t)

/-- The number behind the signs; without a digit there is no exponent. -/
def readUnsigned (neg : Bool) (t : List Char) : Reading :=
  let whole := t.takeWhile Char.isDigit
  let rest := readFrac (t.dropWhile Char.isDigit)
  { neg := neg
    whole := whole
    frac := rest.1
    exp := if whole ++ rest.1 = [] then 0 else readExp rest.2 }

/-- An odd number of minus signs makes the number negative. -/
def readNumber (t : List Char) : Reading :=
  readUnsigned ((t.takeWhile isSign).count '-' % 2 = 1) (t.dropWhile isSign)

namespace Reading

variable (r : Reading)

/-- All its digits, as a number. -/
def mant : Nat := Nat.ofDigitChars 10 (r.whole ++ r.frac) 0

/-- The power of ten of the last digit. -/
def scale : Int := r.exp - r.frac.length

/-- The whole part of the number, with its sign. -/
def toInt : Int :=
  let n : Int := r.mant * 10 ^ r.scale.toNat / 10 ^ (-r.scale).toNat
  if r.neg then -n else n

/-- The digits without leading zeros. -/
def digits : List Char := Nat.toDigits 10 r.mant

/-- The number of digits in front of the point; not above 0 for a number below 0.1. -/
def point : Int := r.digits.length + r.scale

/-- NUMOFLOW: the number is 10^47 or more. -/
def overflows : Bool := r.mant ≠ 0 ∧ 47 < r.point

/-- The digits in front of and behind the point, without zeros at the end. -/
def parts : List Char × List Char :=
  if r.point ≤ 0 then ([], (List.replicate (-r.point).toNat '0' ++ r.digits).rdropWhile (· = '0'))
  else (r.digits.take r.point.toNat ++ List.replicate r.scale.toNat '0',
    (r.digits.drop r.point.toNat).rdropWhile (· = '0'))

/-- The canonical text of a number of up to 18 digits; below 10^-43 it is 0. -/
def text : Option (List Char) :=
  if r.mant = 0 then some ['0']
  else if r.overflows then none
  else if r.point < -42 then some ['0']
  else some ((if r.neg then ['-'] else []) ++ r.parts.1 ++
    if r.parts.2 = [] then [] else '.' :: r.parts.2)

end Reading

/-! ## 2. Whole numbers -/

theorem isDigit_of_mem_toDigits {n : Nat} {ch : Char} (h : ch ∈ Nat.toDigits 10 n) :
    ch.isDigit = true :=
  Nat.isDigit_of_mem_toDigits (by decide) (by decide) h

/-- A text that begins with no sign. -/
theorem readNumber_unsigned {t : List Char} (h : ∀ ch, t.head? = some ch → isSign ch = false) :
    readNumber t = readUnsigned false t := by
  unfold readNumber
  cases t with
  | nil => rfl
  | cons ch t =>
      rw [List.takeWhile_cons, List.dropWhile_cons, h ch rfl]
      rfl

/-- A minus sign in front of a number without one. -/
theorem readNumber_minus {t : List Char} (h : ∀ ch, t.head? = some ch → isSign ch = false) :
    readNumber ('-' :: t) = readUnsigned true t := by
  unfold readNumber
  rw [List.takeWhile_cons, List.dropWhile_cons, if_pos (by decide), if_pos (by decide)]
  cases t with
  | nil => rfl
  | cons ch t =>
      rw [List.takeWhile_cons, List.dropWhile_cons, h ch rfl]
      rfl

theorem isSign_of_isDigit {ch : Char} (h : ch.isDigit = true) : isSign ch = false := by
  rw [Bool.eq_false_iff]
  intro hs
  have hcase : ch = '-' ∨ ch = '+' := by simpa [isSign] using hs
  rcases hcase with rfl | rfl
  · exact absurd h (by decide)
  · exact absurd h (by decide)

/-- A text of digits is read to its end. -/
theorem readUnsigned_digits (neg : Bool) {t : List Char} (h : ∀ ch ∈ t, ch.isDigit = true) :
    readUnsigned neg t = { neg := neg, whole := t, frac := [], exp := 0 } := by
  have hwhole : t.takeWhile Char.isDigit = t := List.takeWhile_eq_self_iff.2 h
  have hrest : t.dropWhile Char.isDigit = [] := List.dropWhile_eq_nil_iff.2 h
  simp [readUnsigned, hwhole, hrest, readFrac, readExp]

theorem head_toDigits {n : Nat} {ch : Char} (h : (Nat.toDigits 10 n).head? = some ch) :
    isSign ch = false :=
  isSign_of_isDigit (isDigit_of_mem_toDigits (List.mem_of_head? h))

/-- **Reading the text of a whole number gives the number.** -/
theorem toInt_intText (z : Int) : (readNumber (intText z)).toInt = z := by
  have hvalue : ∀ neg, (readUnsigned neg (Nat.toDigits 10 z.natAbs)).toInt =
      if neg then -(z.natAbs : Int) else z.natAbs := by
    intro neg
    rw [readUnsigned_digits neg fun _ => isDigit_of_mem_toDigits]
    simp [Reading.toInt, Reading.mant, Reading.scale, Nat.ofDigitChars_ten_toDigits]
  unfold intText
  by_cases hz : z < 0
  · rw [if_pos hz, readNumber_minus fun _ => head_toDigits, hvalue, if_pos rfl]
    omega
  · rw [if_neg hz, readNumber_unsigned fun _ => head_toDigits, hvalue, if_neg (by decide)]
    omega

/-! ## 3. Precision -/

/-- What a sum or product becomes: itself up to 18 digits, and with more digits another number that
    has more than 18, whichever way the digits behind the 18th are dropped. -/
structure Precision where
  round : Nat → Nat
  exact : ∀ n < 10 ^ 18, round n = n
  large : ∀ n, 10 ^ 18 ≤ n → 10 ^ 18 ≤ round n

/-- Nothing is dropped. -/
def Precision.unrounded : Precision where
  round n := n
  exact _ _ := rfl
  large _ h := h

end YottaTest.M
