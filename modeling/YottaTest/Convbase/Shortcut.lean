/-
  File:      YottaTest/Convbase/Shortcut.lean
  Subject:   gtm9115.m: the reference conversions between hexadecimal, octal and decimal, and the short
             inputs that they convert in M arithmetic.

  By the length of the input the number is computed by M, or the text is converted digit by digit. The
  first way folds the case of hexadecimal digits, which the second does not; the octal routines make
  a number of their input first, so that an exponent moves its digits and a row of zeros becomes "0".

  * `readLoop` -- the number read digit by digit up to the first invalid character, as precisely as M
    computes; `readLoop_eq`, `readLoop_zeros`;
  * `funcprevhextooct`, `funcprevocttodec`, `funcprevocttohex` -- the routines;
  * `Input` -- digits of the source base with other characters behind them;
  * `hextooct_iff` -- **hexadecimal to octal gives the numeral exactly when the text is short or none of
    its digits is in lower case**, and the decimal digits it begins with are not too many.
-/
import Mathlib.Data.List.TakeWhile
import YottaTest.Convbase.Complement
import YottaTest.M.Numbers

namespace YottaTest.Convbase

open YottaTest.Lib YottaTest.M

/-! ## 1. The routines -/

/-- `$find(s,ch)` for a single character: the position behind it, or 0. -/
def find (s : Text) (ch : Char) : Nat := if ch ∈ s then s.idxOf ch + 2 else 0

/-- `f … s dg=$find(map,$e(h,c)) q:'dg  s d=(d*base)+(dg-2)`: what is left of the text, and `d`. -/
def readLoop (P : Precision) (base : Nat) : Text → Nat → Nat
  | [], n => n
  | ch :: h, n =>
      let dg := find (valbasechar base) ch
      if dg = 0 then n else readLoop P base h (P.round (P.round (n * base) + (dg - 2)))

/-- `$tr(h,"abcdef","ABCDEF")` -/
def upper (h : Text) : Text :=
  translate ['a', 'b', 'c', 'd', 'e', 'f'] ['A', 'B', 'C', 'D', 'E', 'F'] h

/-- `FUNCPREVHEXTOOCTFM(h)` -/
def funcprevhextooctfm (P : Precision) (h : Text) : Text :=
  let h := upper h
  let o := quotientLoop 8 two_le_eight (Nat.toDigits 10) (readLoop P 16 h 0) []
  if 0 < textValue o then o else ['0']

/-- A number below 0. -/
def isNegative (r : Reading) : Bool := r.neg ∧ r.mant ≠ 0

/-- The number that the text counts as, when its exponent does not: `$tr(h,"E","e")`. -/
def leading (h : Text) : Reading := readNumber (translate ['E'] ['e'] h)

/-- `FUNCPREVHEXTOOCT(h)`; the comparison with 0 is the error NUMOFLOW (`none`) for a number that is too
    large. -/
def funcprevhextooct (P : Precision) (h : Text) : Option Text :=
  if (leading h).overflows then none
  else if isNegative (leading h) then some []
  else
    let e := h.take 2
    let h := if e = ['0', 'x'] ∨ e = ['0', 'X'] then h.drop 2 else h
    if h.length < 15 then some (funcprevhextooctfm P h) else prevconvertbase h 16 8

/-- `FUNCPREVOCTTODECFM(o)`; `+o` is the error NUMOFLOW (`none`) for a number that is too large. -/
def funcprevocttodecfm (P : Precision) (o : Text) : Option Text := do
  let o ← (readNumber o).text
  return Nat.toDigits 10 (readLoop P 8 o 0)

/-- `FUNCPREVOCTTODEC(o)` -/
def funcprevocttodec (P : Precision) (o : Text) : Option Text :=
  if o.take 1 = ['-'] then some []
  else if o.length < 19 then funcprevocttodecfm P o
  else prevconvertbase o 8 10

/-- `FUNCPREVOCTTOHEXFM(o)` -/
def funcprevocttohexfm (P : Precision) (o : Text) : Option Text := do
  let o ← (readNumber o).text
  return quotientLoop 16 (by decide) (fun i => [d i]) (readLoop P 8 o 0) []

/-- `FUNCPREVOCTTOHEX(o)` -/
def funcprevocttohex (P : Precision) (o : Text) : Option Text :=
  if o = ['0'] then some ['0']
  else if o.take 1 = ['-'] then some []
  else if ¬ (o ≠ [] ∧ o.all Char.isDigit) then some []
  else if '8' ∈ o ∨ '9' ∈ o then some []
  else if o.length < 19 then funcprevocttohexfm P o
  else prevconvertbase o 8 16

/-! ## 2. The inputs -/

/-- Digits, at least one of them, with other characters behind them. -/
structure Input (isDigit : Char → Bool) where
  digits : Text
  tail : Text
  ne_nil : digits ≠ []
  isDigit_digits : ∀ ch ∈ digits, isDigit ch = true
  isDigit_tail : ∀ ch ∈ tail, isDigit ch = false

def Input.text {isDigit : Char → Bool} (input : Input isDigit) : Text := input.digits ++ input.tail

def isLower (ch : Char) : Bool := ch ∈ ['a', 'b', 'c', 'd', 'e', 'f']

/-- A hexadecimal digit, in either case. -/
def isHex (ch : Char) : Bool := ch ∈ digitChars ∨ isLower ch

def isOctal (ch : Char) : Bool := ch ∈ valbasechar 8

/-! ## 3. Reading digits -/

section Reading

variable (P : Precision) {base : Nat}

/-- A number of up to 18 digits stays below what a larger one is rounded to. -/
theorem lt_round {p n : Nat} (hp : p < 10 ^ 18) (h : p < n) : p < P.round n := by
  by_cases hn : n < 10 ^ 18
  · rwa [P.exact n hn]
  · exact Nat.lt_of_lt_of_le hp (P.large n (Nat.not_lt.1 hn))

theorem find_of_mem {ch : Char} (h : ch ∈ valbasechar base) :
    find (valbasechar base) ch = digitChars.idxOf ch + 2 := by
  have happ : valbasechar base ++ digitChars.drop base = digitChars := List.take_append_drop base _
  rw [find, if_pos h]
  conv_rhs => rw [← happ, List.idxOf_append_of_mem h]

theorem readLoop_cons {ch : Char} (h : ch ∈ valbasechar base) (t : Text) (n : Nat) :
    readLoop P base (ch :: t) n =
      readLoop P base t (P.round (P.round (n * base) + digitChars.idxOf ch)) := by
  rw [readLoop, find_of_mem h]
  simp

/-- The loop stops at a character that is no digit. -/
theorem readLoop_stop {t : Text} (h : ∀ ch, t.head? = some ch → ch ∉ valbasechar base) (n : Nat) :
    readLoop P base t n = n := by
  cases t with
  | nil => rfl
  | cons ch t => rw [readLoop, find, if_neg (h ch rfl), if_pos rfl]

theorem readLoop_append : ∀ {t : Text}, (∀ ch ∈ t, ch ∈ valbasechar base) → ∀ (u : Text) (n : Nat),
    readLoop P base (t ++ u) n = readLoop P base u (readLoop P base t n)
  | [], _, _, _ => rfl
  | ch :: t, h, u, n => by
      obtain ⟨hch, ht⟩ := List.forall_mem_cons.1 h
      rw [List.cons_append, readLoop_cons P hch, readLoop_cons P hch, readLoop_append ht]

/-- What begins with no digit is not read, wherever the loop stopped before it. -/
theorem readLoop_append_stop {u : Text} (hu : ∀ ch, u.head? = some ch → ch ∉ valbasechar base) :
    ∀ (t : Text) (n : Nat), readLoop P base (t ++ u) n = readLoop P base t n
  | [], n => readLoop_stop P hu n
  | ch :: t, n => by
      by_cases hch : ch ∈ valbasechar base
      · rw [List.cons_append, readLoop_cons P hch, readLoop_cons P hch, readLoop_append_stop hu t]
      · have hstop : ∀ v : Text, readLoop P base (ch :: v) n = n := fun v =>
          readLoop_stop P (fun x hx => by rwa [← Option.some.inj hx]) n
        rw [List.cons_append, hstop, hstop]

/-- **A number of up to 18 digits is read exactly.** -/
theorem readLoop_eq (hb : 0 < base) : ∀ {t : Text}, (∀ ch ∈ t, ch ∈ valbasechar base) → ∀ {n : Nat},
    n * base ^ t.length + denoted base t < 10 ^ 18 →
      readLoop P base t n = n * base ^ t.length + denoted base t
  | [], _, n, _ => by simp [readLoop, denoted]
  | ch :: t, h, n, hlt => by
      obtain ⟨hch, ht⟩ := List.forall_mem_cons.1 h
      have hvalue : n * base ^ (ch :: t).length + denoted base (ch :: t) =
          (n * base + digitChars.idxOf ch) * base ^ t.length + denoted base t := by
        rw [denoted_cons, List.length_cons, pow_succ]
        ring
      have hpow : 1 ≤ base ^ t.length := Nat.pow_pos hb
      have hle : n * base + digitChars.idxOf ch ≤
          (n * base + digitChars.idxOf ch) * base ^ t.length := Nat.le_mul_of_pos_right _ hpow
      rw [hvalue] at hlt ⊢
      rw [readLoop_cons P hch, P.exact (n * base) (by omega), P.exact _ (by omega)]
      exact readLoop_eq hb ht hlt

/-- A text of at most 14 hexadecimal or 19 octal digits. -/
theorem readLoop_zero (hb : 0 < base) {t : Text} (h : ∀ ch ∈ t, ch ∈ valbasechar base)
    (hlen : base ^ t.length ≤ 10 ^ 18) : readLoop P base t 0 = denoted base t := by
  have hlt := denoted_lt h
  have := readLoop_eq P hb h (n := 0) (by omega)
  rwa [Nat.zero_mul, Nat.zero_add] at this

/-- Zeros behind the digits make the number larger, however it is rounded. -/
theorem lt_readLoop_zeros {p : Nat} (hp : 0 < p) (hlt : p < 10 ^ 18) : ∀ (k n : Nat), p ≤ n →
    p < readLoop P 8 (List.replicate (k + 1) '0') n
  | k, n, hn => by
      have hmore : p < P.round (P.round (n * 8) + 0) := lt_round P hlt (lt_round P hlt (by omega))
      have hstep : readLoop P 8 (List.replicate (k + 1) '0') n =
          readLoop P 8 (List.replicate k '0') (P.round (P.round (n * 8) + 0)) :=
        readLoop_cons P (by decide) _ n
      rw [hstep]
      cases k with
      | zero => exact hmore
      | succ k => exact lt_readLoop_zeros hp hlt k _ (Nat.le_of_lt hmore)

end Reading

/-! ## 4. Hexadecimal to octal -/

theorem upper_append (t u : Text) : upper (t ++ u) = upper t ++ upper u := List.map_append

theorem mem_upper {t : Text} (h : ∀ ch ∈ t, isHex ch = true) :
    ∀ ch ∈ upper t, ch ∈ valbasechar 16 := by
  have hall : ((digitChars ++ ['a', 'b', 'c', 'd', 'e', 'f']).all fun ch =>
      (upper [ch]).all fun ch' => decide (ch' ∈ valbasechar 16)) = true := by decide +kernel
  intro ch' hch'
  obtain ⟨ch, hch, rfl⟩ := List.mem_map.1 hch'
  have hmem : ch ∈ digitChars ++ ['a', 'b', 'c', 'd', 'e', 'f'] := by
    have := h ch hch
    simpa [isHex, isLower] using this
  exact of_decide_eq_true (List.all_eq_true.1 (List.all_eq_true.1 hall ch hmem) _ List.mem_cons_self)

theorem upper_eq_self {t : Text} (h : ∀ ch ∈ t, isLower ch = false) : upper t = t := by
  conv_rhs => rw [← List.map_id t]
  refine List.map_congr_left fun ch hch => ?_
  have hnot : ch ∉ ['a', 'b', 'c', 'd', 'e', 'f'] := by
    have := h ch hch
    simpa [isLower] using this
  rw [List.idxOf_eq_length hnot]
  rfl

/-- A larger base makes no smaller number of the same digits. -/
theorem denoted_mono {base base' : Nat} (h : base ≤ base') : ∀ t : Text,
    denoted base t ≤ denoted base' t
  | [] => Nat.le_refl 0
  | ch :: t => by
      rw [denoted_cons, denoted_cons]
      exact Nat.add_le_add (Nat.mul_le_mul_left _ (Nat.pow_le_pow_left h _)) (denoted_mono h t)

theorem textValue_octal_pos {n : Nat} (hn : n ≠ 0) : 0 < textValue (numeral 8 n) := by
  have hten : ∀ ch ∈ numeral 8 n, ch ∈ valbasechar 10 := by
    intro ch hch
    have hall : ((valbasechar 8).all fun ch => decide (ch ∈ valbasechar 10)) = true := by decide
    exact of_decide_eq_true (List.all_eq_true.1 hall ch (mem_numeral base_eight hch))
  have hle := denoted_mono (show 8 ≤ 10 by decide) (numeral 8 n)
  rw [denoted_numeral base_eight] at hle
  rw [textValue_eq hten]
  omega

section Hex

variable (P : Precision) {ds tail : Text} (hds : ∀ ch ∈ ds, isHex ch = true)
  (htail : ∀ ch ∈ tail, isHex ch = false)

theorem not_hex {ch : Char} (h : isHex ch = false) : ch ∉ digitChars ∧ isLower ch = false := by
  simpa [isHex] using h

/-- The first digit in lower case. -/
theorem exists_first_lower {t : Text} (h : ∃ ch ∈ t, isLower ch = true) :
    ∃ pre low post, t = pre ++ low :: post ∧ (∀ ch ∈ pre, isLower ch = false) ∧ isLower low = true := by
  induction t with
  | nil =>
      obtain ⟨ch, hch, -⟩ := h
      exact absurd hch List.not_mem_nil
  | cons x t ih =>
      by_cases hx : isLower x = true
      · exact ⟨[], x, t, rfl, fun _ h => absurd h List.not_mem_nil, hx⟩
      · have hx : isLower x = false := by simpa using hx
        obtain ⟨ch, hch, hlow⟩ := h
        have hch : ch ∈ t := by
          rcases List.mem_cons.1 hch with rfl | hch
          · rw [hx] at hlow
            exact Bool.noConfusion hlow
          · exact hch
        obtain ⟨pre, low, post, rfl, hpre, hlow'⟩ := ih ⟨ch, hch, hlow⟩
        exact ⟨x :: pre, low, post, rfl, List.forall_mem_cons.2 ⟨hx, hpre⟩, hlow'⟩

/-- A hexadecimal digit that is not in lower case is one of the characters of base 16. -/
theorem mem_of_not_lower {ch : Char} (h : isHex ch = true) (hlow : isLower ch = false) :
    ch ∈ valbasechar 16 := by
  have hor : ch ∈ digitChars ∨ isLower ch = true := by simpa [isHex] using h
  exact hor.resolve_right (by rw [hlow]; exact Bool.noConfusion)

/-- One in lower case is none of them, and as a digit in upper case it is not 0. -/
theorem isLower_spec {ch : Char} (h : isLower ch = true) :
    ch ∉ valbasechar 16 ∧ 0 < denoted 16 (upper [ch]) := by
  have hall : (['a', 'b', 'c', 'd', 'e', 'f'].all fun ch =>
      decide (ch ∉ valbasechar 16 ∧ 0 < denoted 16 (upper [ch]))) = true := by decide +kernel
  have hmem : ch ∈ ['a', 'b', 'c', 'd', 'e', 'f'] := by simpa [isLower] using h
  exact of_decide_eq_true (List.all_eq_true.1 hall ch hmem)

include hds htail

/-- **In M arithmetic**: up to 14 characters, in either case. -/
theorem hextooctfm_eq (hlen : (ds ++ tail).length < 15) :
    funcprevhextooctfm P (ds ++ tail) = numeral 8 (denoted 16 (upper ds)) := by
  have hup : upper (ds ++ tail) = upper ds ++ tail := by
    rw [upper_append, upper_eq_self fun ch hch => (not_hex (htail ch hch)).2]
  have hstop : ∀ ch, tail.head? = some ch → ch ∉ valbasechar 16 := fun ch hch hmem =>
    (not_hex (htail ch (List.mem_of_head? hch))).1 (List.mem_of_mem_take hmem)
  have hread : readLoop P 16 (upper ds ++ tail) 0 = denoted 16 (upper ds) := by
    have hle : (upper ds).length ≤ 14 := by
      rw [List.length_append] at hlen
      simp only [upper, translate, List.length_map]
      omega
    rw [readLoop_append P (mem_upper hds), readLoop_stop P hstop,
      readLoop_zero P (by decide) (mem_upper hds)]
    calc 16 ^ (upper ds).length ≤ 16 ^ 14 := Nat.pow_le_pow_right (by decide) hle
      _ ≤ 10 ^ 18 := by decide
  show (if 0 < textValue (quotientLoop 8 _ _ (readLoop P 16 (upper (ds ++ tail)) 0) []) then
    quotientLoop 8 _ _ (readLoop P 16 (upper (ds ++ tail)) 0) [] else ['0']) = _
  rw [hup, hread]
  by_cases hn : denoted 16 (upper ds) = 0
  · rw [hn, quotientLoop, dif_pos rfl]
    rfl
  · rw [octal_nonzero hn, if_pos (textValue_octal_pos hn)]

/-- **Digit by digit**: a digit in lower case ends the number, and makes it too small. -/
theorem hextooct_long : prevconvertbase (ds ++ tail) 16 8 = some (numeral 8 (denoted 16 (upper ds))) ↔
    ∀ ch ∈ ds, isLower ch = false := by
  constructor
  · intro heq
    by_contra hno
    have hlow : ∃ ch ∈ ds, isLower ch = true := by simpa using hno
    obtain ⟨pre, low, post, rfl, hpre, hlow⟩ := exists_first_lower hlow
    obtain ⟨hnot, hpos⟩ := isLower_spec hlow
    have hmem : ∀ ch ∈ pre, ch ∈ valbasechar 16 := fun ch hch =>
      mem_of_not_lower (hds ch (List.mem_append_left _ hch)) (hpre ch hch)
    have hconvert : prevconvertbase (pre ++ (low :: post ++ tail)) 16 8 = _ :=
      prevconvertbase_append (by decide) (by decide) hmem fun ch hch => by
        rwa [← Option.some.inj hch]
    have hup : upper (pre ++ low :: post) = pre ++ (upper [low] ++ upper post) := by
      rw [upper_append, upper_eq_self hpre, ← upper_append]
      rfl
    rw [List.append_assoc, hconvert] at heq
    have hvalue := congrArg (denoted 8) (Option.some.inj heq)
    rw [denoted_numeral base_eight, denoted_numeral base_eight, hup, denoted_append,
      denoted_append] at hvalue
    have hpow : ∀ k, 1 ≤ 16 ^ k := fun k => Nat.pow_pos (by decide)
    have h₁ := Nat.le_mul_of_pos_right (denoted 16 pre) (hpow (upper [low] ++ upper post).length)
    have h₂ := Nat.le_mul_of_pos_right (denoted 16 (upper [low])) (hpow (upper post).length)
    omega
  · intro hno
    rw [upper_eq_self hno]
    exact prevconvertbase_append (by decide) (by decide)
      (fun ch hch => mem_of_not_lower (hds ch hch) (hno ch hch)) fun ch hch hmem =>
        (not_hex (htail ch (List.mem_of_head? hch))).1 (List.mem_of_mem_take hmem)

end Hex

/-- The first character of an input is a digit. -/
theorem Input.head_text {isDigit : Char → Bool} (input : Input isDigit) {ch : Char}
    (h : input.text.head? = some ch) : isDigit ch = true := by
  obtain ⟨x, t, ht⟩ := List.exists_cons_of_ne_nil input.ne_nil
  rw [Input.text, ht, List.cons_append, List.head?_cons, Option.some_inj] at h
  rw [← h]
  exact input.isDigit_digits x (by rw [ht]; exact List.mem_cons_self)

/-- A hexadecimal digit is no sign, in whatever case. -/
theorem isSign_of_isHex {ch : Char} (h : isHex ch = true) :
    isSign ((['e'] : Text).getD (['E'].idxOf ch) ch) = false := by
  have hall : ((digitChars ++ ['a', 'b', 'c', 'd', 'e', 'f']).all fun ch =>
      isSign ((['e'] : Text).getD (['E'].idxOf ch) ch) = false) = true := by decide +kernel
  have hmem : ch ∈ digitChars ++ ['a', 'b', 'c', 'd', 'e', 'f'] := by
    simpa [isHex, isLower] using h
  exact of_decide_eq_true (List.all_eq_true.1 hall ch hmem)

/-- The input does not count as a number below 0. -/
theorem Input.hex_not_negative (h : Input isHex) : isNegative (leading h.text) = false := by
  have hhead : ∀ ch, (translate ['E'] ['e'] h.text).head? = some ch → isSign ch = false := by
    intro ch hch
    rw [translate, List.head?_map, Option.map_eq_some_iff] at hch
    obtain ⟨ch', hch', rfl⟩ := hch
    exact isSign_of_isHex (h.head_text hch')
  rw [leading, readNumber_unsigned hhead]
  rfl

/-- Behind a prefix "0x" or "0X" there is no digit: the digit of such an input is the 0. -/
theorem Input.hex_prefix (h : Input isHex) {x : Char} (hx : isHex x = false)
    (he : h.text.take 2 = ['0', x]) : h.digits = ['0'] ∧ ∀ ch ∈ h.text.drop 2, isHex ch = false := by
  obtain ⟨ch, ds, hds⟩ := List.exists_cons_of_ne_nil h.ne_nil
  unfold Input.text at he ⊢
  rw [hds] at he ⊢
  cases ds with
  | nil =>
      obtain ⟨rfl, -⟩ : ch = '0' ∧ _ := by simpa using he
      refine ⟨rfl, fun ch hch => h.isDigit_tail ch ?_⟩
      exact List.mem_of_mem_drop (i := 1) (by simpa using hch)
  | cons ch' ds =>
      obtain ⟨-, rfl⟩ : ch = '0' ∧ ch' = x := by simpa using he
      have hdigit := h.isDigit_digits ch' (by rw [hds]; simp)
      rw [hx] at hdigit
      exact Bool.noConfusion hdigit

/-- The conversion of hexadecimal digits gives the numeral exactly when the text does not count as a number
    that is too large, and it is short or no digit is in lower case. -/
theorem hextooct_iff (P : Precision) (h : Input isHex) :
    funcprevhextooct P h.text = some (numeral 8 (denoted 16 (upper h.digits))) ↔
      (leading h.text).overflows = false ∧
        (h.text.length < 15 ∨ ∀ ch ∈ h.digits, isLower ch = false) := by
  have hsign := h.hex_not_negative
  unfold funcprevhextooct
  by_cases hover : (leading h.text).overflows = true
  · rw [if_pos hover, hover]
    exact iff_of_false (fun heq => by cases heq) fun hcond => Bool.noConfusion hcond.1
  rw [if_neg hover, hsign, if_neg (by decide), and_iff_right (Bool.eq_false_iff.2 hover)]
  by_cases he : h.text.take 2 = ['0', 'x'] ∨ h.text.take 2 = ['0', 'X']
  · simp only [if_pos he]
    have hpre : h.digits = ['0'] ∧ ∀ ch ∈ h.text.drop 2, isHex ch = false := by
      rcases he with he | he
      · exact h.hex_prefix (by decide) he
      · exact h.hex_prefix (by decide) he
    obtain ⟨hdigits, hrest⟩ := hpre
    have hnil : ∀ ch ∈ ([] : Text), isHex ch = true := fun _ h => absurd h List.not_mem_nil
    have hupper : denoted 16 (upper h.digits) = denoted 16 (upper []) := by
      rw [hdigits]
      rfl
    have hlower : ∀ ch ∈ h.digits, isLower ch = false := by
      intro ch hch
      rw [hdigits] at hch
      rw [List.mem_singleton.1 hch]
      decide
    rw [hupper]
    refine iff_of_true ?_ (Or.inr hlower)
    split
    · rename_i hlen
      exact congrArg some (hextooctfm_eq P hnil hrest hlen)
    · exact (hextooct_long hnil hrest).2 fun _ h => absurd h List.not_mem_nil
  · simp only [if_neg he]
    by_cases hlen : h.text.length < 15
    · rw [if_pos hlen, Input.text, hextooctfm_eq P h.isDigit_digits h.isDigit_tail hlen]
      exact iff_of_true rfl (Or.inl hlen)
    · rw [if_neg hlen, or_iff_right hlen]
      exact hextooct_long h.isDigit_digits h.isDigit_tail

end YottaTest.Convbase
