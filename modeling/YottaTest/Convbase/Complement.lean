/-
  File:      YottaTest/Convbase/Complement.lean
  Subject:   gtm9115.m: FUNCPREVDECTOOCT, decimal to octal with padding and two's complement.

  The octal digits of the absolute value come from M arithmetic below 18 digits and from
  PREVCONVERTBASE else; the first way pads with up to twelve zeros at once. A negative number is
  complemented digit by digit and one is added; a first digit below 4 gets a 7 in front of it.

  * `funcprevdectooctfm`, `prevconvneg`, `funcprevdectooct` -- the routines;
  * `increment` -- adding one to a list of digits; `carryLoop_increment`: what the loop leaves;
  * `prevconvneg_head`, `prevconvneg_value` -- the first digit is at least 4, and the number that many
    digits short of a power of 8;
  * `Represents` -- padded octal, and two's complement for a negative number;
  * `dectooct_iff` -- **every number but -0 is represented, and -0 with one digit only**: its padded
    zeros are not the "0" that the complement is skipped for.
-/
import Mathlib.Data.List.TakeWhile
import YottaTest.Convbase.Numerals

namespace YottaTest.Convbase

/-! ## 1. The routines -/

/-- "000000000000" -/
def zeros12 : Text := List.replicate 12 '0'

/-- `FUNCPREVDECTOOCTFM(d,l)`, for a number of at most 17 digits. -/
def funcprevdectooctfm (d : Text) (l : Nat) : Text :=
  if d = ['0'] then zeros12.take l
  else
    let o := quotientLoop 8 two_le_eight (Nat.toDigits 10) (textValue d) []
    zeros12.take (l - o.length) ++ o

/-- `$translate(t,old,new)`, with as many new characters as old ones. -/
def translate (old new t : Text) : Text := t.map fun ch => new.getD (old.idxOf ch) ch

def charmap (base : Nat) : Text := if base = 8 then digitChars.take 8 else digitChars

/-- The charmap one place further, so that the last digit becomes the first. -/
def pocharmap (base : Nat) : Text := (charmap base).drop 1 ++ ['0']

/-- `for i=0:1:$length(v)  quit:(c'="0")  …`: the digits from the last one; `ns` and `i` after it. -/
def carryLoop (base : Nat) : Text → Text → Text → Nat → Text × Nat
  | [], _, ns, i => (ns, i)
  | ch :: rest, c, ns, i =>
      if c ≠ ['0'] then (ns, i)
      else
        let c := translate (charmap base) (pocharmap base) [ch]
        carryLoop base rest c (c ++ ns) (i + 1)

/-- `PREVCONVNEG(v,base)` -/
def prevconvneg (v : Text) (base : Nat) : Text :=
  let v := translate (charmap base) (charmap base).reverse v
  let (ns, i) := carryLoop base v.reverse ['0'] [] 0
  let ns := if i ≠ v.length then v.take (v.length - i) ++ ns else ns
  if ns.take 1 <:+: (charmap base).take (base / 2) then
    (charmap base).drop ((charmap base).length - 1) ++ ns
  else ns

/-- `f  q:i'<l  s h=apnd_h,i=i+1`, with the turns that are left. -/
def padLoop (apnd : Char) : Nat → Text → Text
  | 0, h => h
  | turns + 1, h => padLoop apnd turns (apnd :: h)

/-- `if ($l(d)<18) … else …`: native arithmetic or digit by digit. -/
def unsignedOctal (d : Text) (l : Nat) : Option Text :=
  if d.length < 18 then some (funcprevdectooctfm d l) else prevconvertbase d 10 8

/-- `FUNCPREVDECTOOCT(d,l)`; `l` may be undefined. -/
def funcprevdectooct (d : Text) (l : Option Nat) : Option Text := do
  let l := l.getD 12
  let isn := '-' ∈ d
  let d := if isn then d.drop 1 else d
  let h ← unsignedOctal d l
  let negate := isn ∧ h ≠ ['0']
  let h := if negate then prevconvneg h 8 else h
  let apnd := if negate then '7' else '0'
  return padLoop apnd (l - h.length) h

/-! ## 2. What the result is to be -/

/-- A number in decimal without leading zeros, with or without a minus sign. -/
def decimal (neg : Bool) (n : Nat) : Text := (if neg then ['-'] else []) ++ numeral 10 n

def firstDigit (h : Text) : Nat := digitChars.idxOf (h.headD '0')

/-- An octal text with as many digits as it has, read as two's complement. -/
def readBack (h : Text) : Int :=
  if 4 ≤ firstDigit h then (denoted 8 h : Int) - 8 ^ h.length else denoted 8 h

/-- At least `l` octal digits that denote the number; for a negative one modulo the power of 8 of
    their count, with a first digit of 4 or more, so that they read back as the number. -/
def Represents (neg : Bool) (n l : Nat) (h : Text) : Prop :=
  l ≤ h.length ∧ (∀ ch ∈ h, ch ∈ valbasechar 8) ∧
    if neg ∧ n ≠ 0 then
      (denoted 8 h : Int) = -n % 8 ^ h.length ∧ 4 ≤ firstDigit h ∧ readBack h = -n
    else denoted 8 h = n

/-! ## 3. Complementing and adding one -/

/-- One more, from the least significant digit; the carry out of the last digit is lost. -/
def increment : List Nat → List Nat
  | [] => []
  | j :: js => if j = 7 then 0 :: increment js else (j + 1) :: js

theorem length_increment (js : List Nat) : (increment js).length = js.length := by
  induction js with
  | nil => rfl
  | cons j js ih =>
      unfold increment
      split
      · rw [List.length_cons, ih, List.length_cons]
      · rfl

theorem increment_lt {js : List Nat} (h : ∀ j ∈ js, j < 8) : ∀ j ∈ increment js, j < 8 := by
  induction js with
  | nil => exact h
  | cons j js ih =>
      obtain ⟨hj, hjs⟩ := List.forall_mem_cons.1 h
      unfold increment
      split
      · exact List.forall_mem_cons.2 ⟨by decide, ih hjs⟩
      · exact List.forall_mem_cons.2 ⟨by omega, hjs⟩

/-- Unless all digits are 7. -/
theorem ofDigits_increment {js : List Nat} (h : ∀ j ∈ js, j < 8)
    (hlt : Nat.ofDigits 8 js + 1 < 8 ^ js.length) :
    Nat.ofDigits 8 (increment js) = Nat.ofDigits 8 js + 1 := by
  induction js with
  | nil => exact absurd hlt (by simp)
  | cons j js ih =>
      obtain ⟨hj, hjs⟩ := List.forall_mem_cons.1 h
      rw [Nat.ofDigits_cons, List.length_cons, pow_succ] at hlt
      unfold increment
      split
      · rename_i h7
        rw [Nat.ofDigits_cons, Nat.ofDigits_cons, ih hjs (by omega), h7]
        omega
      · rw [Nat.ofDigits_cons, Nat.ofDigits_cons]
        omega

theorem ofDigits_complement {js : List Nat} (h : ∀ j ∈ js, j < 8) :
    Nat.ofDigits 8 (js.map (7 - ·)) + Nat.ofDigits 8 js + 1 = 8 ^ js.length := by
  induction js with
  | nil => rfl
  | cons j js ih =>
      obtain ⟨hj, hjs⟩ := List.forall_mem_cons.1 h
      have ih := ih hjs
      rw [List.map_cons, Nat.ofDigits_cons, Nat.ofDigits_cons, List.length_cons, pow_succ, ← ih]
      omega

theorem translate_pocharmap {j : Nat} (hj : j < 8) :
    translate (charmap 8) (pocharmap 8) [d j] = [d ((j + 1) % 8)] := by
  have h : ∀ j < 8, translate (charmap 8) (pocharmap 8) [d j] = [d ((j + 1) % 8)] := by decide
  exact h j hj

theorem translate_reverse {js : List Nat} (h : ∀ j ∈ js, j < 8) :
    translate (charmap 8) (charmap 8).reverse (js.map d) = (js.map (7 - ·)).map d := by
  have hall : ∀ j < 8, (charmap 8).reverse.getD ((charmap 8).idxOf (d j)) (d j) = d (7 - j) := by
    decide
  unfold translate
  rw [List.map_map, List.map_map]
  exact List.map_congr_left fun j hj => hall j (h j hj)

/-- **The loop stops behind the first digit that does not become 0**; with the digits in front of it
    that is the number with one added. -/
theorem carryLoop_increment : ∀ {js : List Nat}, (∀ j ∈ js, j < 8) → ∀ (ns : Text) (i : Nat),
    ∃ k ≤ js.length, (carryLoop 8 (js.map d) ['0'] ns i).2 = i + k ∧
      ((js.drop k).map d).reverse ++ (carryLoop 8 (js.map d) ['0'] ns i).1 =
        ((increment js).map d).reverse ++ ns
  | [], _, ns, i => ⟨0, Nat.le_refl 0, rfl, rfl⟩
  | j :: js, h, ns, i => by
      obtain ⟨hj, hjs⟩ := List.forall_mem_cons.1 h
      have hstep : carryLoop 8 ((j :: js).map d) ['0'] ns i =
          carryLoop 8 (js.map d) [d ((j + 1) % 8)] (d ((j + 1) % 8) :: ns) (i + 1) := by
        rw [List.map_cons, carryLoop, if_neg (by simp), translate_pocharmap hj]
        rfl
      by_cases h7 : j = 7
      · subst h7
        obtain ⟨k, hk, hi, hns⟩ := carryLoop_increment hjs ('0' :: ns) (i + 1)
        refine ⟨k + 1, Nat.succ_le_succ hk, ?_, ?_⟩
        · rw [hstep, show d ((7 + 1) % 8) = '0' from rfl, hi]
          omega
        · rw [hstep, show d ((7 + 1) % 8) = '0' from rfl, List.drop_succ_cons, hns, increment,
            if_pos rfl, List.map_cons, List.reverse_cons, List.append_assoc]
          rfl
      · have hne : [d ((j + 1) % 8)] ≠ ['0'] := by
          have hall : ∀ j < 8, j ≠ 7 → [d ((j + 1) % 8)] ≠ ['0'] := by decide
          exact hall j hj h7
        have hstop : carryLoop 8 (js.map d) [d ((j + 1) % 8)] (d ((j + 1) % 8) :: ns) (i + 1) =
            (d ((j + 1) % 8) :: ns, i + 1) := by
          cases js with
          | nil => rfl
          | cons j' js => rw [List.map_cons, carryLoop, if_pos hne]
        have hmod : (j + 1) % 8 = j + 1 := Nat.mod_eq_of_lt (by omega)
        refine ⟨1, by simp, by rw [hstep, hstop], ?_⟩
        rw [hstep, hstop, List.drop_succ_cons, List.drop_zero, increment, if_neg h7, List.map_cons,
          List.reverse_cons, List.append_assoc, hmod]
        rfl

/-- The text that is made of a digit list, and what the negation makes of it before it looks at the
    first digit. -/
theorem prevconvneg_digits {js : List Nat} (h : ∀ j ∈ js, j < 8) :
    prevconvneg (js.map d).reverse 8 =
      let ns := ((increment (js.map (7 - ·))).map d).reverse
      if ns.take 1 <:+: (charmap 8).take 4 then '7' :: ns else ns := by
  have hlt : ∀ j ∈ js.map (7 - ·), j < 8 := by
    intro j hj
    obtain ⟨j', -, rfl⟩ := List.mem_map.1 hj
    omega
  have hv : translate (charmap 8) (charmap 8).reverse (js.map d).reverse =
      ((js.map (7 - ·)).map d).reverse := by
    rw [← translate_reverse h]
    simp [translate]
  obtain ⟨k, hk, hi, hns⟩ := carryLoop_increment hlt [] 0
  rw [List.append_nil] at hns
  have hwhole : (if (carryLoop 8 ((js.map (7 - ·)).map d) ['0'] [] 0).2 ≠
        ((js.map (7 - ·)).map d).reverse.length then
      ((js.map (7 - ·)).map d).reverse.take (((js.map (7 - ·)).map d).reverse.length -
        (carryLoop 8 ((js.map (7 - ·)).map d) ['0'] [] 0).2) ++
          (carryLoop 8 ((js.map (7 - ·)).map d) ['0'] [] 0).1
      else (carryLoop 8 ((js.map (7 - ·)).map d) ['0'] [] 0).1) =
        ((increment (js.map (7 - ·))).map d).reverse := by
    rw [← hns, hi, Nat.zero_add]
    split
    · have hk' : k ≤ js.length := by simpa using hk
      rw [List.take_reverse, List.map_drop]
      simp
      omega
    · rename_i hlen
      have hk' : k = js.length := by simpa using hlen
      simp [hk']
  unfold prevconvneg
  rw [hv]
  simp only [List.reverse_reverse]
  rw [hwhole]
  rfl

/-- An octal text, as a list of digits from the least significant one. -/
theorem exists_digits {v : Text} (h : ∀ ch ∈ v, ch ∈ valbasechar 8) :
    ∃ js : List Nat, (∀ j ∈ js, j < 8) ∧ v = (js.map d).reverse ∧
      denoted 8 v = Nat.ofDigits 8 js := by
  have hlt : ∀ j ∈ v.reverse.map digitChars.idxOf, j < 8 := by
    intro j hj
    obtain ⟨ch, hch, rfl⟩ := List.mem_map.1 hj
    exact idxOf_lt (h ch (List.mem_reverse.1 hch))
  have hv : v = ((v.reverse.map digitChars.idxOf).map d).reverse := by
    rw [List.map_map, ← List.map_reverse, List.reverse_reverse]
    conv_lhs => rw [← List.map_id v]
    exact List.map_congr_left fun ch hch => (d_idxOf (List.mem_of_mem_take (h ch hch))).symm
  refine ⟨_, hlt, hv, ?_⟩
  conv_lhs => rw [hv]
  exact denoted_ofDigits 8 fun j hj => Nat.lt_trans (hlt j hj) (by decide)

theorem firstDigit_cons (ch : Char) (h : Text) : firstDigit (ch :: h) = digitChars.idxOf ch := rfl

theorem four_le_firstDigit_seven (h : Text) : 4 ≤ firstDigit ('7' :: h) := by
  rw [firstDigit_cons]
  decide

/-- The first digit is one of "0123" exactly when it is below 4. -/
theorem infix_first_iff {ch : Char} (h : ch ∈ valbasechar 8) :
    [ch] <:+: (charmap 8).take 4 ↔ digitChars.idxOf ch < 4 := by
  have hall : ((valbasechar 8).all fun ch =>
      decide ([ch] <:+: (charmap 8).take 4 ↔ digitChars.idxOf ch < 4)) = true := by decide +kernel
  exact of_decide_eq_true (List.all_eq_true.1 hall ch h)

/-- The number that many digits short of a power of 8, before the first digit is looked at. -/
theorem prevconvneg_eq {v : Text} (h : ∀ ch ∈ v, ch ∈ valbasechar 8) :
    ∃ w : Text, (∀ ch ∈ w, ch ∈ valbasechar 8) ∧ w.length = v.length ∧
      (denoted 8 v ≠ 0 → denoted 8 w + denoted 8 v = 8 ^ v.length) ∧
      prevconvneg v 8 = if w.take 1 <:+: (charmap 8).take 4 then '7' :: w else w := by
  obtain ⟨js, hjs, rfl, hvalue⟩ := exists_digits h
  have hcomp : ∀ j ∈ js.map (7 - ·), j < 8 := by
    intro j hj
    obtain ⟨j', -, rfl⟩ := List.mem_map.1 hj
    omega
  have hinc := increment_lt hcomp
  have hsum := ofDigits_complement hjs
  have hdenoted : denoted 8 ((increment (js.map (7 - ·))).map d).reverse =
      Nat.ofDigits 8 (increment (js.map (7 - ·))) :=
    denoted_ofDigits 8 fun j hj => Nat.lt_trans (hinc j hj) (by decide)
  refine ⟨((increment (js.map (7 - ·))).map d).reverse, ?_, ?_, ?_, prevconvneg_digits hjs⟩
  · intro ch hch
    obtain ⟨j, hj, rfl⟩ := List.mem_map.1 (List.mem_reverse.1 hch)
    exact d_mem_valbasechar (by decide) (hinc j hj)
  · simp [length_increment]
  · intro h0
    rw [hvalue] at h0 ⊢
    rw [hdenoted, ofDigits_increment hcomp (by rw [List.length_map]; omega), List.length_reverse,
      List.length_map]
    omega

/-- A 7 in front takes as much from the number as the longer power of 8 adds. -/
theorem denoted_seven (w : Text) :
    (denoted 8 ('7' :: w) : Int) - 8 ^ ('7' :: w).length = denoted 8 w - 8 ^ w.length := by
  have h := denoted_cons 8 '7' w
  have hidx : digitChars.idxOf '7' = 7 := rfl
  rw [hidx] at h
  rw [h, List.length_cons, pow_succ]
  push_cast
  ring

/-- **A negated text**: octal digits, the first of them at least 4; and for a number other than 0, that
    number below a power of 8. -/
theorem prevconvneg_spec {v : Text} (h : ∀ ch ∈ v, ch ∈ valbasechar 8) (hne : v ≠ []) :
    (∀ ch ∈ prevconvneg v 8, ch ∈ valbasechar 8) ∧ 4 ≤ firstDigit (prevconvneg v 8) ∧
      (denoted 8 v ≠ 0 →
        (denoted 8 (prevconvneg v 8) : Int) - 8 ^ (prevconvneg v 8).length = -denoted 8 v) := by
  obtain ⟨w, hoctal, hlen, hsum, heq⟩ := prevconvneg_eq h
  have hw : w ≠ [] := by
    intro h0
    rw [h0] at hlen
    exact hne (List.length_eq_zero_iff.1 hlen.symm)
  have hvalue : denoted 8 v ≠ 0 → (denoted 8 w : Int) - 8 ^ w.length = -denoted 8 v := by
    intro h0
    have hsum := hsum h0
    rw [hlen]
    zify at hsum
    omega
  rw [heq]
  by_cases hfirst : w.take 1 <:+: (charmap 8).take 4
  · rw [if_pos hfirst, denoted_seven]
    exact ⟨List.forall_mem_cons.2 ⟨by decide, hoctal⟩, four_le_firstDigit_seven w, hvalue⟩
  · rw [if_neg hfirst]
    refine ⟨hoctal, ?_, hvalue⟩
    obtain ⟨ch, w', rfl⟩ := List.exists_cons_of_ne_nil hw
    rw [firstDigit_cons]
    exact Nat.not_lt.1 fun hlt => hfirst ((infix_first_iff (hoctal ch List.mem_cons_self)).2 hlt)

/-! ## 4. Padding -/

theorem padLoop_eq (apnd : Char) : ∀ (turns : Nat) (h : Text),
    padLoop apnd turns h = List.replicate turns apnd ++ h
  | 0, h => rfl
  | turns + 1, h => by
      rw [padLoop, padLoop_eq apnd turns, List.replicate_succ', List.append_assoc]
      rfl

theorem length_padLoop (apnd : Char) (l : Nat) (h : Text) :
    l ≤ (padLoop apnd (l - h.length) h).length := by
  rw [padLoop_eq, List.length_append, List.length_replicate]
  omega

theorem mem_padLoop {base : Nat} {apnd : Char} (hapnd : apnd ∈ valbasechar base) {h : Text}
    (hh : ∀ ch ∈ h, ch ∈ valbasechar base) (turns : Nat) :
    ∀ ch ∈ padLoop apnd turns h, ch ∈ valbasechar base := by
  rw [padLoop_eq]
  intro ch hch
  rcases List.mem_append.1 hch with hch | hch
  · rw [List.eq_of_mem_replicate hch]
    exact hapnd
  · exact hh ch hch

/-- Zeros in front. -/
theorem denoted_zeros (base k : Nat) (h : Text) :
    denoted base (List.replicate k '0' ++ h) = denoted base h := by
  induction k with
  | zero => rfl
  | succ k ih =>
      have hidx : digitChars.idxOf '0' = 0 := rfl
      rw [List.replicate_succ, List.cons_append, denoted_cons, hidx, Nat.zero_mul, Nat.zero_add, ih]

/-- Sevens in front of a first digit of at least 4. -/
theorem padLoop_sevens : ∀ (turns : Nat) (h : Text), 4 ≤ firstDigit h →
    4 ≤ firstDigit (padLoop '7' turns h) ∧
      (denoted 8 (padLoop '7' turns h) : Int) - 8 ^ (padLoop '7' turns h).length =
        denoted 8 h - 8 ^ h.length
  | 0, h, hfirst => ⟨hfirst, rfl⟩
  | turns + 1, h, _ => by
      rw [← denoted_seven h]
      exact padLoop_sevens turns ('7' :: h) (four_le_firstDigit_seven h)

/-! ## 5. The conversion -/

theorem digit_toNat {ch : Char} (h : ch ∈ valbasechar 10) :
    ch.isDigit = true ∧ ch.toNat - 48 = digitChars.idxOf ch := by
  have hall : ((valbasechar 10).all fun ch =>
      decide (ch.isDigit = true ∧ ch.toNat - 48 = digitChars.idxOf ch)) = true := by decide
  exact of_decide_eq_true (List.all_eq_true.1 hall ch h)

/-- A text of decimal digits in an expression is the number it denotes. -/
theorem textValue_eq {t : Text} (h : ∀ ch ∈ t, ch ∈ valbasechar 10) :
    textValue t = denoted 10 t := by
  have htake : t.takeWhile Char.isDigit = t :=
    List.takeWhile_eq_self_iff.2 fun ch hch => (digit_toNat (h ch hch)).1
  rw [textValue, htake, denoted]
  refine List.foldl_ext _ _ 0 fun v ch hch => ?_
  rw [(digit_toNat (h ch hch)).2]

theorem octal_nonzero {n : Nat} (hn : n ≠ 0) :
    quotientLoop 8 (by decide) (Nat.toDigits 10) n [] = numeral 8 n := by
  have hdigit : ∀ i < 8, Nat.toDigits 10 i = [d i] := by decide
  rw [quotientLoop_numeral (by decide) hdigit, List.append_nil, numeral, if_neg hn]

theorem base_eight : Base 8 := ⟨by decide, by decide⟩

theorem base_ten : Base 10 := ⟨by decide, by decide⟩

theorem numeral_ten_eq_zero_iff {n : Nat} : numeral 10 n = ['0'] ↔ n = 0 := by
  constructor
  · intro h
    rw [← denoted_numeral base_ten n, h]
    rfl
  · intro h
    rw [h]
    rfl

/-- **The octal digits of the absolute value**, on both sides of the length test; for 0 they are up to
    twelve zeros. -/
theorem octal_spec (n l : Nat) (hl : 1 ≤ l) :
    ∃ h, unsignedOctal (numeral 10 n) l = some h ∧
      (∀ ch ∈ h, ch ∈ valbasechar 8) ∧ h ≠ [] ∧ denoted 8 h = n ∧ (n = 0 → h.length = min l 12) := by
  have hten : ∀ ch ∈ numeral 10 n, ch ∈ valbasechar 10 := fun _ => mem_numeral base_ten
  have height : ∀ ch ∈ numeral 8 n, ch ∈ valbasechar 8 := fun _ => mem_numeral base_eight
  have hne : numeral 8 n ≠ [] := by
    rw [numeral_eq base_eight]
    simp [digitsOf]
  have hzeros : ∀ k, zeros12.take k = List.replicate (min k 12) '0' := fun k => List.take_replicate
  unfold unsignedOctal
  split
  · unfold funcprevdectooctfm
    by_cases hn : n = 0
    · have hd : numeral 10 n = ['0'] := numeral_ten_eq_zero_iff.2 hn
      have hlen : (zeros12.take l).length = min l 12 := by rw [hzeros, List.length_replicate]
      refine ⟨zeros12.take l, by rw [if_pos hd], ?_, ?_, ?_, fun _ => hlen⟩
      · intro ch hch
        rw [hzeros] at hch
        rw [List.eq_of_mem_replicate hch]
        decide
      · intro h0
        rw [h0, List.length_nil] at hlen
        omega
      · have := denoted_zeros 8 (min l 12) []
        rw [List.append_nil, ← hzeros] at this
        rw [hn, this]
        rfl
    · rw [if_neg fun h => hn (numeral_ten_eq_zero_iff.1 h), textValue_eq hten,
        denoted_numeral base_ten, octal_nonzero hn]
      refine ⟨_, rfl, ?_, ?_, ?_, fun h => absurd h hn⟩
      · intro ch hch
        rcases List.mem_append.1 hch with hch | hch
        · rw [hzeros] at hch
          rw [List.eq_of_mem_replicate hch]
          decide
        · exact height ch hch
      · exact fun h0 => hne (List.append_eq_nil_iff.1 h0).2
      · show denoted 8 (zeros12.take (l - (numeral 8 n).length) ++ numeral 8 n) = n
        rw [hzeros, denoted_zeros, denoted_numeral base_eight]
  · rename_i hlen
    have hconvert : prevconvertbase (numeral 10 n) 10 8 = _ :=
      prevconvertbase_digits (by decide) (by decide) hten
    rw [denoted_numeral base_ten] at hconvert
    refine ⟨numeral 8 n, hconvert, height, hne, denoted_numeral base_eight n, ?_⟩
    · intro hn
      subst hn
      exact absurd (show (numeral 10 0).length < 18 by decide) hlen

/-- What the routine does with the octal digits `h` of the absolute value. -/
def signed (neg : Bool) (l : Nat) (h : Text) : Text :=
  if neg = true ∧ h ≠ ['0'] then padLoop '7' (l - (prevconvneg h 8).length) (prevconvneg h 8)
  else padLoop '0' (l - h.length) h

theorem funcprevdectooct_decimal (neg : Bool) (n l : Nat) {h : Text}
    (heq : unsignedOctal (numeral 10 n) l = some h) :
    funcprevdectooct (decimal neg n) (some l) = some (signed neg l h) := by
  have hminus : '-' ∉ numeral 10 n := fun h => absurd (mem_numeral base_ten h) (by decide)
  unfold signed
  cases neg with
  | false => simp [funcprevdectooct, decimal, hminus, heq]
  | true =>
      simp only [funcprevdectooct, decimal, if_true, List.singleton_append, List.mem_cons_self,
        List.drop_succ_cons, List.drop_zero, heq, true_and, Option.getD_some]
      show some _ = some _
      split <;> rfl

/-- The number is not negated. -/
theorem represents_unsigned {neg : Bool} {n l : Nat} {h : Text} (hoctal : ∀ ch ∈ h, ch ∈ valbasechar 8)
    (hvalue : denoted 8 h = n) (hpos : ¬ (neg = true ∧ n ≠ 0)) :
    Represents neg n l (padLoop '0' (l - h.length) h) := by
  refine ⟨length_padLoop '0' l h, mem_padLoop (by decide) hoctal _, ?_⟩
  rw [if_neg hpos, padLoop_eq, denoted_zeros, hvalue]

/-- The number is negated. -/
theorem represents_negated {n l : Nat} {h : Text} (hoctal : ∀ ch ∈ h, ch ∈ valbasechar 8)
    (hne : h ≠ []) (hvalue : denoted 8 h = n) (hn : n ≠ 0) :
    Represents true n l (padLoop '7' (l - (prevconvneg h 8).length) (prevconvneg h 8)) := by
  obtain ⟨hmem, hfirst, hneg⟩ := prevconvneg_spec hoctal hne
  obtain ⟨hfirst', hkept⟩ := padLoop_sevens (l - (prevconvneg h 8).length) _ hfirst
  have hback := hneg (by rw [hvalue]; exact hn)
  rw [← hkept, hvalue] at hback
  have hmem' := mem_padLoop (show '7' ∈ valbasechar 8 by decide) hmem (l - (prevconvneg h 8).length)
  have hlt := denoted_lt hmem'
  refine ⟨length_padLoop '7' l _, hmem', ?_⟩
  rw [if_pos ⟨rfl, hn⟩]
  generalize padLoop '7' (l - (prevconvneg h 8).length) (prevconvneg h 8) = r at hback hfirst' hlt ⊢
  refine ⟨?_, hfirst', by rw [readBack, if_pos hfirst', hback]⟩
  zify at hlt
  rw [← hback, Int.sub_emod_right, Int.emod_eq_of_lt (Int.natCast_nonneg _) hlt]

/-- The zeros that stand for 0 are negated when they are more than one. -/
theorem not_represents_zero {l : Nat} {h : Text} (hoctal : ∀ ch ∈ h, ch ∈ valbasechar 8)
    (hne : h ≠ []) :
    ¬ Represents true 0 l (padLoop '7' (l - (prevconvneg h 8).length) (prevconvneg h 8)) := by
  intro hr
  obtain ⟨-, hfirst, -⟩ := prevconvneg_spec hoctal hne
  obtain ⟨hfirst', -⟩ := padLoop_sevens (l - (prevconvneg h 8).length) _ hfirst
  obtain ⟨-, -, hzero⟩ := hr
  rw [if_neg (by simp)] at hzero
  generalize padLoop '7' (l - (prevconvneg h 8).length) (prevconvneg h 8) = r at hfirst' hzero
  cases r with
  | nil => exact absurd hfirst' (by decide)
  | cons ch r =>
      rw [firstDigit_cons] at hfirst'
      rw [denoted_cons] at hzero
      have hpow : 0 < 8 ^ r.length := Nat.pow_pos (by decide)
      have := Nat.mul_pos (show 0 < digitChars.idxOf ch by omega) hpow
      omega

/-- **A number in decimal is represented in octal, unless it is -0 and more than one digit is asked
    for.** -/
theorem dectooct_iff (neg : Bool) (n l : Nat) (hl : 1 ≤ l) :
    (∃ h, funcprevdectooct (decimal neg n) (some l) = some h ∧ Represents neg n l h) ↔
      ¬ (neg = true ∧ n = 0 ∧ 2 ≤ l) := by
  obtain ⟨h, heq, hoctal, hne, hvalue, hlen⟩ := octal_spec n l hl
  rw [funcprevdectooct_decimal neg n l heq]
  have hresult : (∃ r, some (signed neg l h) = some r ∧ Represents neg n l r) ↔
      Represents neg n l (signed neg l h) := by simp
  rw [hresult]
  have hzero : h = ['0'] → n = 0 := by
    intro h0
    rw [← hvalue, h0]
    rfl
  unfold signed
  by_cases hn : neg = true ∧ h ≠ ['0']
  · obtain ⟨rfl, h0⟩ := hn
    rw [if_pos ⟨rfl, h0⟩]
    by_cases hn : n = 0
    · subst hn
      have hl₂ : 2 ≤ l := by
        by_contra hl₁
        have hone := hlen rfl
        obtain ⟨ch, rfl⟩ := List.length_eq_one_iff.1 (show h.length = 1 by omega)
        have hidx : digitChars.idxOf ch = 0 := by simpa [denoted] using hvalue
        have hch := (idxOf_eq_zero_iff (List.mem_of_mem_take (hoctal ch List.mem_cons_self))).1 hidx
        exact h0 (by rw [hch])
      exact iff_of_false (not_represents_zero hoctal hne) (fun h => h ⟨rfl, rfl, hl₂⟩)
    · exact iff_of_true (represents_negated hoctal hne hvalue hn) fun h => hn h.2.1
  · rw [if_neg hn]
    have hpos : ¬ (neg = true ∧ n ≠ 0) := fun h => hn ⟨h.1, fun h0 => h.2 (hzero h0)⟩
    refine iff_of_true (represents_unsigned hoctal hvalue hpos) fun h => ?_
    obtain ⟨hneg, hn₀, hl₂⟩ := h
    have h0 : h = ['0'] := by
      by_contra h0
      exact hn ⟨hneg, h0⟩
    have := hlen hn₀
    rw [h0, List.length_singleton] at this
    omega

/-- Three octal digits of two's complement. -/
theorem dectooct_iff_minus_five :
    (∃ h, funcprevdectooct (decimal true 5) (some 3) = some h ∧ Represents true 5 3 h) ↔
      ¬ (true = true ∧ 5 = 0 ∧ 2 ≤ 3) :=
  dectooct_iff true 5 3 (by decide)

/-- -0 with two digits comes back as 700. -/
theorem minus_zero_negated :
    ∃ h, funcprevdectooct (decimal true 0) (some 2) = some h ∧ ¬ denoted 8 h = 0 :=
  ⟨['7', '0', '0'], by decide, by decide⟩

end YottaTest.Convbase
