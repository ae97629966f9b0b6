/-
  File:      YottaTest/Convbase/Reference.lean
  Subject:   gtm9115.m: the base conversion the new utilities are compared with.

  Numbers of any length are texts of digits. They are added digit by digit, multiplied by halving and
  doubling, and converted place by place. A quotient below 1 begins with the decimal point, so what
  `$piece(...,".")` takes of it is the empty string, which counts as 0 but is not equal to it.

  * `c`, `d`, `wholePart` -- the digits, and the piece in front of the decimal point;
  * `prevaddval`, `prevmultiplybynumber`, `prevconvertbase`, `prevvalidlen` -- the routines;
  * `numeral` -- the canonical numeral of a number in a base;
  * `prevaddval_numeral`, `multiplyLoop_numeral` -- sums and products of numerals are numerals;
  * `prevconvertbase_numeral` -- **the conversion gives the numeral of the number that was read.**
-/
import Mathlib.Data.List.Infix
import Mathlib.Data.Nat.Digits.Defs
import Mathlib.Tactic.Ring

namespace YottaTest.Convbase

abbrev Text := List Char

/-! ## 1. The routines -/

/-- "0123456789ABCDEF" -/
def digitChars : Text :=
  ['0', '1', '2', '3', '4', '5', '6', '7', '8', '9', 'A', 'B', 'C', 'D', 'E', 'F']

/-- The array `c`: the number of a digit, up to `c("G")=16`. For another character it is undefined. -/
def c (ch : Char) : Option Nat := (digitChars ++ ['G']).idxOf? ch

/-- The array `d`: the digit of a number below 16. -/
def d (j : Nat) : Char := digitChars.getD j '0'

/-- `$piece((a/b),".")`: the whole part, and the empty string (`none`) for a fraction below 1. -/
def wholePart (a b : Nat) : Option Nat := if 0 < a ∧ a < b then none else some (a / b)

/-- A number that may be the empty string, in an expression. -/
def number (n : Option Nat) : Nat := n.getD 0

/-- The loop over the digits, least significant first; a digit behind the end of a number is 0. -/
def addLoop (base : Nat) : List Nat → List Nat → Option Nat → Text → Text
  | [], [], carry, res => if number carry > 0 then Nat.toDigits 10 (number carry) ++ res else res
  | tmp1 :: val1r, [], carry, res =>
      let currsum := tmp1 + 0 + number carry
      addLoop base val1r [] (wholePart currsum base) (d (currsum % base) :: res)
  | [], tmp2 :: val2r, carry, res =>
      let currsum := 0 + tmp2 + number carry
      addLoop base [] val2r (wholePart currsum base) (d (currsum % base) :: res)
  | tmp1 :: val1r, tmp2 :: val2r, carry, res =>
      let currsum := tmp1 + tmp2 + number carry
      addLoop base val1r val2r (wholePart currsum base) (d (currsum % base) :: res)

/-- `PREVADDVAL(val1,val2,base)`; the error for a character that is no digit is `none`. -/
def prevaddval (val1 val2 : Text) (base : Nat) : Option Text := do
  let val1r ← val1.reverse.mapM c
  let val2r ← val2.reverse.mapM c
  return addLoop base val1r val2r (some 0) []

/-- The number of halvings that are left: the empty string is halved once more, to 0. -/
def halvings : Option Nat → Nat
  | none => 1
  | some 0 => 0
  | some (n + 1) => n + 2

theorem halvings_wholePart {num : Option Nat} (h : num ≠ some 0) :
    halvings (wholePart (number num) 2) < halvings num := by
  match num with
  | none => decide
  | some 0 => exact absurd rfl h
  | some 1 => decide
  | some (n + 2) =>
      have hwhole : wholePart (number (some (n + 2))) 2 = some (n / 2 + 1) := by
        unfold wholePart number
        rw [if_neg (by simp)]
        simp
      rw [hwhole]
      show n / 2 + 2 < n + 3
      omega

/-- `for  quit:num=0  do …`: halve `num`, double `x`, and add it where `num` is odd. -/
def multiplyLoop (base : Nat) (num : Option Nat) (x res : Text) : Option Text :=
  if h : num = some 0 then some res
  else
    have := halvings_wholePart h
    (if number num % 2 > 0 then prevaddval res x base else some res).bind fun res' =>
      (prevaddval x x base).bind fun x' => multiplyLoop base (wholePart (number num) 2) x' res'
termination_by halvings num

/-- The number that a text of digits stands for in an expression. -/
def textValue (t : Text) : Nat :=
  (t.takeWhile Char.isDigit).foldl (fun v ch => 10 * v + (ch.toNat - 48)) 0

/-- `if ($find("ABCDEF",num)) … set num=c(num)`. -/
def numberOf (num : Text) : Option Nat :=
  if num <:+: ['A', 'B', 'C', 'D', 'E', 'F'] then
    match num with
    | [ch] => c ch
    | _ => none
  else some (textValue num)

/-- `PREVMULTIPLYBYNUMBER(num,x,base)` -/
def prevmultiplybynumber (num x : Text) (base : Nat) : Option Text := do
  let num ← numberOf num
  multiplyLoop base (some num) x ['0']

/-- The characters of a base, `$extract("0123456789ABCDEF",1,base)`. -/
def valbasechar (base : Nat) : Text := digitChars.take base

/-- `for i=1:1:$length(val)  set invalidi=…  quit:invalidi`, and `i-1` or `i` after it. -/
def prevvalidlen (val : Text) (base : Nat) : Nat :=
  match val with
  | [] => 0
  | ch :: rest => if ch ∈ valbasechar base then prevvalidlen rest base + 1 else 0

/-- `for  quit:m<1  do …` -/
def convertLoop (val : Text) (frombase tobase : Nat) : Nat → Text → Text → Option Text
  | 0, _, res => some res
  | m + 1, power, res => do
      let product ← prevmultiplybynumber ((val.take (m + 1)).drop m) power tobase
      let res ← prevaddval res product tobase
      let power ← prevmultiplybynumber (Nat.toDigits 10 frombase) power tobase
      convertLoop val frombase tobase m power res

/-- `PREVCONVERTBASE(val,frombase,tobase)` -/
def prevconvertbase (val : Text) (frombase tobase : Nat) : Option Text :=
  convertLoop val frombase tobase (prevvalidlen val frombase) ['1'] ['0']

/-! ## 2. Numerals -/

/-- The canonical numeral: "0", or the digits with the most significant one, not 0, in front. -/
def numeral (base n : Nat) : Text :=
  if n = 0 then ['0'] else ((Nat.digits base n).map d).reverse

/-- The number a text of digits denotes. -/
def denoted (base : Nat) (t : Text) : Nat :=
  t.foldl (fun v ch => base * v + digitChars.idxOf ch) 0

/-- The digits of a numeral, least significant first. -/
def digitsOf (base n : Nat) : List Nat := n % base :: Nat.digits base (n / base)

/-- The bases of the test. -/
structure Base (base : Nat) : Prop where
  two_le : 2 ≤ base
  le_sixteen : base ≤ 16

section Numerals

variable {base : Nat} (hb : Base base)

include hb

theorem numeral_eq (n : Nat) : numeral base n = ((digitsOf base n).map d).reverse := by
  unfold numeral digitsOf
  by_cases hn : n = 0
  · subst hn
    rw [if_pos rfl, Nat.zero_div, Nat.zero_mod, Nat.digits_zero]
    rfl
  · have := hb.two_le
    rw [if_neg hn, Nat.digits_def' (by omega) (by omega)]

theorem digits_lt_sixteen (n : Nat) : ∀ j ∈ digitsOf base n, j < 16 := by
  have h₂ := hb.two_le
  have h₁₆ := hb.le_sixteen
  intro j hj
  rcases List.mem_cons.1 hj with rfl | hj
  · have := Nat.mod_lt n (show 0 < base by omega)
    omega
  · have := Nat.digits_lt_base (by omega) hj
    omega

end Numerals

theorem c_d {j : Nat} (hj : j < 16) : c (d j) = some j := by
  have h : ∀ j < 16, c (d j) = some j := by decide
  exact h j hj

/-- The digits of a text that was made of digits. -/
theorem mapM_c {js : List Nat} (h : ∀ j ∈ js, j < 16) : (js.map d).mapM c = some js := by
  induction js with
  | nil => rfl
  | cons j js ih =>
      obtain ⟨hj, hjs⟩ := List.forall_mem_cons.1 h
      rw [List.map_cons, List.mapM_cons, c_d hj, ih hjs]
      rfl

/-! ## 3. Sums -/

section Sums

variable {base : Nat} (hb : Base base)

theorem number_wholePart (a b : Nat) : number (wholePart a b) = a / b := by
  unfold wholePart number
  split
  · rename_i h
    exact (Nat.div_eq_of_lt h.2).symm
  · rfl

include hb

/-- A sum place by place: the last digit, and the number in front of it. -/
theorem sum_split (m n carry : Nat) :
    (m + n + carry) % base = (m % base + n % base + carry) % base ∧
      (m + n + carry) / base = m / base + n / base + (m % base + n % base + carry) / base := by
  have hpos := hb.two_le
  have hsum : m + n + carry = (m % base + n % base + carry) + base * (m / base + n / base) := by
    have hm := Nat.mod_add_div m base
    have hn := Nat.mod_add_div n base
    rw [Nat.mul_add]
    omega
  constructor
  · rw [hsum, Nat.add_mul_mod_self_left]
  · rw [hsum, Nat.add_mul_div_left _ _ (by omega), Nat.add_comm]

/-- The digits of a sum, from those of the parts and a carry. -/
theorem digits_sum (m n carry : Nat) (h : 0 < m + n + carry) :
    Nat.digits base (m + n + carry) = (m % base + n % base + carry) % base ::
      Nat.digits base (m / base + n / base + (m % base + n % base + carry) / base) := by
  have hpos := hb.two_le
  obtain ⟨hmod, hdiv⟩ := sum_split hb m n carry
  rw [Nat.digits_def' (by omega) h, hdiv, hmod]

theorem carry_le_one (m n : Nat) {carry : Nat} (h : carry ≤ 1) :
    (m % base + n % base + carry) / base ≤ 1 := by
  have hpos := hb.two_le
  have hm := Nat.mod_lt m (show 0 < base by omega)
  have hn := Nat.mod_lt n (show 0 < base by omega)
  exact Nat.le_of_lt_succ (Nat.div_lt_of_lt_mul (by omega))

/-- One turn, with at least one digit left. -/
theorem addLoop_step (m n : Nat) (h : 0 < m + n) (carry : Option Nat) (res : Text) :
    addLoop base (Nat.digits base m) (Nat.digits base n) carry res =
      addLoop base (Nat.digits base (m / base)) (Nat.digits base (n / base))
        (wholePart (m % base + n % base + number carry) base)
        (d ((m % base + n % base + number carry) % base) :: res) := by
  have hpos := hb.two_le
  have hdigits : ∀ a, 0 < a → Nat.digits base a = a % base :: Nat.digits base (a / base) :=
    fun a ha => Nat.digits_def' (by omega) ha
  have hzero : Nat.digits base 0 = [] := Nat.digits_zero base
  by_cases hm : m = 0
  · subst hm
    rw [hdigits n (by omega), hzero, Nat.zero_mod, Nat.zero_div, hzero, addLoop]
  · by_cases hn : n = 0
    · subst hn
      rw [hdigits m (by omega), hzero, Nat.zero_mod, Nat.zero_div, hzero, addLoop]
    · rw [hdigits m (by omega), hdigits n (by omega), addLoop]

/-- **The loop puts the digits of the sum in front of what it has**; the carry is 0 or 1. -/
theorem addLoop_digits (k : Nat) : ∀ (m n : Nat), m + n ≤ k → ∀ (carry : Option Nat) (res : Text),
    number carry ≤ 1 →
      addLoop base (Nat.digits base m) (Nat.digits base n) carry res =
        ((Nat.digits base (m + n + number carry)).map d).reverse ++ res := by
  have hpos := hb.two_le
  have hend : ∀ (carry : Option Nat) (res : Text), number carry ≤ 1 →
      addLoop base (Nat.digits base 0) (Nat.digits base 0) carry res =
        ((Nat.digits base (0 + 0 + number carry)).map d).reverse ++ res := by
    intro carry res hcarry
    rw [Nat.digits_zero, addLoop, Nat.zero_add]
    rcases Nat.le_one_iff_eq_zero_or_eq_one.1 hcarry with h | h
    · rw [h, if_neg (by omega), Nat.digits_zero]
      rfl
    · rw [h, if_pos (by omega), Nat.digits_of_lt base 1 (by omega) (by omega)]
      rfl
  induction k with
  | zero =>
      intro m n hk carry res hcarry
      obtain rfl : m = 0 := by omega
      obtain rfl : n = 0 := by omega
      exact hend carry res hcarry
  | succ k ih =>
      intro m n hk carry res hcarry
      by_cases h : m + n = 0
      · obtain rfl : m = 0 := by omega
        obtain rfl : n = 0 := by omega
        exact hend carry res hcarry
      · have hm : m / base ≤ m / 2 := Nat.div_le_div_left hpos (by omega)
        have hn : n / base ≤ n / 2 := Nat.div_le_div_left hpos (by omega)
        have hnext : number (wholePart (m % base + n % base + number carry) base) =
            (m % base + n % base + number carry) / base := number_wholePart _ _
        rw [addLoop_step hb m n (by omega),
          ih _ _ (by omega) _ _ (by rw [hnext]; exact carry_le_one hb m n hcarry), hnext,
          digits_sum hb m n _ (by omega), List.map_cons, List.reverse_cons, List.append_assoc]
        rfl

/-- **The sum of two numerals is the numeral of the sum.** -/
theorem prevaddval_numeral (m n : Nat) :
    prevaddval (numeral base m) (numeral base n) base = some (numeral base (m + n)) := by
  have hm : (numeral base m).reverse.mapM c = some (digitsOf base m) := by
    rw [numeral_eq hb, List.reverse_reverse]
    exact mapM_c (digits_lt_sixteen hb m)
  have hn : (numeral base n).reverse.mapM c = some (digitsOf base n) := by
    rw [numeral_eq hb, List.reverse_reverse]
    exact mapM_c (digits_lt_sixteen hb n)
  have hsum : addLoop base (digitsOf base m) (digitsOf base n) (some 0) [] =
      numeral base (m + n) := by
    have hnext : number (wholePart (m % base + n % base + 0) base) =
        (m % base + n % base + 0) / base := number_wholePart _ _
    obtain ⟨hmod, hdiv⟩ := sum_split hb m n 0
    rw [digitsOf, digitsOf, addLoop]
    show addLoop base _ _ (wholePart (m % base + n % base + 0) base)
      (d ((m % base + n % base + 0) % base) :: []) = _
    rw [addLoop_digits hb _ _ _ (Nat.le_refl _) _ _
        (by rw [hnext]; exact carry_le_one hb m n (Nat.zero_le 1)), hnext, ← hdiv, ← hmod,
      numeral_eq hb, digitsOf, List.map_cons, List.reverse_cons]
    rfl
  unfold prevaddval
  rw [hm, hn]
  exact congrArg some hsum

end Sums

/-! ## 4. Products -/

section Products

variable {base : Nat} (hb : Base base)

include hb

/-- **Halving and doubling multiplies**, in every base. -/
theorem multiplyLoop_numeral (num : Option Nat) : ∀ (x res : Nat),
    multiplyLoop base num (numeral base x) (numeral base res) =
      some (numeral base (res + number num * x)) := by
  induction hn : halvings num using Nat.strongRecOn generalizing num with
  | ind k ih =>
      subst hn
      intro x res
      rw [multiplyLoop]
      by_cases h : num = some 0
      · subst h
        rw [dif_pos rfl]
        congr 2
        show res = res + 0 * x
        omega
      · have hres : (if number num % 2 > 0 then prevaddval (numeral base res) (numeral base x) base
            else some (numeral base res)) = some (numeral base (res + number num % 2 * x)) := by
          rcases Nat.mod_two_eq_zero_or_one (number num) with hmod | hmod
          · rw [hmod, if_neg (by omega), Nat.zero_mul, Nat.add_zero]
          · rw [hmod, if_pos (by omega), prevaddval_numeral hb, Nat.one_mul]
        have hsum : res + number num % 2 * x + number num / 2 * (x + x) =
            res + number num * x := by
          conv_rhs => rw [← Nat.mod_add_div (number num) 2]
          ring
        rw [dif_neg h, hres, Option.bind_some, prevaddval_numeral hb, Option.bind_some,
          ih _ (halvings_wholePart h) _ rfl, number_wholePart, hsum]

/-- A digit, or a number, times a numeral. -/
theorem prevmultiplybynumber_numeral {num : Text} {k : Nat} (hnum : numberOf num = some k) (x : Nat) :
    prevmultiplybynumber num (numeral base x) base = some (numeral base (k * x)) := by
  have hzero : numeral base 0 = ['0'] := rfl
  have hloop := multiplyLoop_numeral hb (some k) x 0
  rw [hzero, Nat.zero_add] at hloop
  unfold prevmultiplybynumber
  rw [hnum]
  exact hloop

end Products

/-! ## 5. The conversion -/

/-- A digit character stands for its place, in both branches of the multiplication. -/
theorem numberOf_digit {ch : Char} (h : ch ∈ digitChars) :
    numberOf [ch] = some (digitChars.idxOf ch) := by
  have hall : (digitChars.all fun ch => numberOf [ch] = some (digitChars.idxOf ch)) = true := by
    decide +kernel
  exact of_decide_eq_true (List.all_eq_true.1 hall ch h)

/-- The longest prefix of digits of the base. -/
theorem take_prevvalidlen (base : Nat) : ∀ val : Text,
    val.take (prevvalidlen val base) = val.takeWhile fun ch => ch ∈ valbasechar base
  | [] => rfl
  | ch :: rest => by
      rw [prevvalidlen, List.takeWhile_cons]
      by_cases h : ch ∈ valbasechar base
      · rw [if_pos h, if_pos (decide_eq_true h), List.take_succ_cons, take_prevvalidlen base rest]
      · rw [if_neg h, if_neg (by simpa using h), List.take_zero]

theorem prevvalidlen_le (base : Nat) : ∀ val : Text, prevvalidlen val base ≤ val.length
  | [] => Nat.le_refl 0
  | ch :: rest => by
      have := prevvalidlen_le base rest
      rw [prevvalidlen, List.length_cons]
      split <;> omega

/-- The bases the routine is called with. -/
def bases : List Nat := [8, 10, 16]

theorem base_of_mem {base : Nat} (h : base ∈ bases) : Base base := by
  have hall : ∀ b ∈ bases, 2 ≤ b ∧ b ≤ 16 := by decide
  exact ⟨(hall base h).1, (hall base h).2⟩

theorem numberOf_base {base : Nat} (h : base ∈ bases) :
    numberOf (Nat.toDigits 10 base) = some base := by
  have hall : ∀ b ∈ bases, numberOf (Nat.toDigits 10 b) = some b := by decide +kernel
  exact hall base h

theorem denoted_concat (base : Nat) (t : Text) (ch : Char) :
    denoted base (t ++ [ch]) = base * denoted base t + digitChars.idxOf ch := by
  rw [denoted, List.foldl_append]
  rfl

/-- **The loop adds the places it has left**, each times the power it stands for. -/
theorem convertLoop_numeral {frombase tobase : Nat} (hfrom : frombase ∈ bases) (hto : Base tobase)
    (val : Text) : ∀ (m : Nat), m ≤ val.length → (∀ ch ∈ val.take m, ch ∈ digitChars) →
      ∀ power res : Nat,
        convertLoop val frombase tobase m (numeral tobase power) (numeral tobase res) =
          some (numeral tobase (res + power * denoted frombase (val.take m)))
  | 0, _, _, power, res => rfl
  | m + 1, hm, hdigits, power, res => by
      have hlt : m < val.length := by omega
      have htake : val.take (m + 1) = val.take m ++ [val[m]] := (List.take_concat_get' val m hlt).symm
      have hlast : (val.take (m + 1)).drop m = [val[m]] := by
        rw [htake, List.drop_append_of_le_length (by rw [List.length_take]; omega),
          List.drop_eq_nil_of_le (by rw [List.length_take]; omega), List.nil_append]
      have hch : val[m] ∈ digitChars := by
        refine hdigits _ ?_
        rw [htake]
        exact List.mem_append_right _ (List.mem_singleton_self _)
      have hprefix : ∀ ch ∈ val.take m, ch ∈ digitChars := fun ch h =>
        hdigits ch (by rw [htake]; exact List.mem_append_left _ h)
      have hvalue : res + digitChars.idxOf val[m] * power +
          frombase * power * denoted frombase (val.take m) =
            res + power * denoted frombase (val.take (m + 1)) := by
        rw [htake, denoted_concat]
        ring
      rw [convertLoop, hlast, prevmultiplybynumber_numeral hto (numberOf_digit hch)]
      show (prevaddval _ _ tobase).bind _ = _
      rw [prevaddval_numeral hto]
      show (prevmultiplybynumber _ _ tobase).bind _ = _
      rw [prevmultiplybynumber_numeral hto (numberOf_base hfrom)]
      show convertLoop val frombase tobase m (numeral tobase (frombase * power)) _ = _
      rw [convertLoop_numeral hfrom hto val m (by omega) hprefix, hvalue]

/-- The conversion of the digits in front of the first invalid character. -/
theorem prevconvertbase_take (val : Text) {frombase tobase : Nat} (hfrom : frombase ∈ bases)
    (hto : tobase ∈ bases) :
    prevconvertbase val frombase tobase =
      some (numeral tobase (denoted frombase (val.take (prevvalidlen val frombase)))) := by
  have hbase := base_of_mem hto
  have hone : numeral tobase 1 = ['1'] := by
    have := hbase.two_le
    rw [numeral, if_neg (by omega), Nat.digits_of_lt tobase 1 (by omega) (by omega)]
    rfl
  have hdigits : ∀ ch ∈ val.take (prevvalidlen val frombase), ch ∈ digitChars := by
    intro ch h
    rw [take_prevvalidlen] at h
    exact List.mem_of_mem_take (of_decide_eq_true (List.all_eq_true.1 List.all_takeWhile ch h))
  have hloop := convertLoop_numeral hfrom hbase val _ (prevvalidlen_le frombase val) hdigits 1 0
  rw [hone, Nat.one_mul, Nat.zero_add] at hloop
  exact hloop

/-- **The conversion gives the canonical numeral of the number denoted by the longest prefix of
    digits of the base**, for texts of any length. -/
theorem prevconvertbase_numeral (val : Text) {frombase tobase : Nat} (hfrom : frombase ∈ bases)
    (hto : tobase ∈ bases) :
    prevconvertbase val frombase tobase =
      some (numeral tobase (denoted frombase (val.takeWhile fun ch => ch ∈ valbasechar frombase))) := by
  rw [prevconvertbase_take val hfrom hto, take_prevvalidlen]

theorem prevconvertbase_numeral_hex :
    prevconvertbase ['1', 'F', 'g'] 16 10 =
      some (numeral 10 (denoted 16 (['1', 'F', 'g'].takeWhile fun ch => ch ∈ valbasechar 16))) :=
  prevconvertbase_numeral ['1', 'F', 'g'] (by decide) (by decide)

end YottaTest.Convbase
