/-
  File:      YottaTest/Lib/Digits.lean
  Subject:   Digits as a program produces them, and reading them back.

  * `digitsFrom` -- the loop `digit := num % radix, num := num / radix` until `num` is 0, with as
    many turns as asked for; `digits` gives it enough turns;
  * `digits_value`, `digits_inj` -- the digits determine the number; `digits_lt`,
    `digits_ne_nil`, `length_digits`;
  * `fixedDigits` -- exactly `n` digits, most significant first, as after a decimal point;
  * `readDigits`, `readDigits_digits`, `readDigits_fixedDigits` -- reading digits back, most
    significant first;
  * `toDigits_inj`, `notMem_toDigits` -- the decimal text of a number; `toDigits_zeros`: the text of
    what digits are read as, without leading zeros; `intText`: with a minus sign below 0.
-/
import Mathlib.Data.Nat.Digits.Defs

namespace YottaTest.Lib

/-- At most `turns` turns of the digit loop; the least significant digit comes first. -/
def digitsFrom (radix : Nat) : Nat → Nat → List Nat
  | 0, _ => []
  | turns + 1, n => if n = 0 then [] else n % radix :: digitsFrom radix turns (n / radix)

/-- The digits of `n`, least significant first; none for 0. -/
def digits (radix n : Nat) : List Nat := digitsFrom radix n n

theorem digitsFrom_value {radix : Nat} (hr : 2 ≤ radix) :
    ∀ (turns n : Nat), n ≤ turns → Nat.ofDigits radix (digitsFrom radix turns n) = n
  | 0, n, h => by simp [digitsFrom, Nat.le_zero.1 h]
  | turns + 1, n, h => by
      unfold digitsFrom
      by_cases hn : n = 0
      · simp [hn]
      · have hlt : n / radix < n := Nat.div_lt_self (Nat.pos_of_ne_zero hn) hr
        rw [if_neg hn, Nat.ofDigits_cons, digitsFrom_value hr turns (n / radix) (by omega)]
        exact Nat.mod_add_div n radix

/-- **The digits determine the number.** -/
theorem digits_value {radix : Nat} (hr : 2 ≤ radix) (n : Nat) :
    Nat.ofDigits radix (digits radix n) = n :=
  digitsFrom_value hr n n (Nat.le_refl n)

theorem digits_inj {radix : Nat} (hr : 2 ≤ radix) {m n : Nat}
    (h : digits radix m = digits radix n) : m = n := by
  rw [← digits_value hr m, h, digits_value hr n]

theorem digitsFrom_lt {radix : Nat} (hr : 2 ≤ radix) :
    ∀ (turns n : Nat), ∀ d ∈ digitsFrom radix turns n, d < radix
  | 0, _, d, h => absurd h List.not_mem_nil
  | turns + 1, n, d, h => by
      unfold digitsFrom at h
      split at h
      · exact absurd h List.not_mem_nil
      · rcases List.mem_cons.1 h with h | h
        · rw [h]
          exact Nat.mod_lt _ (by omega)
        · exact digitsFrom_lt hr turns _ d h

theorem digits_lt {radix : Nat} (hr : 2 ≤ radix) (n : Nat) : ∀ d ∈ digits radix n, d < radix :=
  digitsFrom_lt hr n n

theorem digits_ne_nil {radix n : Nat} (hr : 2 ≤ radix) (hn : n ≠ 0) : digits radix n ≠ [] := by
  intro h
  have := digits_value hr n
  rw [h] at this
  exact hn this.symm

theorem length_digitsFrom {radix : Nat} (hr : 2 ≤ radix) :
    ∀ (k turns n : Nat), n < radix ^ k → (digitsFrom radix turns n).length ≤ k
  | _, 0, _, _ => Nat.zero_le _
  | 0, turns + 1, n, h => by
      have hn : n = 0 := by
        rw [Nat.pow_zero] at h
        omega
      rw [digitsFrom, if_pos hn]
      exact Nat.le_refl 0
  | k + 1, turns + 1, n, h => by
      rw [digitsFrom]
      split
      · exact Nat.zero_le _
      · rw [List.length_cons]
        have hdiv : n / radix < radix ^ k := by
          rw [Nat.div_lt_iff_lt_mul (by omega), ← Nat.pow_succ]
          exact h
        exact Nat.succ_le_succ (length_digitsFrom hr k turns (n / radix) hdiv)

theorem length_digits {radix k n : Nat} (hr : 2 ≤ radix) (h : n < radix ^ k) :
    (digits radix n).length ≤ k := length_digitsFrom hr k n n h

/-- Exactly `k` decimal digits of `n`, most significant first. -/
def fixedDigits : Nat → Nat → List Nat
  | 0, _ => []
  | k + 1, n => fixedDigits k (n / 10) ++ [n % 10]

theorem length_fixedDigits : ∀ k n : Nat, (fixedDigits k n).length = k
  | 0, _ => rfl
  | k + 1, n => by simp [fixedDigits, length_fixedDigits k]

/-- Decimal digits read after a number: each multiplies by ten and adds. -/
def readDigits (acc : Nat) (ds : List Nat) : Nat := ds.foldl (fun v d => v * 10 + d) acc

theorem readDigits_append (acc : Nat) (ds es : List Nat) :
    readDigits acc (ds ++ es) = readDigits (readDigits acc ds) es :=
  List.foldl_append

theorem readDigits_digitsFrom : ∀ turns n : Nat, n ≤ turns →
    readDigits 0 (digitsFrom 10 turns n).reverse = n
  | 0, n, h => by simp [digitsFrom, readDigits, Nat.le_zero.1 h]
  | turns + 1, n, h => by
      unfold digitsFrom
      by_cases hn : n = 0
      · simp [hn, readDigits]
      · have hlt : n / 10 < n := Nat.div_lt_self (Nat.pos_of_ne_zero hn) (by decide)
        rw [if_neg hn, List.reverse_cons, readDigits_append,
          readDigits_digitsFrom turns (n / 10) (by omega)]
        simp only [readDigits, List.foldl_cons, List.foldl_nil]
        omega

/-- **Reading a number's digits gives the number.** -/
theorem readDigits_digits (n : Nat) : readDigits 0 (digits 10 n).reverse = n :=
  readDigits_digitsFrom n n (Nat.le_refl n)

/-- Reading `k` fixed digits after a number appends them to it. -/
theorem readDigits_fixedDigits : ∀ (k acc n : Nat), n < 10 ^ k →
    readDigits acc (fixedDigits k n) = acc * 10 ^ k + n
  | 0, acc, n, h => by
      have hn : n = 0 := by simpa using h
      simp [fixedDigits, readDigits, hn]
  | k + 1, acc, n, h => by
      have hlt : n / 10 < 10 ^ k := by rw [pow_succ] at h; omega
      rw [fixedDigits, readDigits_append, readDigits_fixedDigits k acc (n / 10) hlt]
      simp only [readDigits, List.foldl_cons, List.foldl_nil, pow_succ]
      have := Nat.div_add_mod n 10
      rw [Nat.add_mul, ← Nat.mul_assoc]
      omega

/-! ## The decimal text -/

theorem toDigits_inj {m n : Nat} (h : Nat.toDigits 10 m = Nat.toDigits 10 n) : m = n := by
  rw [← Nat.ofDigitChars_ten_toDigits (n := m), h, Nat.ofDigitChars_ten_toDigits]

/-- A digit character is that of a number below 10. -/
theorem exists_digitChar {ch : Char} (h : ch.isDigit = true) : ∃ j < 10, ch = Nat.digitChar j := by
  unfold Char.isDigit at h
  simp only [Bool.and_eq_true, decide_eq_true_eq] at h
  have h₀ : 48 ≤ ch.toNat := h.1
  have h₁ : ch.toNat ≤ 57 := h.2
  have hchar : ∀ j < 10, Char.ofNat (48 + j) = Nat.digitChar j := by decide
  refine ⟨ch.toNat - 48, by omega, ?_⟩
  rw [← hchar _ (by omega), Nat.add_sub_cancel' h₀, Char.ofNat_toNat]

/-- Digits behind those of a number other than 0. -/
theorem toDigits_ofDigitChars : ∀ {t : List Char}, (∀ ch ∈ t, ch.isDigit = true) → ∀ {n : Nat}, 0 < n →
    Nat.toDigits 10 (Nat.ofDigitChars 10 t n) = Nat.toDigits 10 n ++ t
  | [], _, n, _ => by simp
  | ch :: t, h, n, hn => by
      obtain ⟨hch, ht⟩ := List.forall_mem_cons.1 h
      obtain ⟨j, hj, rfl⟩ := exists_digitChar hch
      rw [Nat.ofDigitChars_cons_digitChar_of_lt_ten hj, toDigits_ofDigitChars ht (by omega),
        ← Nat.toDigits_append_toDigits (by decide) hn hj, Nat.toDigits_of_lt_base hj,
        List.append_assoc, List.singleton_append]

/-- Zeros in front of the first digit go. -/
theorem toDigits_zeros (k : Nat) {ch : Char} {t : List Char} (hch : ch.isDigit = true) (hne : ch ≠ '0')
    (ht : ∀ ch ∈ t, ch.isDigit = true) :
    Nat.toDigits 10 (Nat.ofDigitChars 10 (List.replicate k '0' ++ ch :: t) 0) = ch :: t := by
  obtain ⟨j, hj, rfl⟩ := exists_digitChar hch
  have hpos : 0 < j := Nat.pos_of_ne_zero fun h0 => hne (by rw [h0]; rfl)
  rw [Nat.ofDigitChars_append, Nat.ofDigitChars_replicate_zero, Nat.mul_zero,
    Nat.ofDigitChars_cons_digitChar_of_lt_ten hj, Nat.mul_zero, Nat.zero_add,
    toDigits_ofDigitChars ht hpos, Nat.toDigits_of_lt_base hj, List.singleton_append]

/-- A text of digits is below the power of ten of its length. -/
theorem ofDigitChars_lt : ∀ {t : List Char}, (∀ ch ∈ t, ch.isDigit = true) → ∀ n : Nat,
    Nat.ofDigitChars 10 t n < (n + 1) * 10 ^ t.length
  | [], _, n => by simp
  | ch :: t, h, n => by
      obtain ⟨hch, ht⟩ := List.forall_mem_cons.1 h
      obtain ⟨j, hj, rfl⟩ := exists_digitChar hch
      rw [Nat.ofDigitChars_cons_digitChar_of_lt_ten hj, List.length_cons, pow_succ]
      calc Nat.ofDigitChars 10 t (10 * n + j)
          < (10 * n + j + 1) * 10 ^ t.length := ofDigitChars_lt ht _
        _ ≤ ((n + 1) * 10) * 10 ^ t.length := Nat.mul_le_mul_right _ (by omega)
        _ = (n + 1) * (10 ^ t.length * 10) := by rw [Nat.mul_assoc, Nat.mul_comm 10]

theorem notMem_toDigits {c : Char} (hc : c.isDigit = false) (n : Nat) : c ∉ Nat.toDigits 10 n := by
  intro h
  rw [Nat.isDigit_of_mem_toDigits (by decide) (by decide) h] at hc
  exact Bool.noConfusion hc

/-- **A number cut behind some of its digits**: the number in front of the cut, and what is behind it. -/
theorem ofDigitChars_take_drop (n k : Nat) :
    Nat.ofDigitChars 10 ((Nat.toDigits 10 n).take k) 0 = n / 10 ^ ((Nat.toDigits 10 n).length - k) ∧
      Nat.ofDigitChars 10 ((Nat.toDigits 10 n).drop k) 0 = n % 10 ^ ((Nat.toDigits 10 n).length - k) := by
  have hdigit : ∀ ch ∈ (Nat.toDigits 10 n).drop k, ch.isDigit = true := fun ch h =>
    Nat.isDigit_of_mem_toDigits (by decide) (by decide) (List.mem_of_mem_drop h)
  have hlt := ofDigitChars_lt hdigit 0
  have hn : n = Nat.ofDigitChars 10 ((Nat.toDigits 10 n).take k ++ (Nat.toDigits 10 n).drop k) 0 := by
    rw [List.take_append_drop, Nat.ofDigitChars_ten_toDigits]
  rw [Nat.ofDigitChars_append, Nat.ofDigitChars_eq_ofDigitChars_zero] at hn
  rw [Nat.zero_add, Nat.one_mul] at hlt
  rw [List.length_drop] at hn hlt
  generalize Nat.ofDigitChars 10 ((Nat.toDigits 10 n).take k) 0 = a at hn ⊢
  generalize Nat.ofDigitChars 10 ((Nat.toDigits 10 n).drop k) 0 = b at hn hlt ⊢
  generalize 10 ^ ((Nat.toDigits 10 n).length - k) = c at hn hlt ⊢
  rw [hn, Nat.mul_add_div (by omega), Nat.mul_add_mod, Nat.div_eq_of_lt hlt, Nat.mod_eq_of_lt hlt]
  exact ⟨Nat.add_zero a, rfl⟩

/-- Digits that denote 0 are zeros. -/
theorem ofDigitChars_eq_zero_iff {t : List Char} (h : ∀ ch ∈ t, ch.isDigit = true) :
    Nat.ofDigitChars 10 t 0 = 0 ↔ ∀ ch ∈ t, ch = '0' := by
  induction t with
  | nil => simp
  | cons ch t ih =>
      obtain ⟨hch, ht⟩ := List.forall_mem_cons.1 h
      obtain ⟨j, hj, rfl⟩ := exists_digitChar hch
      have hchar : Nat.digitChar j = '0' ↔ j = 0 := by
        have hall : ∀ j < 10, (Nat.digitChar j = '0' ↔ j = 0) := by decide
        exact hall j hj
      have hpow : 1 ≤ 10 ^ t.length := Nat.pow_pos (by decide)
      have hle := Nat.le_mul_of_pos_left j hpow
      rw [Nat.ofDigitChars_cons_digitChar_of_lt_ten hj, Nat.mul_zero, Nat.zero_add,
        Nat.ofDigitChars_eq_ofDigitChars_zero, List.forall_mem_cons, hchar, ← ih ht]
      constructor
      · intro hsum
        exact ⟨by omega, by omega⟩
      · intro hboth
        rw [hboth.1, hboth.2, Nat.mul_zero]

/-- The text of a whole number. -/
def intText (z : Int) : List Char :=
  if z < 0 then '-' :: Nat.toDigits 10 z.natAbs else Nat.toDigits 10 z.natAbs

/-- Only digits and a minus sign stand in the text of a whole number. -/
theorem notMem_intText {ch : Char} (hd : ch.isDigit = false) (hm : ch ≠ '-') (z : Int) :
    ch ∉ intText z := by
  have hdigits := notMem_toDigits hd z.natAbs
  unfold intText
  split
  · exact List.not_mem_cons_of_ne_of_not_mem hm hdigits
  · exact hdigits

theorem intText_inj {y z : Int} (h : intText y = intText z) : y = z := by
  have hminus : ∀ (n : Nat) (t : List Char), '-' :: t ≠ Nat.toDigits 10 n := fun n t he =>
    notMem_toDigits (by decide) n (he ▸ List.mem_cons_self)
  unfold intText at h
  by_cases hy : y < 0
  · by_cases hz : z < 0
    · rw [if_pos hy, if_pos hz] at h
      have := toDigits_inj (List.cons.inj h).2
      omega
    · rw [if_pos hy, if_neg hz] at h
      exact absurd h (hminus _ _)
  · by_cases hz : z < 0
    · rw [if_neg hy, if_pos hz] at h
      exact absurd h.symm (hminus _ _)
    · rw [if_neg hy, if_neg hz] at h
      have := toDigits_inj h
      omega

end YottaTest.Lib
