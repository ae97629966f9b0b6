/-
  File:      YottaTest/Convbase/Numerals.lean
  Subject:   gtm9115.m: what a text of digits denotes, and the loop that writes a number digit by digit.

  * `denoted_append`, `denoted_lt` -- places, and the bound by the length;
  * `denoted_ofDigits`, `denoted_numeral` -- a numeral denotes the number it is the numeral of;
  * `prevconvertbase_append`, `prevconvertbase_digits` -- the conversion of digits, with something else
    behind them or nothing;
  * `quotientLoop` -- remainders in front of each other while the number is divided by the base;
    `quotientLoop_numeral`: what it leaves is the numeral.
-/
import YottaTest.Convbase.Reference

namespace YottaTest.Convbase

/-! ## 1. Digits and their numbers -/

theorem idxOf_d {j : Nat} (hj : j < 16) : digitChars.idxOf (d j) = j := by
  have h : ∀ j < 16, digitChars.idxOf (d j) = j := by decide
  exact h j hj

theorem d_idxOf {ch : Char} (h : ch ∈ digitChars) : d (digitChars.idxOf ch) = ch := by
  have hlt := List.idxOf_lt_length_of_mem h
  rw [d, List.getD, List.getElem?_eq_getElem hlt, Option.getD_some, List.getElem_idxOf hlt]

theorem idxOf_lt {base : Nat} {ch : Char} (h : ch ∈ valbasechar base) :
    digitChars.idxOf ch < base := by
  have happ : valbasechar base ++ digitChars.drop base = digitChars := List.take_append_drop base _
  have hlt := List.idxOf_lt_length_of_mem h
  rw [← happ, List.idxOf_append_of_mem h]
  have := List.length_take_le base digitChars
  unfold valbasechar at hlt ⊢
  omega

theorem d_mem_valbasechar {base i : Nat} (hb : base ≤ 16) (hi : i < base) :
    d i ∈ valbasechar base := by
  have hlen : digitChars.length = 16 := rfl
  have hlt : i < digitChars.length := by omega
  have hd : d i = digitChars[i] := by simp [d, List.getD, List.getElem?_eq_getElem hlt]
  rw [hd]
  exact List.mem_take_iff_getElem.2 ⟨i, by omega, rfl⟩

theorem idxOf_eq_zero_iff {ch : Char} (h : ch ∈ digitChars) :
    digitChars.idxOf ch = 0 ↔ ch = '0' := by
  constructor
  · intro h0
    rw [← d_idxOf h, h0]
    rfl
  · intro h0
    rw [h0]
    rfl

/-! ## 2. What a text denotes -/

theorem denoted_append (base : Nat) (t u : Text) :
    denoted base (t ++ u) = denoted base t * base ^ u.length + denoted base u := by
  induction u using List.reverseRecOn with
  | nil => simp [denoted]
  | append_singleton u ch ih =>
      rw [← List.append_assoc, denoted_concat, denoted_concat, ih, List.length_append,
        List.length_singleton, pow_succ]
      ring

theorem denoted_cons (base : Nat) (ch : Char) (t : Text) :
    denoted base (ch :: t) = digitChars.idxOf ch * base ^ t.length + denoted base t := by
  have h := denoted_append base [ch] t
  have hone : denoted base [ch] = digitChars.idxOf ch := by simp [denoted]
  rwa [hone] at h

theorem denoted_lt {base : Nat} : ∀ {t : Text}, (∀ ch ∈ t, ch ∈ valbasechar base) →
    denoted base t < base ^ t.length
  | [], _ => Nat.one_pos
  | ch :: t, h => by
      have hch := idxOf_lt (h ch List.mem_cons_self)
      have ih := denoted_lt fun ch' h' => h ch' (List.mem_cons_of_mem ch h')
      rw [denoted_cons, List.length_cons, pow_succ]
      calc digitChars.idxOf ch * base ^ t.length + denoted base t
          < digitChars.idxOf ch * base ^ t.length + base ^ t.length := Nat.add_lt_add_left ih _
        _ = (digitChars.idxOf ch + 1) * base ^ t.length := (Nat.succ_mul _ _).symm
        _ ≤ base * base ^ t.length := Nat.mul_le_mul_right _ hch
        _ = base ^ t.length * base := Nat.mul_comm _ _

/-- Digits from the least significant one. -/
theorem denoted_ofDigits (base : Nat) : ∀ {js : List Nat}, (∀ j ∈ js, j < 16) →
    denoted base (js.map d).reverse = Nat.ofDigits base js
  | [], _ => rfl
  | j :: js, h => by
      have ih := denoted_ofDigits base fun j' h' => h j' (List.mem_cons_of_mem j h')
      rw [List.map_cons, List.reverse_cons, denoted_concat, ih, idxOf_d (h j List.mem_cons_self),
        Nat.ofDigits_cons, Nat.add_comm]

section Numerals

variable {base : Nat} (hb : Base base)

include hb

/-- **A numeral denotes its number.** -/
theorem denoted_numeral (n : Nat) : denoted base (numeral base n) = n := by
  rw [numeral_eq hb, denoted_ofDigits base (digits_lt_sixteen hb n), digitsOf, Nat.ofDigits_cons,
    Nat.ofDigits_digits]
  exact Nat.mod_add_div n base

theorem mem_numeral {n : Nat} {ch : Char} (h : ch ∈ numeral base n) : ch ∈ valbasechar base := by
  have h₂ := hb.two_le
  rw [numeral_eq hb, List.mem_reverse, List.mem_map] at h
  obtain ⟨j, hj, rfl⟩ := h
  refine d_mem_valbasechar hb.le_sixteen ?_
  rcases List.mem_cons.1 hj with rfl | hj
  · exact Nat.mod_lt n (by omega)
  · exact Nat.digits_lt_base (by omega) hj

end Numerals

/-- Digits of the base, and behind them nothing or a character that is no digit of it. -/
theorem prevconvertbase_append {frombase tobase : Nat} (hfrom : frombase ∈ bases)
    (hto : tobase ∈ bases) {ds tail : Text} (hds : ∀ ch ∈ ds, ch ∈ valbasechar frombase)
    (htail : ∀ ch, tail.head? = some ch → ch ∉ valbasechar frombase) :
    prevconvertbase (ds ++ tail) frombase tobase = some (numeral tobase (denoted frombase ds)) := by
  have hstop : tail.takeWhile (fun ch => ch ∈ valbasechar frombase) = [] := by
    cases tail with
    | nil => rfl
    | cons ch tail => rw [List.takeWhile_cons, if_neg (by simpa using htail ch rfl)]
  have hvalid : ∀ ch ∈ ds, decide (ch ∈ valbasechar frombase) = true := fun ch h =>
    decide_eq_true (hds ch h)
  rw [prevconvertbase_take _ hfrom hto, take_prevvalidlen, List.takeWhile_append_of_pos hvalid,
    hstop, List.append_nil]

theorem prevconvertbase_digits {frombase tobase : Nat} (hfrom : frombase ∈ bases)
    (hto : tobase ∈ bases) {ds : Text} (hds : ∀ ch ∈ ds, ch ∈ valbasechar frombase) :
    prevconvertbase ds frombase tobase = some (numeral tobase (denoted frombase ds)) := by
  have happend : prevconvertbase (ds ++ []) frombase tobase = _ :=
    prevconvertbase_append hfrom hto hds fun _ h => absurd h (by simp)
  rwa [List.append_nil] at happend

/-! ## 3. Writing a number -/

/-- `f  q:'d  s o=…_o,d=d\base`, with the digit that stands for the remainder. -/
def quotientLoop (base : Nat) (hb : 2 ≤ base) (digit : Nat → Text) (n : Nat) (o : Text) : Text :=
  if h : n = 0 then o
  else
    have : n / base < n := Nat.div_lt_self (Nat.pos_of_ne_zero h) hb
    quotientLoop base hb digit (n / base) (digit (n % base) ++ o)
termination_by n

theorem two_le_eight : 2 ≤ 8 := by decide

/-- **The loop leaves the numeral of a number other than 0.** -/
theorem quotientLoop_numeral {base : Nat} (hb : 2 ≤ base) {digit : Nat → Text}
    (hdigit : ∀ i < base, digit i = [d i]) (n : Nat) : ∀ o : Text,
    quotientLoop base hb digit n o = ((Nat.digits base n).map d).reverse ++ o := by
  induction n using Nat.strongRecOn with
  | ind n ih =>
      intro o
      rw [quotientLoop]
      by_cases h : n = 0
      · rw [dif_pos h, h, Nat.digits_zero]
        rfl
      · have hlt : n / base < n := Nat.div_lt_self (Nat.pos_of_ne_zero h) hb
        rw [dif_neg h, ih _ hlt, hdigit _ (Nat.mod_lt n (by omega)),
          Nat.digits_def' hb (Nat.pos_of_ne_zero h), List.map_cons, List.reverse_cons,
          List.append_assoc]

end YottaTest.Convbase
