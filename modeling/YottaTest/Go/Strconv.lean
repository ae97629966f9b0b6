/-
  File:      YottaTest/Go/Strconv.lean
  Subject:   strconv.ParseInt of Go, for base 10 and any number of bits.

  * `scan`, `ParseUint`, `ParseInt` -- the number that is read, and the error. The number beside an
    error is 0, or the bound that was passed;
  * `Denotes` -- the integer that a text denotes;
  * `ParseInt_eq_ok` -- **there is no error exactly for the texts of the integers in range, and the
    number is then that integer.**
-/
import Mathlib.Algebra.Group.Nat.Defs
import YottaTest.Lib.Digits

namespace YottaTest.Go.Strconv

abbrev Text := List Char

/-! ## 1. The functions -/

inductive NumError where
  | ErrSyntax
  | ErrRange
  deriving DecidableEq, Repr

/-- The loop over the digits; it stops as soon as the number is larger than `maxVal`. -/
def scan (maxVal : Nat) : Nat → Text → Nat × Option NumError
  | n, [] => (n, none)
  | n, c :: s =>
      if c.isDigit then
        let n1 := 10 * n + (c.toNat - '0'.toNat)
        if maxVal < n1 then (maxVal, some .ErrRange) else scan maxVal n1 s
      else (0, some .ErrSyntax)

/-- `strconv.ParseUint(s,10,bitSize)` -/
def ParseUint (s : Text) (bitSize : Nat) : Nat × Option NumError :=
  if s = [] then (0, some .ErrSyntax) else scan (2 ^ bitSize - 1) 0 s

/-- The sign and the rest of a text. -/
def sign : Text → Bool × Text
  | '+' :: s => (false, s)
  | '-' :: s => (true, s)
  | s => (false, s)

/-- `strconv.ParseInt(s,10,bitSize)` -/
def ParseInt (s : Text) (bitSize : Nat) : Int × Option NumError :=
  if s = [] then (0, some .ErrSyntax)
  else
    let neg := (sign s).1
    let un := ParseUint (sign s).2 bitSize
    let cutoff := 2 ^ (bitSize - 1)
    if un.2 = some .ErrSyntax then (0, some .ErrSyntax)
    else if neg = false ∧ un.1 ≥ cutoff then ((cutoff : Int) - 1, some .ErrRange)
    else if neg = true ∧ un.1 > cutoff then (-(cutoff : Int), some .ErrRange)
    else (if neg then -(un.1 : Int) else un.1, none)

/-! ## 2. Integers as texts -/

/-- The text of digits denotes the number. -/
def Digits (s : Text) (m : Nat) : Prop :=
  s ≠ [] ∧ (∀ c ∈ s, c.isDigit = true) ∧ m = Nat.ofDigitChars 10 s 0

/-- The text denotes the integer: digits, behind a sign or without one. -/
def Denotes (s : Text) (n : Int) : Prop :=
  ∃ m, Digits (sign s).2 m ∧ n = if (sign s).1 then -(m : Int) else m

/-- The integers of a width. -/
def InRange (bitSize : Nat) (n : Int) : Prop := -2 ^ (bitSize - 1) ≤ n ∧ n < 2 ^ (bitSize - 1)

/-! ## 3. What comes back -/

theorem le_ofDigitChars (s : Text) (n : Nat) : n ≤ Nat.ofDigitChars 10 s n := by
  induction s generalizing n with
  | nil => simp
  | cons c s ih =>
      rw [Nat.ofDigitChars_cons]
      have h := ih (10 * n + (c.toNat - '0'.toNat))
      omega

theorem scan_range {maxVal : Nat} : ∀ {s : Text} {n m : Nat}, scan maxVal n s = (m, some .ErrRange) →
    m = maxVal
  | [], n, m, h => by cases h
  | c :: s, n, m, h => by
      rw [scan] at h
      split at h
      · dsimp only at h
        split at h
        · exact (Prod.mk.inj h).1.symm
        · exact scan_range h
      · cases (Option.some.inj (Prod.mk.inj h).2)

/-- No error: the digits of a number that is not too large. -/
theorem scan_ok {maxVal : Nat} : ∀ {s : Text} {n m : Nat}, n ≤ maxVal →
    (scan maxVal n s = (m, none) ↔
      (∀ c ∈ s, c.isDigit = true) ∧ m = Nat.ofDigitChars 10 s n ∧ m ≤ maxVal)
  | [], n, m, hn => by
      rw [scan, Nat.ofDigitChars_nil]
      constructor
      · intro h
        obtain rfl := (Prod.mk.inj h).1
        exact ⟨fun c hc => absurd hc List.not_mem_nil, rfl, hn⟩
      · intro h
        rw [h.2.1]
  | c :: s, n, m, hn => by
      rw [scan, Nat.ofDigitChars_cons, List.forall_mem_cons]
      by_cases hc : c.isDigit = true
      · rw [if_pos hc]
        dsimp only
        by_cases hmax : maxVal < 10 * n + (c.toNat - '0'.toNat)
        · rw [if_pos hmax]
          refine iff_of_false (fun h => ?_) fun h => ?_
          · cases (Prod.mk.inj h).2
          · have hle := le_ofDigitChars s (10 * n + (c.toNat - '0'.toNat))
            omega
        · rw [if_neg hmax, scan_ok (Nat.le_of_not_lt hmax)]
          simp only [hc, true_and]
      · rw [if_neg hc]
        exact iff_of_false (fun h => by cases (Prod.mk.inj h).2) fun h => hc h.1.1

theorem ParseUint_ok {s : Text} {bitSize m : Nat} :
    ParseUint s bitSize = (m, none) ↔ Digits s m ∧ m ≤ 2 ^ bitSize - 1 := by
  unfold ParseUint Digits
  by_cases hs : s = []
  · rw [if_pos hs]
    exact iff_of_false (fun h => by cases (Prod.mk.inj h).2) fun h => h.1.1 hs
  · rw [if_neg hs, scan_ok (Nat.zero_le _)]
    simp only [hs, ne_eq, not_false_eq_true, true_and, and_assoc]

theorem ParseUint_range {s : Text} {bitSize m : Nat} (h : ParseUint s bitSize = (m, some .ErrRange)) :
    m = 2 ^ bitSize - 1 := by
  unfold ParseUint at h
  split at h
  · cases (Option.some.inj (Prod.mk.inj h).2)
  · exact scan_range h

theorem two_pow_pred {bitSize : Nat} (hb : 0 < bitSize) : 2 ^ bitSize = 2 * 2 ^ (bitSize - 1) := by
  obtain ⟨k, rfl⟩ : ∃ k, bitSize = k + 1 := ⟨bitSize - 1, by omega⟩
  rw [Nat.pow_succ, Nat.mul_comm, Nat.add_sub_cancel]

theorem notDigits_nil {m : Nat} : ¬ Digits [] m := fun h => h.1 rfl

/-- **There is no error exactly for the texts of the integers in range.** -/
theorem ParseInt_eq_ok {s : Text} {bitSize : Nat} (hb : 1 < bitSize) {n : Int} :
    ParseInt s bitSize = (n, none) ↔ Denotes s n ∧ InRange bitSize n := by
  have hpow := two_pow_pred (Nat.lt_trans Nat.zero_lt_one hb)
  have hcut : 2 ≤ 2 ^ (bitSize - 1) := by
    calc 2 = 2 ^ 1 := rfl
      _ ≤ 2 ^ (bitSize - 1) := Nat.pow_le_pow_right (by decide) (by omega)
  have hcast : (2 : Int) ^ (bitSize - 1) = ((2 ^ (bitSize - 1) : Nat) : Int) := by simp
  -- a text of digits for a number in range gets through ParseUint
  have hdigits : ∀ m, Digits (sign s).2 m → m ≤ 2 ^ (bitSize - 1) →
      ParseUint (sign s).2 bitSize = (m, none) :=
    fun m hm hle => ParseUint_ok.2 ⟨hm, by omega⟩
  unfold ParseInt Denotes InRange
  rw [hcast]
  generalize hc : 2 ^ (bitSize - 1) = cutoff at *
  by_cases hs : s = []
  · rw [if_pos hs, hs]
    refine iff_of_false (fun h => by cases (Prod.mk.inj h).2) fun h => ?_
    obtain ⟨⟨m, hm, -⟩, -⟩ := h
    exact notDigits_nil hm
  · rw [if_neg hs]
    have hbound : ∀ m : Nat, ∀ neg : Bool, n = (if neg then -(m : Int) else m) →
        -(cutoff : Int) ≤ n ∧ n < cutoff → m ≤ cutoff := by
      intro m neg hn hr
      cases neg with
      | true =>
          rw [if_pos rfl] at hn
          omega
      | false =>
          rw [if_neg (by decide)] at hn
          omega
    cases hu : ParseUint (sign s).2 bitSize with
    | mk un err =>
        dsimp only
        cases err with
        | some e =>
            have hright : ¬ ((∃ m, Digits (sign s).2 m ∧ n = if (sign s).1 then -(m : Int) else m) ∧
                -(cutoff : Int) ≤ n ∧ n < cutoff) := by
              intro h
              obtain ⟨⟨m, hm, hn⟩, hr⟩ := h
              rw [hdigits m hm (hbound m _ hn hr)] at hu
              cases (Prod.mk.inj hu).2
            refine iff_of_false (fun h => ?_) hright
            cases e with
            | ErrSyntax => cases (Prod.mk.inj h).2
            | ErrRange =>
                have hun := ParseUint_range hu
                rw [if_neg (by decide)] at h
                cases hneg : (sign s).1 with
                | false =>
                    rw [hneg, if_pos ⟨rfl, by omega⟩] at h
                    cases (Prod.mk.inj h).2
                | true =>
                    rw [hneg, if_neg (by simp), if_pos ⟨rfl, by omega⟩] at h
                    cases (Prod.mk.inj h).2
        | none =>
            have hdig := (ParseUint_ok.1 hu).1
            have huniq : ∀ m, Digits (sign s).2 m → m = un := fun m hm => hm.2.2.trans hdig.2.2.symm
            rw [if_neg (by decide)]
            constructor
            · intro h
              split at h
              · cases (Prod.mk.inj h).2
              · split at h
                · cases (Prod.mk.inj h).2
                · rename_i hpos hneg
                  have hn := (Prod.mk.inj h).1.symm
                  refine ⟨⟨un, hdig, hn⟩, ?_⟩
                  cases hsign : (sign s).1 with
                  | false =>
                      rw [hsign, if_neg (by decide)] at hn
                      rw [hsign] at hpos
                      simp only [true_and] at hpos
                      omega
                  | true =>
                      rw [hsign, if_pos rfl] at hn
                      rw [hsign] at hneg
                      simp only [true_and] at hneg
                      omega
            · intro h
              obtain ⟨⟨m, hm, hn⟩, hr⟩ := h
              obtain rfl := huniq m hm
              cases hsign : (sign s).1 with
              | false =>
                  rw [hsign, if_neg (by decide)] at hn
                  rw [if_neg (by omega), if_neg (by simp), hn]
                  rfl
              | true =>
                  rw [hsign, if_pos rfl] at hn
                  rw [if_neg (by simp), if_neg (by omega), hn]
                  rfl

/-- The number beside an error: the text is not that of an integer, or the integer is out of range. -/
example : ParseInt "12a".toList 32 = (0, some .ErrSyntax) := by decide
example : ParseInt "-2147483649".toList 32 = (-2147483648, some .ErrRange) := by decide

end YottaTest.Go.Strconv
