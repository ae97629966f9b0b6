/-
  File:      YottaTest/M/Strings.lean
  Subject:   M strings, in the two character sets, and the string functions the tests use.

  A string is a list of characters; in UTF-8 mode with NOBADCHAR a byte that belongs to no
  character counts as one of its own. Lengths in characters (`$LENGTH`) and in bytes (`$ZLENGTH`)
  differ there.

  * `MChar`, `MStr`, `Chset`, `zlength` -- characters, strings and their size in bytes;
  * `justify` -- `$JUSTIFY(s,n)`; `dropWhile_blank_justify`: padding is what leading blanks are;
  * `dropBlanks`, `blanksToX` -- `$TRANSLATE(s," ","")` and `$TRANSLATE(s," ","X")`;
  * `natStr`, `numStr` -- the canonical text of a number; `readNum_numStr`, `numStr_inj`: the text
    gives back sign and value.
-/
import YottaTest.Lib.Digits
import YottaTest.Lib.Pieces

namespace YottaTest.M

open YottaTest.Lib

/-! ## 1. Characters and strings -/

/-- A character, by its code; or, in UTF-8 mode, a byte that is no character. -/
inductive MChar where
  | chr (code : Nat)
  | byte (b : Nat)
  deriving DecidableEq, Repr

abbrev MStr := List MChar

/-- `gtm_chset`: M or UTF-8. -/
inductive Chset where
  | m
  | utf8
  deriving DecidableEq, Repr

def blank : MChar := .chr 32

/-- The delimiter `"|"`. -/
def bar : MChar := .chr 124

/-- A string literal. -/
def lit (s : String) : MStr := s.toList.map fun c => .chr c.toNat

/-- The bytes of a character: one in M mode, up to four in UTF-8. -/
def MChar.size : Chset → MChar → Nat
  | .m, _ => 1
  | .utf8, .byte _ => 1
  | .utf8, .chr c => if c < 0x80 then 1 else if c < 0x800 then 2 else if c < 0x10000 then 3 else 4

/-- `$ZLENGTH(s)`. -/
def zlength (cs : Chset) (s : MStr) : Nat := (s.map (MChar.size cs)).sum

/-- `$JUSTIFY(s,n)`: blanks in front up to `n` characters. -/
def justify (s : MStr) (n : Int) : MStr :=
  List.replicate (n - s.length).toNat blank ++ s

/-- `$EXTRACT(s,first,last)`. -/
def extract (s : MStr) (first last : Nat) : MStr := (s.take last).drop (first - 1)

/-- `$TRANSLATE(s," ","")`. -/
def dropBlanks (s : MStr) : MStr := s.filter fun c => c ≠ blank

/-- `$TRANSLATE(s," ","X")`. -/
def blanksToX (s : MStr) : MStr := s.map fun c => if c = blank then .chr 88 else c

/-- A string that does not begin with a blank is what remains of it padded. -/
theorem dropWhile_blank_justify {s : MStr} (hs : s.head? ≠ some blank) (n : Int) :
    (justify s n).dropWhile (fun c => c = blank) = s := by
  have hdrop : s.dropWhile (fun c => c = blank) = s := by
    cases s with
    | nil => rfl
    | cons c s =>
        have hc : c ≠ blank := fun h => hs (by rw [h]; rfl)
        simp [hc]
  unfold justify
  rw [List.dropWhile_append, hdrop]
  have hnil : (List.replicate (n - s.length).toNat blank).dropWhile (fun c => c = blank) = [] := by
    rw [List.dropWhile_eq_nil_iff]
    intro c hc
    simpa using List.eq_of_mem_replicate hc
  rw [hnil]
  rfl

theorem blank_notMem_blanksToX (s : MStr) : blank ∉ blanksToX s := by
  intro h
  obtain ⟨c, -, hc⟩ := List.mem_map.1 h
  by_cases hb : c = blank
  · rw [if_pos hb] at hc
    exact absurd hc (by decide)
  · rw [if_neg hb] at hc
    exact hb hc

theorem bar_notMem_blanksToX {s : MStr} (hs : bar ∉ s) : bar ∉ blanksToX s := by
  intro h
  obtain ⟨c, hc, he⟩ := List.mem_map.1 h
  by_cases hb : c = blank
  · rw [if_pos hb] at he
    exact absurd he (by decide)
  · rw [if_neg hb] at he
    exact hs (he ▸ hc)

/-- Blanks turned into X leave no blank to drop. -/
theorem blanksToX_kept (s : MStr) : ∀ c ∈ blanksToX s, decide (c ≠ blank) = true := by
  intro c hc
  have hne : c ≠ blank := fun h => blank_notMem_blanksToX s (h ▸ hc)
  simpa using hne

/-- Turning blanks into X changes a string exactly when it has one. -/
theorem blanksToX_eq_self {s : MStr} : blanksToX s = s ↔ blank ∉ s := by
  constructor
  · intro h hb
    have := blank_notMem_blanksToX s
    rw [h] at this
    exact this hb
  · intro hb
    unfold blanksToX
    conv_rhs => rw [← List.map_id s]
    refine List.map_congr_left fun c hc => ?_
    have hne : c ≠ blank := fun h => hb (h ▸ hc)
    simp [hne]

/-! ## 2. Numbers as text -/

/-- The characters of decimal digits. -/
def digitChars (ds : List Nat) : MStr := ds.map fun d => .chr (48 + d)

/-- The text of a natural number. -/
def natStr (n : Nat) : MStr := if n = 0 then [.chr 48] else digitChars (digits 10 n).reverse

/-- A decimal fraction `mant / 10 ^ scale` without trailing zeros. -/
def stripZeros (mant : Nat) : Nat → Nat × Nat
  | 0 => (mant, 0)
  | scale + 1 => if mant % 10 = 0 then stripZeros (mant / 10) scale else (mant, scale + 1)

/-- The text of `mant / 10 ^ scale`: no zero before the point, and none at the end. -/
def decStr (mant scale : Nat) : MStr :=
  match stripZeros mant scale with
  | (m, 0) => natStr m
  | (m, k + 1) =>
      (if m / 10 ^ (k + 1) = 0 then [] else natStr (m / 10 ^ (k + 1)))
        ++ .chr 46 :: digitChars (fixedDigits (k + 1) (m % 10 ^ (k + 1)))

/-- The canonical text of a number: sign, mantissa and decimal places. -/
def numStr (neg : Bool) (mant scale : Nat) : MStr :=
  if neg ∧ mant ≠ 0 then .chr 45 :: decStr mant scale else decStr mant scale

/-- What reading a decimal text keeps: the digits so far, and after a point their number. -/
def readStep (r : Nat × Option Nat) : MChar → Nat × Option Nat
  | .chr c => if c = 46 then (r.1, some 0) else (r.1 * 10 + (c - 48), r.2.map (· + 1))
  | .byte _ => r

def readDec (s : MStr) : Nat × Option Nat := s.foldl readStep (0, none)

theorem foldl_readStep_digitChars : ∀ (ds : List Nat) (v : Nat) (p : Option Nat),
    (digitChars ds).foldl readStep (v, p) = (readDigits v ds, p.map (· + ds.length))
  | [], v, p => by simp [digitChars, readDigits]
  | d :: ds, v, p => by
      have hstep : readStep (v, p) (.chr (48 + d)) = (v * 10 + d, p.map (· + 1)) := by
        have hne : ¬ 48 + d = 46 := by omega
        simp only [readStep, if_neg hne, Nat.add_sub_cancel_left]
      have ih := foldl_readStep_digitChars ds (v * 10 + d) (p.map (· + 1))
      unfold digitChars at ih ⊢
      rw [List.map_cons, List.foldl_cons, hstep, ih]
      cases p with
      | none => rfl
      | some k =>
          simp only [readDigits, List.foldl_cons, List.length_cons, Option.map_some,
            Prod.mk.injEq, Option.some.injEq, true_and]
          omega

theorem foldl_readStep_natStr (n : Nat) : (natStr n).foldl readStep (0, none) = (n, none) := by
  unfold natStr
  by_cases hn : n = 0
  · rw [if_pos hn, hn]
    rfl
  · rw [if_neg hn, foldl_readStep_digitChars, readDigits_digits]
    rfl

theorem stripZeros_value (mant : Nat) : ∀ scale : Nat,
    mant * 10 ^ (stripZeros mant scale).2 = (stripZeros mant scale).1 * 10 ^ scale := by
  intro scale
  induction scale generalizing mant with
  | zero => rfl
  | succ scale ih =>
      unfold stripZeros
      split
      · rename_i h
        have hm : mant / 10 * 10 = mant := by omega
        calc mant * 10 ^ (stripZeros (mant / 10) scale).2
            = mant / 10 * 10 * 10 ^ (stripZeros (mant / 10) scale).2 := by rw [hm]
          _ = mant / 10 * 10 ^ (stripZeros (mant / 10) scale).2 * 10 := Nat.mul_right_comm _ _ _
          _ = (stripZeros (mant / 10) scale).1 * 10 ^ scale * 10 := by rw [ih]
          _ = (stripZeros (mant / 10) scale).1 * 10 ^ (scale + 1) := by rw [pow_succ, Nat.mul_assoc]
      · rfl

/-- **Reading the text of a decimal fraction gives its digits and decimal places**, trailing zeros
    apart. -/
theorem readDec_decStr (mant scale : Nat) : readDec (decStr mant scale) =
    ((stripZeros mant scale).1,
      if (stripZeros mant scale).2 = 0 then none else some (stripZeros mant scale).2) := by
  unfold decStr readDec
  generalize stripZeros mant scale = mk
  obtain ⟨m, k⟩ := mk
  cases k with
  | zero => exact foldl_readStep_natStr m
  | succ k =>
      have hint : (if m / 10 ^ (k + 1) = 0 then [] else natStr (m / 10 ^ (k + 1))).foldl
          readStep (0, none) = (m / 10 ^ (k + 1), none) := by
        split
        · rename_i h; rw [h]; rfl
        · exact foldl_readStep_natStr _
      have hpoint : readStep (m / 10 ^ (k + 1), none) (.chr 46) = (m / 10 ^ (k + 1), some 0) := rfl
      have hlt : m % 10 ^ (k + 1) < 10 ^ (k + 1) := Nat.mod_lt _ (Nat.pow_pos (by decide))
      simp only [List.foldl_append, hint, List.foldl_cons, hpoint, foldl_readStep_digitChars,
        length_fixedDigits, readDigits_fixedDigits _ _ _ hlt, Option.map_some, Nat.zero_add,
        Nat.add_one_ne_zero, if_false]
      rw [Nat.mul_comm, Nat.div_add_mod]

/-- Two decimal fractions with the same text have the same value. -/
theorem decStr_inj {m₁ s₁ m₂ s₂ : Nat} (h : decStr m₁ s₁ = decStr m₂ s₂) :
    m₁ * 10 ^ s₂ = m₂ * 10 ^ s₁ := by
  have hread : readDec (decStr m₁ s₁) = readDec (decStr m₂ s₂) := by rw [h]
  rw [readDec_decStr, readDec_decStr, Prod.mk.injEq] at hread
  have hv₁ := stripZeros_value m₁ s₁
  have hv₂ := stripZeros_value m₂ s₂
  generalize stripZeros m₁ s₁ = a at hread hv₁
  generalize stripZeros m₂ s₂ = b at hread hv₂
  obtain ⟨ha, hk⟩ := hread
  have hk : a.2 = b.2 := by
    by_cases h1 : a.2 = 0
    · by_cases h2 : b.2 = 0
      · rw [h1, h2]
      · rw [if_pos h1, if_neg h2] at hk
        cases hk
    · by_cases h2 : b.2 = 0
      · rw [if_neg h1, if_pos h2] at hk
        cases hk
      · rw [if_neg h1, if_neg h2] at hk
        exact Option.some.inj hk
  have hpos : 0 < 10 ^ a.2 := Nat.pow_pos (by decide)
  refine Nat.eq_of_mul_eq_mul_right hpos ?_
  calc m₁ * 10 ^ s₂ * 10 ^ a.2 = m₁ * 10 ^ a.2 * 10 ^ s₂ := Nat.mul_right_comm _ _ _
    _ = a.1 * 10 ^ s₁ * 10 ^ s₂ := by rw [hv₁]
    _ = b.1 * 10 ^ s₂ * 10 ^ s₁ := by rw [ha, Nat.mul_right_comm]
    _ = m₂ * 10 ^ b.2 * 10 ^ s₁ := by rw [hv₂]
    _ = m₂ * 10 ^ s₁ * 10 ^ a.2 := by rw [hk, Nat.mul_right_comm]

/-- The text of a natural number begins with a digit. -/
theorem head_natStr (n : Nat) : ∃ c, (natStr n).head? = some (.chr c) ∧ 48 ≤ c ∧ c ≤ 57 := by
  unfold natStr
  by_cases hn : n = 0
  · exact ⟨48, by rw [if_pos hn]; rfl, by decide, by decide⟩
  · rw [if_neg hn]
    have hne := digits_ne_nil (show 2 ≤ 10 by decide) hn
    obtain ⟨d, ds, hd⟩ : ∃ d ds, (digits 10 n).reverse = d :: ds :=
      List.exists_cons_of_ne_nil (by simpa using hne)
    have hlt : d < 10 := digits_lt (by decide) n d (by
      rw [← List.mem_reverse, hd]
      exact List.mem_cons_self)
    rw [hd]
    exact ⟨48 + d, rfl, by omega, by omega⟩

/-- A decimal text begins with a digit or a point. -/
theorem head_decStr (mant scale : Nat) :
    ∃ c, (decStr mant scale).head? = some (.chr c) ∧ (48 ≤ c ∧ c ≤ 57 ∨ c = 46) := by
  unfold decStr
  split
  · obtain ⟨c, hc, h1, h2⟩ := head_natStr ‹_›
    exact ⟨c, hc, Or.inl ⟨h1, h2⟩⟩
  · rename_i m k _
    by_cases hz : m / 10 ^ (k + 1) = 0
    · exact ⟨46, by rw [if_pos hz]; rfl, Or.inr rfl⟩
    · obtain ⟨c, hc, h1, h2⟩ := head_natStr (m / 10 ^ (k + 1))
      refine ⟨c, ?_, Or.inl ⟨h1, h2⟩⟩
      rw [if_neg hz, List.head?_append, hc]
      rfl

/-- **The text of a number other than 0 gives back its sign and its value.** -/
theorem numStr_inj {n₁ n₂ : Bool} {m₁ s₁ m₂ s₂ : Nat} (h₁ : m₁ ≠ 0) (h₂ : m₂ ≠ 0)
    (h : numStr n₁ m₁ s₁ = numStr n₂ m₂ s₂) : n₁ = n₂ ∧ m₁ * 10 ^ s₂ = m₂ * 10 ^ s₁ := by
  have hminus : ∀ m s m' s', MChar.chr 45 :: decStr m s ≠ decStr m' s' := by
    intro m s m' s' he
    obtain ⟨c, hc, hr⟩ := head_decStr m' s'
    rw [← he] at hc
    simp only [List.head?_cons, Option.some.injEq, MChar.chr.injEq] at hc
    omega
  unfold numStr at h
  cases n₁ with
  | false =>
      cases n₂ with
      | false => exact ⟨rfl, decStr_inj (by simpa using h)⟩
      | true => simp only [Bool.false_eq_true, false_and, if_false, true_and, ne_eq, h₂,
          not_false_eq_true, if_true] at h; exact absurd h.symm (hminus _ _ _ _)
  | true =>
      cases n₂ with
      | false => simp only [Bool.false_eq_true, false_and, if_false, true_and, ne_eq, h₁,
          not_false_eq_true, if_true] at h; exact absurd h (hminus _ _ _ _)
      | true => exact ⟨rfl, decStr_inj (by simpa [h₁, h₂] using h)⟩

/-! ## 3. Lengths -/

section Lengths

variable (cs : Chset)

theorem zlength_append (s t : MStr) : zlength cs (s ++ t) = zlength cs s + zlength cs t := by
  simp [zlength]

theorem zlength_le (s : MStr) : zlength cs s ≤ 4 * s.length := by
  induction s with
  | nil => exact Nat.le_refl 0
  | cons c s ih =>
      have hc : c.size cs ≤ 4 := by
        unfold MChar.size
        repeat (first | omega | split)
      have hcons : zlength cs (c :: s) = c.size cs + zlength cs s := rfl
      rw [hcons, List.length_cons]
      omega

theorem length_le_zlength (s : MStr) : s.length ≤ zlength cs s := by
  induction s with
  | nil => exact Nat.le_refl 0
  | cons c s ih =>
      have hc : 1 ≤ c.size cs := by
        unfold MChar.size
        repeat (first | omega | split)
      have hcons : zlength cs (c :: s) = c.size cs + zlength cs s := rfl
      rw [hcons, List.length_cons]
      omega

theorem zlength_replicate_blank (n : Nat) : zlength cs (List.replicate n blank) = n := by
  have hblank : blank.size cs = 1 := by cases cs <;> rfl
  simp [zlength, hblank]

end Lengths

theorem length_natStr {k n : Nat} (hk : 0 < k) (h : n < 10 ^ k) : (natStr n).length ≤ k := by
  unfold natStr
  split
  · exact hk
  · rw [digitChars, List.length_map, List.length_reverse]
    exact length_digits (by decide) h

theorem stripZeros_le (mant : Nat) : ∀ scale : Nat,
    (stripZeros mant scale).1 ≤ mant ∧ (stripZeros mant scale).2 ≤ scale := by
  intro scale
  induction scale generalizing mant with
  | zero => exact ⟨Nat.le_refl _, Nat.le_refl _⟩
  | succ scale ih =>
      rw [stripZeros]
      split
      · have := ih (mant / 10)
        have hdiv := Nat.div_le_self mant 10
        omega
      · exact ⟨Nat.le_refl _, Nat.le_refl _⟩

/-- A number of at most `k` digits, sign and point. -/
theorem length_numStr {k mant : Nat} (neg : Bool) (scale : Nat) (hk : 0 < k) (h : mant < 10 ^ k) :
    (numStr neg mant scale).length ≤ k + scale + 2 := by
  have hdec : (decStr mant scale).length ≤ k + scale + 1 := by
    have hle := stripZeros_le mant scale
    unfold decStr
    split
    · rename_i m heq
      rw [heq] at hle
      have hm : m < 10 ^ k := Nat.lt_of_le_of_lt hle.1 h
      have := length_natStr hk hm
      omega
    · rename_i m j heq
      rw [heq] at hle
      have hint : (if m / 10 ^ (j + 1) = 0 then [] else natStr (m / 10 ^ (j + 1))).length ≤ k := by
        split
        · exact Nat.zero_le _
        · exact length_natStr hk
            (Nat.lt_of_le_of_lt (Nat.le_trans (Nat.div_le_self _ _) hle.1) h)
      have hfrac : (digitChars (fixedDigits (j + 1) (m % 10 ^ (j + 1)))).length = j + 1 := by
        rw [digitChars, List.length_map, length_fixedDigits]
      have hscale := hle.2
      rw [List.length_append, List.length_cons, hfrac]
      omega
  unfold numStr
  split
  · rw [List.length_cons]
    omega
  · omega

end YottaTest.M
