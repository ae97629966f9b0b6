/-
  File:      YottaTest/Collation/Hindi.lean
  Subject:   col_unicode_numeric.c: Hindi digits reversed in place, the rest copied.

  A digit is three bytes, the first two of them 224 and 165; the third is taken from 341. The source
  goes through `strncpy`, which stops at a NUL and fills up with NULs.

  * `strncpy`, `strncpyReads`, `turn`, `digitLoop`, `hindinumreverse` -- the routine and what it reads;
  * `cut`, `swapped` -- the bytes after the copy, and after the loop, each by its place;
  * `hindinumreverse_val` -- the routine leaves these;
  * `Restored`, `Kept` -- the string comes back, and the strings for which it does;
  * `hindinumreverse_inverse` -- **it is its own inverse on these alone, and never reads past the source.**
-/
import Mathlib.Tactic.Tauto
import YottaTest.Collation.Tables

namespace YottaTest.Collation

open Function YottaTest.Lib

/-! ## 1. The routine -/

/-- What `strncpy(target, source, n)` leaves in `target`, both pointers `i` bytes ahead. -/
def strncpy (source : Nat → Byte) : Nat → Nat → (Nat → Byte) → Nat → Byte
  | 0, _, target => target
  | n + 1, i, target =>
      if source i = 0 then fun k => if i ≤ k ∧ k < i + (n + 1) then 0 else target k
      else strncpy source n (i + 1) (update target i (source i))

/-- The indices of `source` that it reads. -/
def strncpyReads (source : Nat → Byte) : Nat → Nat → List Nat
  | 0, _ => []
  | n + 1, i => i :: if source i = 0 then [] else strncpyReads source n (i + 1)

/-- `(char)(341-((int)(unsigned char)b))` -/
def reversed (b : Byte) : Byte := Fin.ofNat 256 (341 - b.val)

/-- The body of the loop at place `i`. -/
def turn (outbuf : Nat → Byte) (i : Nat) : Nat → Byte :=
  if outbuf i ≠ 224 ∨ outbuf (i + 1) ≠ 165 then outbuf
  else update outbuf (i + 2) (reversed (outbuf (i + 2)))

/-- `for (i=0; i < srclength; i+=3)`, from `i` on. -/
def digitLoop (srclength i : Nat) (outbuf : Nat → Byte) : Nat → Byte :=
  if i < srclength then digitLoop srclength (i + 3) (turn outbuf i) else outbuf
termination_by srclength - i

/-- `memset(val, 0, len)` -/
def memset (val : Nat → Byte) (len : Nat) : Nat → Byte := fun k => if k < len then 0 else val k

/-- `hindinumreverse`, for a source and a destination apart from each other. -/
def hindinumreverse (src dst : gtm_descriptor) : Result :=
  let out := memset dst.val dst.len
  if src.len = 0 then ⟨0, ⟨0, out⟩, some 0⟩
  else if src.len > dst.len then ⟨tooLong, ⟨dst.len, out⟩, none⟩
  else
    let srcbuf := strncpy src.val src.len 0 fun _ => 0
    ⟨0, ⟨src.len, digitLoop src.len 0 (strncpy srcbuf src.len 0 out)⟩, some src.len⟩

/-- The indices of the source that it reads. -/
def sourceReads (src dst : gtm_descriptor) : List Nat :=
  if src.len = 0 ∨ src.len > dst.len then [] else strncpyReads src.val src.len 0

/-! ## 2. The bytes by their places -/

/-- The byte at `k` after the copy: nothing comes through behind a NUL. -/
def cut (val : Nat → Byte) (k : Nat) : Byte := if ∃ j < k, val j = 0 then 0 else val k

/-- A digit's third byte at `k`. -/
def Digit (val : Nat → Byte) (k : Nat) : Prop :=
  k % 3 = 2 ∧ val (k - 2) = 224 ∧ val (k - 1) = 165

instance (val : Nat → Byte) (k : Nat) : Decidable (Digit val k) := by
  unfold Digit
  infer_instance

/-- The byte at `k` after the loop. -/
def swapped (val : Nat → Byte) (k : Nat) : Byte := if Digit val k then reversed (val k) else val k

theorem reversed_reversed (b : Byte) : reversed (reversed b) = b := by
  refine Fin.ext ?_
  have := b.isLt
  show (341 - (341 - b.val) % 256) % 256 = b.val
  omega

/-- The third byte becomes a NUL only where it is 85. -/
theorem reversed_eq_zero {b : Byte} : reversed b = 0 ↔ b = 85 := by
  have := b.isLt
  rw [Fin.ext_iff, Fin.ext_iff]
  show (341 - b.val) % 256 = 0 ↔ b.val = 85
  omega

theorem cut_of_no_nul {val : Nat → Byte} {k : Nat} (h : ∀ j < k, val j ≠ 0) : cut val k = val k :=
  if_neg fun ⟨j, hj, h0⟩ => h j hj h0

theorem cut_behind {val : Nat → Byte} {j k : Nat} (hj : j < k) (h : val j = 0) : cut val k = 0 :=
  if_pos ⟨j, hj, h⟩

theorem cut_zero {val : Nat → Byte} {k : Nat} (h : val k = 0) : cut val k = 0 := by
  unfold cut
  rw [h, ite_self]

/-- Two memories that agree up to `k` are cut to the same byte there. -/
theorem cut_congr {val val' : Nat → Byte} {k : Nat} (h : ∀ j ≤ k, val j = val' j) :
    cut val k = cut val' k := by
  unfold cut
  rw [h k (Nat.le_refl k)]
  have : (∃ j < k, val j = 0) ↔ ∃ j < k, val' j = 0 :=
    exists_congr fun j => and_congr_right fun hj => by rw [h j (by omega)]
  simp only [this]

theorem swapped_congr {val val' : Nat → Byte} {k : Nat} (h : ∀ j ≤ k, val j = val' j) :
    swapped val k = swapped val' k := by
  have hdigit : Digit val k ↔ Digit val' k := by
    unfold Digit
    rw [h (k - 2) (by omega), h (k - 1) (by omega)]
  unfold swapped
  rw [h k (Nat.le_refl k)]
  simp only [hdigit]

/-- **The copy**: what is not behind a NUL comes through. -/
theorem strncpy_apply (source : Nat → Byte) : ∀ (n i : Nat) (target : Nat → Byte) (k : Nat),
    strncpy source n i target k =
      if i ≤ k ∧ k < i + n then (if ∃ j < k, i ≤ j ∧ source j = 0 then 0 else source k) else target k
  | 0, i, target, k => (if_neg (by omega)).symm
  | n + 1, i, target, k => by
      rw [strncpy]
      by_cases h0 : source i = 0
      · rw [if_pos h0]
        by_cases hk : i ≤ k ∧ k < i + (n + 1)
        · rw [if_pos hk, if_pos hk]
          by_cases hki : k = i
          · subst hki
            rw [if_neg (by rintro ⟨j, hj⟩; omega), h0]
          · rw [if_pos ⟨i, by omega, Nat.le_refl i, h0⟩]
        · rw [if_neg hk, if_neg hk]
      · rw [if_neg h0, strncpy_apply source n]
        by_cases hki : k = i
        · subst hki
          rw [if_neg (by omega), if_pos (by omega), update_self,
            if_neg (by rintro ⟨j, hj⟩; omega)]
        · rw [update_of_ne hki]
          by_cases hk : i + 1 ≤ k ∧ k < i + 1 + n
          · have hex : (∃ j < k, i + 1 ≤ j ∧ source j = 0) ↔ ∃ j < k, i ≤ j ∧ source j = 0 := by
              constructor
              · intro h
                obtain ⟨j, hjk, hj, hz⟩ := h
                exact ⟨j, hjk, by omega, hz⟩
              · intro h
                obtain ⟨j, hjk, hj, hz⟩ := h
                have : j ≠ i := fun h => h0 (h ▸ hz)
                exact ⟨j, hjk, by omega, hz⟩
            rw [if_pos hk, if_pos (show i ≤ k ∧ k < i + (n + 1) by omega)]
            exact if_congr hex rfl rfl
          · rw [if_neg hk, if_neg (show ¬ (i ≤ k ∧ k < i + (n + 1)) by omega)]

theorem turn_of_ne {outbuf : Nat → Byte} {i k : Nat} (h : k ≠ i + 2) : turn outbuf i k = outbuf k := by
  unfold turn
  split
  · rfl
  · exact update_of_ne h _ _

theorem turn_digit {outbuf : Nat → Byte} {i : Nat} (h : i % 3 = 0) :
    turn outbuf i (i + 2) = swapped outbuf (i + 2) := by
  have hdigit : Digit outbuf (i + 2) ↔ outbuf i = 224 ∧ outbuf (i + 1) = 165 := by
    unfold Digit
    rw [Nat.add_sub_cancel, show i + 2 - 1 = i + 1 by omega]
    exact and_iff_right (by omega)
  unfold turn swapped
  by_cases hd : outbuf i = 224 ∧ outbuf (i + 1) = 165
  · rw [if_neg (by tauto), if_pos (hdigit.2 hd), update_self]
  · rw [if_pos (by tauto), if_neg fun h => hd (hdigit.1 h)]

/-- The memory after the loop from `i` on: the third bytes of the digits are reversed. -/
theorem digitLoop_apply (n : Nat) : ∀ (turns i : Nat) (outbuf : Nat → Byte), n - i ≤ turns →
    i % 3 = 0 → ∀ k < n, digitLoop n i outbuf k = if i ≤ k then swapped outbuf k else outbuf k
  | 0, i, outbuf, hturns, _, k, hk => by
      rw [digitLoop, if_neg (by omega), if_neg (by omega)]
  | turns + 1, i, outbuf, hturns, hi, k, hk => by
      rw [digitLoop]
      by_cases hin : i < n
      · rw [if_pos hin, digitLoop_apply n turns (i + 3) _ (by omega) (by omega) k hk]
        by_cases hlater : i + 3 ≤ k
        · -- the bytes a later digit is seen by are not touched
          have hkeep : ∀ j, i + 3 ≤ j → turn outbuf i j = outbuf j := fun j hj => turn_of_ne (by omega)
          have hdigit : Digit (turn outbuf i) k ↔ Digit outbuf k := by
            unfold Digit
            refine and_congr_right fun hk => ?_
            rw [hkeep (k - 2) (by omega), hkeep (k - 1) (by omega)]
          rw [if_pos hlater, if_pos (show i ≤ k by omega), swapped, swapped, hkeep k hlater]
          exact if_congr hdigit rfl rfl
        · rw [if_neg hlater]
          by_cases hplace : k = i + 2
          · subst hplace
            rw [turn_digit hi, if_pos (by omega)]
          · rw [turn_of_ne hplace]
            by_cases hik : i ≤ k
            · have hnot : ¬ Digit outbuf k := fun h => by
                have := h.1
                omega
              rw [if_pos hik, swapped, if_neg hnot]
            · rw [if_neg hik]
      · rw [if_neg hin, if_neg (by omega)]

/-- What a copy of `n` bytes leaves below `n`. -/
theorem strncpy_cut (source target : Nat → Byte) {n k : Nat} (hk : k < n) :
    strncpy source n 0 target k = cut source k := by
  have hex : (∃ j < k, 0 ≤ j ∧ source j = 0) ↔ ∃ j < k, source j = 0 :=
    exists_congr fun j => and_congr_right fun _ => and_iff_right (Nat.zero_le j)
  rw [strncpy_apply, if_pos ⟨Nat.zero_le k, by omega⟩]
  exact if_congr hex rfl rfl

/-- What is cut is cut once. -/
theorem cut_cut (val : Nat → Byte) (k : Nat) : cut (cut val) k = cut val k := by
  by_cases h : ∃ j < k, val j = 0
  · obtain ⟨j, hj, h0⟩ := h
    rw [cut_behind hj h0]
    unfold cut
    split
    · rfl
    · exact if_pos ⟨j, hj, h0⟩
  · have hno : ∀ j < k, cut val j ≠ 0 := by
      intro j hj
      rw [cut_of_no_nul fun i hi h0 => h ⟨i, by omega, h0⟩]
      exact fun h0 => h ⟨j, hj, h0⟩
    exact cut_of_no_nul hno

/-- What the routine leaves below the length of the source. -/
theorem hindinumreverse_val {src dst : gtm_descriptor} (h : src.len ≤ dst.len) (hpos : src.len ≠ 0) :
    ∀ k < src.len, (hindinumreverse src dst).dst.val k = swapped (cut src.val) k := by
  intro k hk
  unfold hindinumreverse
  dsimp only
  rw [if_neg hpos, if_neg (by omega)]
  dsimp only
  rw [digitLoop_apply src.len src.len 0 _ (by omega) rfl k hk, if_pos (Nat.zero_le k)]
  refine swapped_congr fun j hj => ?_
  have hj' : j < src.len := by omega
  rw [strncpy_cut _ _ hj']
  calc cut (strncpy src.val src.len 0 fun _ => 0) j = cut (cut src.val) j :=
        cut_congr fun i hi => strncpy_cut _ _ (by omega)
    _ = cut src.val j := cut_cut src.val j

theorem hindinumreverse_dstlen {src dst : gtm_descriptor} (h : src.len ≤ dst.len) :
    (hindinumreverse src dst).status = 0 ∧ (hindinumreverse src dst).dstlen = some src.len ∧
      (hindinumreverse src dst).dst.len = src.len := by
  unfold hindinumreverse
  dsimp only
  by_cases hpos : src.len = 0
  · rw [if_pos hpos]
    exact ⟨rfl, congrArg some hpos.symm, hpos.symm⟩
  · rw [if_neg hpos, if_neg (by omega)]
    exact ⟨rfl, rfl, rfl⟩

/-! ## 3. There and back -/

/-- The copy reads from `i` on, and no further than `n` bytes. -/
theorem strncpyReads_lt (source : Nat → Byte) : ∀ (n i : Nat), ∀ j ∈ strncpyReads source n i, j < i + n
  | 0, _, j, h => absurd h List.not_mem_nil
  | n + 1, i, j, h => by
      rcases List.mem_cons.1 h with rfl | h
      · omega
      · split at h
        · exact absurd h List.not_mem_nil
        · have := strncpyReads_lt source n (i + 1) j h
          omega

theorem sourceReads_lt (src dst : gtm_descriptor) : ∀ j ∈ sourceReads src dst, j < src.len := by
  intro j h
  unfold sourceReads at h
  split at h
  · exact absurd h List.not_mem_nil
  · have := strncpyReads_lt src.val src.len 0 j h
    omega

/-- `gtm_ac_xform`, then `gtm_ac_xback` on what it left, give the string back; and nothing is read
    behind a source. -/
structure Restored (src dst dst' : gtm_descriptor) : Prop where
  back : (hindinumreverse (hindinumreverse src dst).dst dst').status = 0 ∧
    (hindinumreverse (hindinumreverse src dst).dst dst').dstlen = some src.len ∧
    (hindinumreverse (hindinumreverse src dst).dst dst').str = some src.str
  reads : (∀ j ∈ sourceReads src dst, j < src.len) ∧
    ∀ j ∈ sourceReads (hindinumreverse src dst).dst dst', j < src.len

/-- The strings that come back: nothing but NULs behind a NUL, and behind the bytes 224, 165 and 85
    at the place of a digit. -/
structure Kept (src : gtm_descriptor) : Prop where
  nul : ∀ j k, j < k → k < src.len → src.val j = 0 → src.val k = 0
  digit : ∀ j k, j < k → k < src.len → Digit src.val j → src.val j = 85 → src.val k = 0

/-- Nothing but NULs from `a` on. -/
def ZeroFrom (val : Nat → Byte) (a : Nat) : Prop := ∀ k, a ≤ k → val k = 0

theorem ZeroFrom.cut {val : Nat → Byte} {a : Nat} (h : ZeroFrom val a) : ZeroFrom (cut val) a := by
  intro k hk
  exact cut_zero (h k hk)

theorem ZeroFrom.swapped {val : Nat → Byte} {a : Nat} (h : ZeroFrom val a) :
    ZeroFrom (swapped val) (a + 1) := by
  intro k hk
  have hnot : ¬ Digit val k := by
    intro hd
    have hd' := hd.2.2
    rw [h (k - 1) (by omega)] at hd'
    exact absurd hd' (by decide)
  rw [Collation.swapped, if_neg hnot]
  exact h k (by omega)

theorem zeroFrom_cut {val : Nat → Byte} {a : Nat} (h : val a = 0) : ZeroFrom (cut val) a := by
  intro k hk
  by_cases hka : k = a
  · subst hka
    exact cut_zero h
  · exact cut_behind (by omega) h

/-- A byte that is no third byte of a digit by its place is left as it is. -/
theorem swapped_of_place {val : Nat → Byte} {k : Nat} (h : k % 3 ≠ 2) : swapped val k = val k :=
  if_neg fun hd => h hd.1

/-- Reversing twice gives the bytes back. -/
theorem swapped_swapped (val : Nat → Byte) (k : Nat) : swapped (swapped val) k = val k := by
  have hdigit : Digit (swapped val) k ↔ Digit val k := by
    unfold Digit
    refine and_congr_right fun hk => ?_
    rw [swapped_of_place (show (k - 2) % 3 ≠ 2 by omega), swapped_of_place (show (k - 1) % 3 ≠ 2 by omega)]
  rw [swapped]
  by_cases h : Digit val k
  · rw [if_pos (hdigit.2 h), swapped, if_pos h, reversed_reversed]
  · rw [if_neg fun h' => h (hdigit.1 h'), swapped, if_neg h]

section Bytes

variable {src : gtm_descriptor}

/-- Behind a NUL nothing comes back. -/
theorem zero_behind_nul {val : Nat → Byte} {j : Nat} (h : val j = 0) :
    ZeroFrom (swapped (cut (swapped (cut val)))) (j + 1) := by
  have ht := zeroFrom_cut h
  have hv : ZeroFrom (cut (swapped (cut val))) (j + 1) := ht.swapped.cut
  intro k hk
  by_cases hkj : k = j + 1
  · subst hkj
    have hnot : ¬ Digit (cut (swapped (cut val))) (j + 1) := by
      intro hd
      have hplace := hd.1
      have hbefore := hd.2.2
      rw [Nat.add_sub_cancel] at hbefore
      have hzero : swapped (cut val) j = 0 := by
        rw [swapped_of_place (by omega)]
        exact ht j (Nat.le_refl j)
      rw [cut_zero hzero] at hbefore
      exact absurd hbefore (by decide)
    rw [swapped, if_neg hnot]
    exact hv _ (Nat.le_refl _)
  · exact hv.swapped k (by omega)

/-- Behind the third byte 85 of a digit, which becomes a NUL, nothing comes back either. -/
theorem zero_behind_digit {val : Nat → Byte} {j : Nat} (hno : ∀ i < j, val i ≠ 0) (hd : Digit val j)
    (h : val j = 85) : ZeroFrom (swapped (cut (swapped (cut val)))) (j + 1) := by
  have hsame : ∀ i ≤ j, cut val i = val i := fun i hi => cut_of_no_nul fun l hl => hno l (by omega)
  have hu : swapped (cut val) j = 0 := by
    rw [swapped_congr hsame, swapped, if_pos hd, h]
    exact reversed_eq_zero.2 rfl
  exact (zeroFrom_cut hu).swapped

/-- In a kept string what is behind a byte that the loop leaves or makes a NUL is one. -/
theorem swapped_behind (hkept : Kept src) {j k : Nat} (hj : j < k) (hk : k < src.len)
    (h : swapped src.val j = 0) : swapped src.val k = 0 := by
  have hbehind : ∀ i, j < i → i < src.len → src.val i = 0 := by
    intro i hi hlen
    by_cases hd : Digit src.val j
    · rw [swapped, if_pos hd] at h
      exact hkept.digit j i hi hlen hd (reversed_eq_zero.1 h)
    · rw [swapped, if_neg hd] at h
      exact hkept.nul j i hi hlen h
  have hnot : ¬ Digit src.val k := by
    intro hd
    have hplace := hd.1
    have hbefore := hd.2.2
    by_cases hjk : j = k - 1
    · have hsame : swapped src.val j = src.val j := swapped_of_place (by omega)
      rw [← hjk, ← hsame, h] at hbefore
      exact absurd hbefore (by decide)
    · rw [hbehind (k - 1) (by omega) (by omega)] at hbefore
      exact absurd hbefore (by decide)
  rw [swapped, if_neg hnot]
  exact hbehind k hj hk

/-- **The bytes come back iff the string is kept.** -/
theorem bytes_back_iff (src : gtm_descriptor) :
    (∀ k < src.len, swapped (cut (swapped (cut src.val))) k = src.val k) ↔ Kept src := by
  constructor
  · intro h
    have hnul : ∀ j k, j < k → k < src.len → src.val j = 0 → src.val k = 0 := by
      intro j k hjk hk h0
      rw [← h k hk]
      exact zero_behind_nul h0 k hjk
    refine ⟨hnul, fun j k hjk hk hd h85 => ?_⟩
    have hno : ∀ i < j, src.val i ≠ 0 := by
      intro i hi h0
      have hplace := hd.1
      have hbefore := hd.2.2
      by_cases hij : i = j - 1
      · rw [← hij, h0] at hbefore
        exact absurd hbefore (by decide)
      · rw [hnul i (j - 1) (by omega) (by omega) h0] at hbefore
        exact absurd hbefore (by decide)
    rw [← h k hk]
    exact zero_behind_digit hno hd h85 k hjk
  · intro hkept k hk
    have ht : ∀ i < src.len, cut src.val i = src.val i := by
      intro i hi
      by_cases hnul : ∃ j < i, src.val j = 0
      · obtain ⟨j, hj, h0⟩ := hnul
        rw [cut_behind hj h0, hkept.nul j i hj hi h0]
      · exact cut_of_no_nul fun j hj h0 => hnul ⟨j, hj, h0⟩
    have hu : ∀ i < src.len, swapped (cut src.val) i = swapped src.val i :=
      fun i hi => swapped_congr fun j hj => ht j (by omega)
    have hv : ∀ i < src.len, cut (swapped (cut src.val)) i = swapped src.val i := by
      intro i hi
      rw [cut_congr fun j hj => hu j (by omega)]
      by_cases hnul : ∃ j < i, swapped src.val j = 0
      · obtain ⟨j, hj, h0⟩ := hnul
        rw [cut_behind hj h0, swapped_behind hkept hj hi h0]
      · exact cut_of_no_nul fun j hj h0 => hnul ⟨j, hj, h0⟩
    rw [swapped_congr fun j hj => hv j (by omega), swapped_swapped]

end Bytes

/-- A routine returns a string of the source's length iff it leaves its bytes. -/
theorem str_eq_iff {r : Result} {src : gtm_descriptor} (h : r.dstlen = some src.len) :
    r.str = some src.str ↔ ∀ k < src.len, r.dst.val k = src.val k := by
  rw [Result.str, h, Option.map_some, Option.some.injEq, gtm_descriptor.str, gtm_descriptor.str,
    List.map_inj_left]
  refine forall_congr' fun k => ?_
  rw [List.mem_range]

/-- **The Hindi collation is its own inverse exactly on the strings that are kept**, and reads no index
    of a source behind its length. -/
theorem hindinumreverse_inverse {src dst dst' : gtm_descriptor} (hdst : src.len ≤ dst.len)
    (hdst' : src.len ≤ dst'.len) : Restored src dst dst' ↔ Kept src := by
  obtain ⟨-, -, hlen⟩ := hindinumreverse_dstlen hdst
  have hlen' : (hindinumreverse src dst).dst.len ≤ dst'.len := by omega
  obtain ⟨hstatus, hdstlen, -⟩ := hindinumreverse_dstlen hlen'
  rw [hlen] at hdstlen
  have hbytes : ∀ k < src.len, (hindinumreverse (hindinumreverse src dst).dst dst').dst.val k =
      swapped (cut (swapped (cut src.val))) k := by
    intro k hk
    rw [hindinumreverse_val (by omega) (by omega) k (by omega)]
    refine swapped_congr fun j hj => cut_congr fun i hi => ?_
    exact hindinumreverse_val hdst (by omega) i (by omega)
  have hstr : (hindinumreverse (hindinumreverse src dst).dst dst').str = some src.str ↔
      ∀ k < src.len, swapped (cut (swapped (cut src.val))) k = src.val k := by
    rw [str_eq_iff hdstlen]
    exact forall_congr' fun k => forall_congr' fun hk => by rw [hbytes k hk]
  rw [← bytes_back_iff, ← hstr]
  constructor
  · intro h
    exact h.back.2.2
  · intro h
    refine ⟨⟨hstatus, hdstlen, h⟩, sourceReads_lt src dst, fun j hj => ?_⟩
    have := sourceReads_lt (hindinumreverse src dst).dst dst' j hj
    omega

/-- The digit zero in a buffer of its size. -/
def digitZero : gtm_descriptor := ⟨3, fun k => if k = 0 then 224 else if k = 1 then 165 else 166⟩

theorem hindinumreverse_inverse_digit :
    Restored digitZero ⟨3, fun _ => 0⟩ ⟨3, fun _ => 0⟩ ↔ Kept digitZero :=
  hindinumreverse_inverse (Nat.le_refl 3) (Nat.le_refl 3)

/-- A NUL and the letter "a". -/
def nulLetter : gtm_descriptor := ⟨2, fun k => if k = 0 then 0 else 97⟩

/-- The letter behind the NUL does not come back. -/
theorem letter_behind_nul : ¬ ∀ src dst dst' : gtm_descriptor, src.len ≤ dst.len → src.len ≤ dst'.len →
    Restored src dst dst' := by
  intro h
  obtain ⟨-, hdstlen, hback⟩ :=
    (h nulLetter ⟨2, fun _ => 0⟩ ⟨2, fun _ => 0⟩ (Nat.le_refl 2) (Nat.le_refl 2)).back
  have hletter := (str_eq_iff hdstlen).1 hback 1 (by decide)
  have hlen : (hindinumreverse nulLetter ⟨2, fun _ => 0⟩).dst.len = 2 :=
    (hindinumreverse_dstlen (Nat.le_refl 2)).2.2
  have hfirst : (hindinumreverse nulLetter ⟨2, fun _ => 0⟩).dst.val 0 = 0 := by
    rw [hindinumreverse_val (Nat.le_refl 2) (by decide) 0 (by decide), swapped_of_place (by decide)]
    exact cut_zero rfl
  rw [hindinumreverse_val (by rw [hlen]) (by rw [hlen]; decide) 1 (by rw [hlen]; decide),
    swapped_of_place (by decide), cut_behind (by decide) hfirst] at hletter
  exact absurd hletter (by decide)

end YottaTest.Collation
