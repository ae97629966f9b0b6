/-
  File:      YottaTest/Go/Blocks.lean
  Subject:   The blocks of a line of threeenp1B1.go and who does them.

  * `launch_blocks` -- the loop that defines `^limits` covers 1 to `endnum`; `Blocks`;
  * `limits64_blocksOfSize_iff` -- **when its blocks have the size that was asked for**, in int64;
    `launch_limits64`: the blocks of `launch` are those;
  * `Moves`, `act_moves` -- what one operation does to the claims;
  * `Claims`, `claims_of_reach` -- a claimed block has one goroutine, working on it or done with it.
-/
import Mathlib.Algebra.Group.Int.Defs
import Mathlib.Tactic.Tauto
import YottaTest.Go.ThreeEnp1

namespace YottaTest.Go

open Function YottaTest.Lib

/-! ## 1. The blocks -/

/-- The first number of a block. -/
def blkstart (limits : Nat → Option Nat) (index : Nat) : Nat :=
  if index = 1 then 1 else (limits (index - 1)).getD 0 + 1

/-- The blocks are numbered from 1 on, and between them they have the numbers up to `endnum`. -/
structure Blocks (endnum : Nat) (limits : Nat → Option Nat) : Prop where
  numbered : ∃ m, ∀ b, (limits b).isSome ↔ 0 < b ∧ b ≤ m
  le : ∀ {b e : Nat}, limits b = some e → e ≤ endnum
  cover : ∀ {s : Nat}, 0 < s → s ≤ endnum →
    ∃ b e, limits b = some e ∧ blkstart limits b ≤ s ∧ s ≤ e

/-- `m` blocks of the given size, the last of them up to `endnum`. -/
def blocksOf (endnum blk m b : Nat) : Option Nat :=
  if b = 0 ∨ m < b then none else if b < m then some (b * blk) else some endnum

theorem blkstart_blocksOf {endnum blk m b : Nat} (hb : 0 < b) (hm : b ≤ m) :
    blkstart (blocksOf endnum blk m) b = (b - 1) * blk + 1 := by
  unfold blkstart blocksOf
  split
  · next h => simp [h]
  · rw [if_neg (by omega), if_pos (by omega)]
    rfl

theorem blocks_blocksOf {endnum blk m : Nat} (hblk : 0 < blk) (hm : 0 < m)
    (hlast : (m - 1) * blk < endnum) : Blocks endnum (blocksOf endnum blk m) where
  numbered := ⟨m, fun b => by
    unfold blocksOf
    split
    · simp
      omega
    · split
      · simp
        omega
      · simp
        omega⟩
  le {b e} h := by
    unfold blocksOf at h
    split at h
    · cases h
    · split at h
      · next hbm =>
          cases h
          have := Nat.mul_le_mul_right blk (show b ≤ m - 1 by omega)
          omega
      · cases h
        exact Nat.le_refl _
  cover {s} hs hle := by
    obtain ⟨q, r, hr, rfl⟩ : ∃ q r, r < blk ∧ s = q * blk + r + 1 := by
      refine ⟨(s - 1) / blk, (s - 1) % blk, Nat.mod_lt _ hblk, ?_⟩
      rw [Nat.div_add_mod']
      omega
    by_cases hin : q + 1 < m
    · refine ⟨q + 1, (q + 1) * blk, ?_, ?_, ?_⟩
      · unfold blocksOf
        rw [if_neg (by omega), if_pos hin]
      · rw [blkstart_blocksOf (by omega) (by omega), Nat.add_sub_cancel]
        omega
      · rw [Nat.add_mul]
        omega
    · refine ⟨m, endnum, ?_, ?_, hle⟩
      · unfold blocksOf
        rw [if_neg (by omega), if_neg (by omega)]
      · rw [blkstart_blocksOf hm (Nat.le_refl m)]
        have := Nat.mul_le_mul_right blk (show m - 1 ≤ q by omega)
        omega

/-- `^limits` at the head of the loop: the blocks before `i + 1` end where they are full. -/
def fullBlocks (blk i b : Nat) : Option Nat := if b = 0 ∨ i < b then none else some (b * blk)

theorem update_fullBlocks (blk i : Nat) :
    update (fullBlocks blk i) (i + 1) (some ((i + 1) * blk)) = fullBlocks blk (i + 1) := by
  funext b
  rcases Nat.lt_trichotomy b (i + 1) with hb | rfl | hb
  · rw [update_of_ne (by omega)]
    unfold fullBlocks
    by_cases hb : b = 0
    · rw [if_pos (Or.inl hb), if_pos (Or.inl hb)]
    · rw [if_neg (by omega), if_neg (by omega)]
  · rw [update_self, fullBlocks, if_neg (by omega)]
  · rw [update_of_ne (by omega), fullBlocks, fullBlocks, if_pos (by omega), if_pos (by omega)]

/-- A last block that would go too far is merged into the one before. -/
theorem update_fullBlocks_last {endnum blk i : Nat} (hi : 0 < i) :
    update (fullBlocks blk i) i (some endnum) = blocksOf endnum blk i := by
  funext b
  rcases Nat.lt_trichotomy b i with hb | rfl | hb
  · rw [update_of_ne (by omega)]
    unfold fullBlocks blocksOf
    by_cases hb : b = 0
    · rw [if_pos (Or.inl hb), if_pos (Or.inl hb)]
    · rw [if_neg (by omega), if_neg (by omega), if_pos (by omega)]
  · rw [update_self, blocksOf, if_neg (by omega), if_neg (by omega)]
  · rw [update_of_ne (by omega), fullBlocks, blocksOf, if_pos (by omega), if_pos (by omega)]

theorem fullBlocks_eq {blk i : Nat} (hi : 0 < i) :
    fullBlocks blk i = blocksOf (i * blk) blk i := by
  rw [← update_fullBlocks_last hi, eq_comm, update_eq_self_iff, fullBlocks, if_neg (by omega)]

/-- **The loop** makes as many blocks as fit, the last of them up to the end. -/
theorem defineLimits_eq {endnum blk : Nat} (hblk : 0 < blk) (hle : blk ≤ endnum) (turns i : Nat)
    (hturns : endnum ≤ (turns + i) * blk) (hi : i * blk ≤ endnum) :
    defineLimits endnum blk (turns + 1) (i + 1) (i * blk) i (fullBlocks blk i) =
      blocksOf endnum blk (endnum / blk) := by
  have hfit : 0 < endnum / blk := Nat.div_pos hle hblk
  -- the loop ends with the blocks that fit
  have hlast : ∀ i, i * blk ≤ endnum → endnum < i * blk + blk → i = endnum / blk := fun i hi hover =>
    (Nat.div_eq_of_lt_le hi (by rwa [Nat.succ_mul])).symm
  induction turns generalizing i with
  | zero =>
      have htmp : i * blk = endnum := by
        rw [Nat.zero_add] at hturns
        omega
      have hdiv := hlast i hi (by omega)
      rw [defineLimits, if_pos htmp, fullBlocks_eq (hdiv ▸ hfit), htmp, hdiv]
  | succ turns ih =>
      rw [defineLimits]
      by_cases htmp : i * blk = endnum
      · have hdiv := hlast i hi (by omega)
        rw [if_pos htmp, fullBlocks_eq (hdiv ▸ hfit), htmp, hdiv]
      · rw [if_neg htmp]
        by_cases hover : endnum < i * blk + blk
        · have hdiv := hlast i hi hover
          rw [if_pos hover, update_fullBlocks_last (hdiv ▸ hfit), hdiv]
        · rw [if_neg hover]
          have hnext : i * blk + blk = (i + 1) * blk := (Nat.succ_mul i blk).symm
          rw [hnext, update_fullBlocks]
          refine ih (i + 1) ?_ (by omega)
          rwa [show turns + (i + 1) = turns + 1 + i by omega]

theorem Line.blksize_bounds (l : Line) (hend : 0 < l.endnum) :
    0 < l.blksize ∧ l.blksize ≤ l.endnum := by
  have hmax : 0 < (l.endnum + (l.streams - 1)) / l.streams ∧
      (l.endnum + (l.streams - 1)) / l.streams ≤ l.endnum := by
    have := l.streams_pos
    constructor
    · exact Nat.div_pos (by omega) this
    · rw [← Nat.lt_succ_iff, Nat.div_lt_iff_lt_mul this, Nat.succ_mul]
      have := Nat.le_mul_of_pos_right l.endnum this
      omega
  unfold Line.blksize
  dsimp only
  split
  · next h => exact ⟨Nat.pos_of_ne_zero h.1, Nat.le_trans h.2 hmax.2⟩
  · exact hmax

theorem launch_limits (l : Line) (db : Db) (hend : 0 < l.endnum) :
    (launch l db).db.limits = blocksOf l.endnum l.blksize (l.endnum / l.blksize) := by
  have hblk := l.blksize_bounds hend
  have hnone : (fun _ => none) = fullBlocks l.blksize 0 := by
    funext b
    rw [fullBlocks, if_pos (by omega)]
  have heq := defineLimits_eq hblk.1 hblk.2 l.endnum 0
    (Nat.le_mul_of_pos_right l.endnum hblk.1) (by omega)
  rw [Nat.zero_mul, ← hnone] at heq
  exact heq

/-- The blocks of a line. -/
theorem launch_blocks (l : Line) (db : Db) (hend : 0 < l.endnum) :
    Blocks l.endnum (launch l db).db.limits := by
  have hblk := l.blksize_bounds hend
  have hfit : 0 < l.endnum / l.blksize := Nat.div_pos hblk.2 hblk.1
  have hlast : (l.endnum / l.blksize - 1) * l.blksize < l.endnum := by
    have hle := Nat.div_mul_le_self l.endnum l.blksize
    have hsub := Nat.sub_one_mul (l.endnum / l.blksize) l.blksize
    have hpos := Nat.le_mul_of_pos_left l.blksize hfit
    omega
  rw [launch_limits l db hend]
  exact blocks_blocksOf hblk.1 hfit hlast

/-! ### The size of the blocks -/

/-- What is promised of the blocks: they are numbered and follow each other up to `endnum`, none has
    more than `blk` numbers, and there are as many as it takes. -/
structure BlocksOfSize (endnum blk : Nat) (limits : Nat → Option Nat) : Prop where
  numbered : ∀ b, (limits b).isSome ↔ 0 < b ∧ b ≤ (endnum + (blk - 1)) / blk
  increasing : ∀ b e e', limits b = some e → limits (b + 1) = some e' → e < e'
  last : limits ((endnum + (blk - 1)) / blk) = some endnum
  size : ∀ b e, limits b = some e → e + 1 - blkstart limits b ≤ blk

/-- One more block than fit. -/
theorem ceil_of_not_dvd {endnum blk : Nat} (hblk : 0 < blk) (hdvd : ¬ blk ∣ endnum) :
    (endnum + (blk - 1)) / blk = endnum / blk + 1 := by
  have hmod : 0 < endnum % blk := Nat.pos_of_ne_zero fun h => hdvd (Nat.dvd_of_mod_eq_zero h)
  have hlt := Nat.mod_lt endnum hblk
  have hdiv := Nat.div_add_mod' endnum blk
  refine Nat.div_eq_of_lt_le ?_ ?_
  · rw [Nat.succ_mul]
    omega
  · rw [Nat.succ_mul, Nat.succ_mul]
    omega

theorem isSome_blocksOf {endnum blk m b : Nat} : (blocksOf endnum blk m b).isSome ↔ 0 < b ∧ b ≤ m := by
  unfold blocksOf
  by_cases hout : b = 0 ∨ m < b
  · rw [if_pos hout]
    simp
    omega
  · rw [if_neg hout]
    split <;> simp <;> omega

theorem blocksOfSize_blocksOf {blk m : Nat} (hblk : 0 < blk) (hm : 0 < m) :
    BlocksOfSize (m * blk) blk (blocksOf (m * blk) blk m) := by
  have hceil : (m * blk + (blk - 1)) / blk = m := by
    rw [Nat.mul_comm, Nat.mul_add_div hblk, Nat.div_eq_of_lt (by omega), Nat.add_zero]
  -- every block ends where it is full
  have hends : ∀ b e, blocksOf (m * blk) blk m b = some e → 0 < b ∧ b ≤ m ∧ e = b * blk := by
    intro b e he
    have hin := isSome_blocksOf.1 (Option.isSome_of_eq_some he)
    refine ⟨hin.1, hin.2, ?_⟩
    rw [blocksOf, if_neg (by omega)] at he
    split at he
    · exact (Option.some.inj he).symm
    · rw [show b = m by omega]
      exact (Option.some.inj he).symm
  refine ⟨fun b => ?_, fun b e e' he he' => ?_, ?_, fun b e he => ?_⟩
  · rw [hceil]
    exact isSome_blocksOf
  · obtain ⟨-, -, rfl⟩ := hends b e he
    obtain ⟨-, -, rfl⟩ := hends (b + 1) e' he'
    rw [Nat.succ_mul]
    omega
  · rw [hceil, blocksOf, if_neg (by omega), if_neg (by omega)]
  · obtain ⟨hb, hbm, rfl⟩ := hends b e he
    rw [blkstart_blocksOf hb hbm]
    have hsub := Nat.sub_one_mul b blk
    have hpos := Nat.le_mul_of_pos_left blk hb
    omega

/-- Blocks that take what is left into the last one have the size that was asked for exactly when it
    divides the last number. -/
theorem blocksOfSize_iff {endnum blk : Nat} (hblk : 0 < blk) (hle : blk ≤ endnum) :
    BlocksOfSize endnum blk (blocksOf endnum blk (endnum / blk)) ↔ blk ∣ endnum := by
  have hfit : 0 < endnum / blk := Nat.div_pos hle hblk
  refine ⟨fun h => ?_, fun h => ?_⟩
  · by_contra hdvd
    have hlast := h.last
    rw [ceil_of_not_dvd hblk hdvd] at hlast
    have hin := isSome_blocksOf.1 (Option.isSome_of_eq_some hlast)
    omega
  · have hdiv : endnum / blk * blk = endnum := Nat.div_mul_cancel h
    have hsize := blocksOfSize_blocksOf hblk hfit
    rwa [hdiv] at hsize

/-! ### The blocks in int64 -/

theorem int64_of_range {n : Int} (hlow : -2 ^ 63 ≤ n) (hhigh : n < 2 ^ 63) : int64 n = n :=
  Int.bmod_eq_of_le (by omega) (by omega)

theorem int64_wrap {n : Int} (hlow : 2 ^ 63 ≤ n) (hhigh : n < 2 ^ 64) : int64 n = n - 2 ^ 64 := by
  have hself : int64 n = int64 (n - 2 ^ 64) := (Int.sub_bmod_right n (2 ^ 64)).symm
  rw [hself, int64_of_range (by omega) (by omega)]

/-- Where the sum for the maximum does not wrap around, the size is that of `blksize`. -/
theorem Line.blk64_eq (l : Line) (h : l.endnum + (l.streams - 1) < 2 ^ 63) : l.blk64 = l.blksize := by
  have hpos := l.streams_pos
  have hsum : int64 (l.endnum + (l.streams - 1)) = ((l.endnum + (l.streams - 1) : Nat) : Int) := by
    rw [int64_of_range (by omega) (by omega)]
    omega
  have hdiv : (((l.endnum + (l.streams - 1) : Nat) : Int)).tdiv l.streams =
      (((l.endnum + (l.streams - 1)) / l.streams : Nat) : Int) := rfl
  unfold Line.blk64 Line.blksize
  rw [hsum, hdiv]
  dsimp only
  by_cases hle : l.blk ≠ 0 ∧ l.blk ≤ (l.endnum + (l.streams - 1)) / l.streams
  · rw [if_pos hle, if_pos ⟨hle.1, Int.ofNat_le.2 hle.2⟩]
  · rw [if_neg hle, if_neg fun hn => hle ⟨hn.1, Int.ofNat_le.1 hn.2⟩]

/-- Where it does, the size is not above 0. -/
theorem Line.blk64_nonpos (l : Line) (h : l.IsInt64) (hover : 2 ^ 63 ≤ l.endnum + (l.streams - 1)) :
    l.blk64 ≤ 0 := by
  obtain ⟨hend, hstreams, -⟩ := h
  have hpos := l.streams_pos
  have hsum : int64 (l.endnum + (l.streams - 1)) ≤ 0 := by
    rw [int64_wrap (by omega) (by omega)]
    omega
  have hmax : (int64 (l.endnum + (l.streams - 1))).tdiv l.streams ≤ 0 := by
    have hneg := Int.tdiv_nonneg (Int.neg_nonneg_of_nonpos hsum) (Int.natCast_nonneg l.streams)
    rw [Int.neg_tdiv] at hneg
    omega
  unfold Line.blk64
  dsimp only
  split
  · rename_i hle
    omega
  · exact hmax

/-- `^limits` as a table of int64. -/
def toInts (limits : Nat → Option Nat) (b : Nat) : Option Int := (limits b).map Nat.cast

theorem toInts_inj {limits limits' : Nat → Option Nat} (h : toInts limits = toInts limits') :
    limits = limits' := by
  funext b
  exact Option.map_injective (fun _ _ => Int.ofNat.inj) (congrFun h b)

theorem update_toInts (limits : Nat → Option Nat) (i n : Nat) :
    update (toInts limits) i (some (n : Int)) = toInts (update limits i (some n)) := by
  funext b
  by_cases hb : b = i
  · subst hb
    rw [toInts, update_self, update_self]
    rfl
  · rw [toInts, update_of_ne hb, update_of_ne hb]
    rfl

/-- An entry of `^limits` behind the last two stays as it is. -/
theorem defineLimits64_kept {endnum blk : Int} : ∀ (turns : Nat) {i sub k : Nat} {tmp : Int}
    {limits r : Nat → Option Int}, k < sub → sub < i →
    defineLimits64 endnum blk turns i tmp sub limits = some r → r k = limits k
  | 0, _, _, _, _, _, _, _, _, h => by cases h
  | turns + 1, i, sub, k, tmp, limits, r, hk, hsub, h => by
      rw [defineLimits64] at h
      split at h
      · rw [Option.some.inj h]
      · split at h
        · rw [← Option.some.inj h, update_of_ne (Nat.ne_of_lt hk)]
        · rw [defineLimits64_kept turns (Nat.lt_trans hk hsub) (Nat.lt_succ_self i) h,
            update_of_ne (Nat.ne_of_lt (Nat.lt_trans hk hsub))]

section Loop

variable {endnum blk : Nat} (hint : endnum < 2 ^ 63) (hblk : 0 < blk)

include hint hblk

/-- The blocks that fit are defined one after the other. -/
theorem defineLimits64_full (turns : Nat) {i : Nat} (hi : i * blk ≤ endnum) :
    defineLimits64 endnum blk (turns + i) 1 0 0 (fun _ => none) =
      defineLimits64 endnum blk turns (i + 1) ((i * blk : Nat) : Int) i (toInts (fullBlocks blk i)) := by
  induction i generalizing turns with
  | zero =>
      have hnone : toInts (fullBlocks blk 0) = fun _ => none := by
        funext b
        rw [toInts, fullBlocks, if_pos (by omega)]
        rfl
      rw [hnone, Nat.zero_mul]
      rfl
  | succ i ih =>
      have hnext : i * blk + blk = (i + 1) * blk := (Nat.succ_mul i blk).symm
      have hsum : int64 (((i * blk : Nat) : Int) + blk) = (((i + 1) * blk : Nat) : Int) := by
        rw [← hnext, int64_of_range (by omega) (by omega)]
        omega
      rw [show turns + (i + 1) = turns + 1 + i by omega, ih (turns + 1) (by omega), defineLimits64, hsum,
        if_neg (by omega), if_neg (by omega), update_toInts, update_fullBlocks]

/-- The loop does not end before all blocks that fit are defined. -/
theorem defineLimits64_short {turns : Nat} (hturns : turns ≤ endnum / blk) :
    defineLimits64 endnum blk turns 1 0 0 (fun _ => none) = none := by
  have hi : turns * blk ≤ endnum := by
    rw [Nat.le_div_iff_mul_le hblk] at hturns
    exact hturns
  have hfull := defineLimits64_full hint hblk 0 hi
  rwa [Nat.zero_add] at hfull

/-- It ends there if they go up to the last number. -/
theorem defineLimits64_dvd (hle : blk ≤ endnum) (hdvd : blk ∣ endnum) (turns : Nat) :
    defineLimits64 endnum blk (turns + 1 + endnum / blk) 1 0 0 (fun _ => none) =
      some (toInts (blocksOf endnum blk (endnum / blk))) := by
  have hdiv : endnum / blk * blk = endnum := Nat.div_mul_cancel hdvd
  rw [defineLimits64_full hint hblk (turns + 1) (Nat.div_mul_le_self endnum blk), defineLimits64,
    if_pos (by rw [hdiv]), fullBlocks_eq (Nat.div_pos hle hblk), hdiv]

/-- Otherwise what is left goes into the last one, if the next sum does not wrap around. -/
theorem defineLimits64_last (hle : blk ≤ endnum) (hdvd : ¬ blk ∣ endnum)
    (hnext : endnum / blk * blk + blk < 2 ^ 63) (turns : Nat) :
    defineLimits64 endnum blk (turns + 1 + endnum / blk) 1 0 0 (fun _ => none) =
      some (toInts (blocksOf endnum blk (endnum / blk))) := by
  have hfull := Nat.div_mul_le_self endnum blk
  have hover := Nat.lt_div_mul_add (a := endnum) hblk
  have hne : endnum / blk * blk ≠ endnum := fun heq => hdvd ⟨endnum / blk, by rw [Nat.mul_comm, heq]⟩
  have hsum : int64 (((endnum / blk * blk : Nat) : Int) + blk) = ((endnum / blk * blk + blk : Nat) : Int) := by
    rw [int64_of_range (by omega) (by omega)]
    omega
  rw [defineLimits64_full hint hblk (turns + 1) hfull, defineLimits64, hsum, if_neg (by omega),
    if_pos (by omega), update_toInts, update_fullBlocks_last (Nat.div_pos hle hblk)]

/-- Blocks that do not divide the last number: one is missing, or it ends below 0. -/
theorem not_blocksOfSize64 (hle : blk ≤ endnum) (hdvd : ¬ blk ∣ endnum) {turns : Nat}
    {limits : Nat → Option Nat}
    (h : defineLimits64 endnum blk turns 1 0 0 (fun _ => none) = some (toInts limits)) :
    ¬ BlocksOfSize endnum blk limits := by
  obtain ⟨more, rfl⟩ : ∃ more, turns = more + 1 + endnum / blk := by
    by_cases hturns : turns ≤ endnum / blk
    · rw [defineLimits64_short hint hblk hturns] at h
      cases h
    · exact ⟨turns - 1 - endnum / blk, by omega⟩
  by_cases hnext : endnum / blk * blk + blk < 2 ^ 63
  · rw [defineLimits64_last hint hblk hle hdvd hnext, Option.some_inj] at h
    rw [← toInts_inj h, blocksOfSize_iff hblk hle]
    exact hdvd
  · -- the next sum wraps around, and the one after it is below the last number
    intro hsize
    have hfull := Nat.div_mul_le_self endnum blk
    have hne : endnum / blk * blk ≠ endnum := fun heq => hdvd ⟨endnum / blk, by rw [Nat.mul_comm, heq]⟩
    have hsum : int64 (((endnum / blk * blk : Nat) : Int) + blk) =
        ((endnum / blk * blk : Nat) : Int) + blk - 2 ^ 64 := int64_wrap (by omega) (by omega)
    have hsum' : int64 (((endnum / blk * blk : Nat) : Int) + blk - 2 ^ 64 + blk) =
        ((endnum / blk * blk : Nat) : Int) + blk - 2 ^ 64 + blk := int64_of_range (by omega) (by omega)
    rw [defineLimits64_full hint hblk (more + 1) hfull, defineLimits64, hsum, if_neg (by omega),
      if_neg (by omega)] at h
    cases more with
    | zero => cases h
    | succ more =>
        rw [defineLimits64, hsum', if_neg (by omega), if_neg (by omega)] at h
        have hkept := defineLimits64_kept more (k := endnum / blk + 1) (by omega) (by omega) h
        have hlast := hsize.last
        rw [ceil_of_not_dvd hblk hdvd] at hlast
        rw [toInts, hlast, update_of_ne (by omega), update_self, Option.map_some, Option.some_inj] at hkept
        omega

end Loop

/-- **What the claim says of a line**: the loop ends, and the blocks have the size that was asked for. -/
def Line.HasBlocks (l : Line) : Prop :=
  ∃ turns limits, l.limits64 turns = some (toInts limits) ∧ BlocksOfSize l.endnum l.blk64.toNat limits

/-- A size that is not above 0 has no blocks. -/
theorem not_blocksOfSize_zero {endnum : Nat} {limits : Nat → Option Nat} :
    ¬ BlocksOfSize endnum 0 limits := fun h => by
  have hlast := h.last
  rw [Nat.div_zero] at hlast
  have hpos := ((h.numbered 0).1 (Option.isSome_of_eq_some hlast)).1
  exact Nat.lt_irrefl 0 hpos

/-- **The blocks of a line have the size that was asked for** exactly when the sum for the maximum is an
    int64 and the size divides the last number. Otherwise the last block takes the numbers that are left,
    too, or `^limits` goes below 0. -/
theorem limits64_blocksOfSize_iff (l : Line) (h : l.IsInt64) (hend : 0 < l.endnum) :
    l.HasBlocks ↔ l.endnum + (l.streams - 1) < 2 ^ 63 ∧ l.blksize ∣ l.endnum := by
  by_cases hsum : l.endnum + (l.streams - 1) < 2 ^ 63
  · obtain ⟨hblk, hle⟩ := l.blksize_bounds hend
    have hsize : l.blk64.toNat = l.blksize := by rw [l.blk64_eq hsum, Int.toNat_natCast]
    unfold Line.HasBlocks Line.limits64
    rw [hsize, l.blk64_eq hsum, and_iff_right hsum]
    constructor
    · intro ⟨turns, limits, hlimits, hblocks⟩
      by_contra hdvd
      exact not_blocksOfSize64 h.1 hblk hle hdvd hlimits hblocks
    · intro hdvd
      exact ⟨_, _, defineLimits64_dvd h.1 hblk hle hdvd 0, (blocksOfSize_iff hblk hle).2 hdvd⟩
  · refine iff_of_false (fun ⟨turns, limits, _, hblocks⟩ => ?_) fun hcond => hsum hcond.1
    have hzero : l.blk64.toNat = 0 := Int.toNat_of_nonpos (l.blk64_nonpos h (Nat.not_lt.1 hsum))
    rw [hzero] at hblocks
    exact not_blocksOfSize_zero hblocks

/-- Ten numbers for one stream, five or four at a time. -/
def tenByFive : Line := ⟨10, 1, 5, by decide⟩
def tenByFour : Line := ⟨10, 1, 4, by decide⟩

theorem limits64_blocksOfSize_five : tenByFive.HasBlocks :=
  (limits64_blocksOfSize_iff tenByFive (by decide) (by decide)).2 (by decide)

/-- The second of the blocks of four has six numbers. -/
theorem last_block_too_large : tenByFour.limits64 4 = some (toInts (blocksOf 10 4 2)) ∧
    (∃ e, blocksOf 10 4 2 2 = some e ∧ e + 1 - blkstart (blocksOf 10 4 2) 2 = 6) ∧ ¬ tenByFour.HasBlocks := by
  refine ⟨defineLimits64_last (by decide) (by decide) (by decide) (by decide) (by decide) 1,
    ⟨10, rfl, rfl⟩, ?_⟩
  intro ⟨turns, limits, hlimits, hblocks⟩
  have hne : ¬ 4 ∣ 10 := by decide
  exact not_blocksOfSize64 (by decide) (by decide) (by decide) hne hlimits hblocks

/-- Where no sum wraps around, `launch` defines the blocks of the program. -/
theorem launch_limits64 (l : Line) (db : Db) (h : l.IsInt64) (hend : 0 < l.endnum)
    (hsum : l.endnum + (l.streams - 1) < 2 ^ 63) (hnext : l.endnum + l.blksize ≤ 2 ^ 63) :
    l.limits64 (1 + l.endnum / l.blksize) = some (toInts (launch l db).db.limits) := by
  obtain ⟨hblk, hle⟩ := l.blksize_bounds hend
  unfold Line.limits64
  rw [launch_limits l db hend, l.blk64_eq hsum]
  by_cases hdvd : l.blksize ∣ l.endnum
  · exact defineLimits64_dvd h.1 hblk hle hdvd 0
  · have hfull := Nat.div_mul_le_self l.endnum l.blksize
    have hne : l.endnum / l.blksize * l.blksize ≠ l.endnum := fun heq =>
      hdvd ⟨l.endnum / l.blksize, by rw [Nat.mul_comm, heq]⟩
    exact defineLimits64_last h.1 hblk hle hdvd (by omega) 0

/-- A database without the globals of the program. -/
def Db.blank : Db := ⟨fun _ => none, fun _ => 0, fun _ => none, none, none, none, none⟩

/-! ## 2. What an operation does to the claims -/

/-- The block is behind a goroutine that started before it. -/
def Pc.Passed (b : Nat) : Pc → Prop
  | .claim index => b < index
  | .scan index | .fetchEnd index | .fetchStart index _ => b ≤ index
  | .probe w .. | .fetchStep w .. | .tally w .. | .write w .. => b ≤ w.index
  | .final | .finished => True
  | .panicked => False

/-- The operations of a goroutine that does not panic, as far as the claims go. -/
inductive Moves (db : Db) : Pc → (Nat → Nat) → Pc → Prop
  /-- the next block is there -/
  | next (index : Nat) : Moves db (.scan index) db.claims (.claim (index + 1))
  /-- there is no further block -/
  | last {index : Nat} (h : db.limits (index + 1) = none) : Moves db (.scan index) db.claims .final
  | won {index : Nat} (h : db.claims index = 0) :
      Moves db (.claim index) (update db.claims index 1) (.fetchEnd index)
  | lost {index : Nat} (h : db.claims index ≠ 0) :
      Moves db (.claim index) (update db.claims index (db.claims index + 1)) (.scan index)
  /-- on with the same block -/
  | work {pc pc' : Pc} {index : Nat} (h : pc.block = some index) (h' : pc'.block = some index)
      (hp : ∀ b, pc.Passed b ↔ pc'.Passed b) : Moves db pc db.claims pc'
  /-- the block is done -/
  | done {pc : Pc} {index : Nat} (h : pc.block = some index) (hp : ∀ b, pc.Passed b ↔ b ≤ index) :
      Moves db pc db.claims (.scan index)
  | finish : Moves db .final db.claims .finished
  | finished : Moves db .finished db.claims .finished

theorem moves_nextCurrent {db : Db} {pc : Pc} {w : Work} (h : pc.block = some w.index)
    (hp : ∀ b, pc.Passed b ↔ b ≤ w.index) : Moves db pc db.claims (nextCurrent w) := by
  unfold nextCurrent
  split
  · exact .work h rfl hp
  · exact .done h hp

theorem act_moves (db : Db) (l : Local) (pc : Pc) (h : (act db l pc).2.2 ≠ .panicked) :
    Moves db pc (act db l pc).1.claims (act db l pc).2.2 := by
  cases pc with
  | scan index =>
      by_cases hdata : (db.limits (index + 1)).isSome || db.claims (index + 1) ≠ 0
      · simp only [act, if_pos hdata]
        exact .next index
      · simp only [act, if_neg hdata]
        simp at hdata
        exact .last hdata.1
  | claim index =>
      by_cases hzero : db.claims index = 0
      · simpa [act, hzero] using Moves.won hzero
      · simpa [act, hzero] using Moves.lost hzero
  | fetchEnd index =>
      cases hlim : db.limits index with
      | none => simp [act, hlim] at h
      | some blkend =>
          simp only [act, hlim]
          split
          · exact moves_nextCurrent rfl fun b => Iff.rfl
          · exact .work rfl rfl fun b => Iff.rfl
  | fetchStart index blkend =>
      cases hlim : db.limits (index - 1) with
      | none => simp [act, hlim] at h
      | some e =>
          simp only [act, hlim]
          exact moves_nextCurrent rfl fun b => Iff.rfl
  | probe w i n path =>
      simp only [act] at h ⊢
      split at h
      · exact absurd rfl h
      · next hbig =>
          rw [if_neg hbig]
          split
          · split
            · exact moves_nextCurrent rfl fun b => Iff.rfl
            · split
              · exact .work rfl rfl fun b => Iff.rfl
              · exact .work rfl rfl fun b => Iff.rfl
          · exact .work rfl rfl fun b => Iff.rfl
  | fetchStep w i n path =>
      cases hstep : db.step n with
      | none => simp [act, hstep] at h
      | some stepval =>
          simp only [act, hstep]
          exact .work rfl rfl fun b => Iff.rfl
  | tally w i path =>
      simp only [act]
      split
      · exact .work rfl rfl fun b => Iff.rfl
      · exact .work rfl rfl fun b => Iff.rfl
  | write w i k rest =>
      cases rest with
      | nil => exact moves_nextCurrent rfl fun b => Iff.rfl
      | cons n rest => exact .work rfl rfl fun b => Iff.rfl
  | final => exact .finish
  | finished => exact .finished
  | panicked => exact absurd rfl h

section Moves

variable {db : Db} {pc pc' : Pc} {claims : Nat → Nat} {b : Nat}

theorem Moves.claims_ne (h : Moves db pc claims pc') :
    claims b ≠ 0 ↔ db.claims b ≠ 0 ∨ pc = .claim b := by
  cases h with
  | next => simp
  | last => simp
  | @won index hzero =>
      by_cases hb : b = index
      · simp [hb]
      · simp [hb, Ne.symm hb]
  | @lost index hne =>
      by_cases hb : b = index
      · simp [hb]
      · simp [hb, Ne.symm hb]
  | work h =>
      refine ⟨Or.inl, ?_⟩
      rintro (hne | rfl)
      · exact hne
      · cases h
  | done h =>
      refine ⟨Or.inl, ?_⟩
      rintro (hne | rfl)
      · exact hne
      · cases h
  | finish => simp
  | finished => simp

/-- A goroutine gets a block with the first claim, and keeps it until it is done. -/
theorem Moves.block_iff (h : Moves db pc claims pc') :
    pc'.block = some b ∨ completed pc pc' = some b ↔
      pc.block = some b ∨ pc = .claim b ∧ db.claims b = 0 := by
  cases h with
  | next => simp [Pc.block, completed]
  | last => simp [Pc.block, completed]
  | @won index hzero =>
      simp only [Pc.block, completed, Option.some.injEq, Pc.claim.injEq, reduceCtorEq, or_false,
        false_or]
      constructor
      · rintro rfl
        exact ⟨rfl, hzero⟩
      · exact And.left
  | @lost index hne =>
      simp only [Pc.block, completed, Pc.claim.injEq, reduceCtorEq, false_or, false_iff, not_and]
      rintro rfl
      exact hne
  | @work _ _ index h h' =>
      have hclaim : pc ≠ .claim b := by
        rintro rfl
        cases h
      have hcomp : completed pc pc' = none := by
        cases pc' with
        | scan => cases h'
        | _ => rfl
      simp [h, h', hclaim, hcomp]
  | done h =>
      have hclaim : pc ≠ .claim b := by
        rintro rfl
        cases h
      simp [completed, hclaim, Pc.block]
  | finish => simp [Pc.block, completed]
  | finished => simp [Pc.block, completed]

theorem Moves.completed_eq_none (h : Moves db pc claims pc') (hb : pc'.block = some b) :
    completed pc pc' = none := by
  cases pc' with
  | scan => cases hb
  | _ => rfl

/-- What is behind a goroutine has been claimed. -/
theorem Moves.passed (h : Moves db pc claims pc')
    (hnum : ∃ m, ∀ b, (db.limits b).isSome ↔ 0 < b ∧ b ≤ m) (hb : (db.limits b).isSome)
    (hp : pc'.Passed b) : pc.Passed b ∨ claims b ≠ 0 := by
  cases h with
  | next => exact Or.inl (Nat.lt_succ_iff.mp hp)
  | @last index hnone =>
      obtain ⟨m, hm⟩ := hnum
      have hlast := hm (index + 1)
      rw [hnone] at hlast
      have := (hm b).mp hb
      simp at hlast
      exact Or.inl (show b ≤ index by omega)
  | @won index =>
      rcases Nat.lt_or_eq_of_le (show b ≤ index from hp) with hlt | rfl
      · exact Or.inl hlt
      · exact Or.inr (by simp)
  | @lost index =>
      rcases Nat.lt_or_eq_of_le (show b ≤ index from hp) with hlt | rfl
      · exact Or.inl hlt
      · exact Or.inr (by simp)
  | work _ _ hiff => exact Or.inl ((hiff b).mpr hp)
  | done _ hiff => exact Or.inl ((hiff b).mpr hp)
  | finish => exact Or.inl hp
  | finished => exact Or.inl hp

end Moves

/-! ## 3. Every block has one goroutine -/

/-- The goroutine works on the block, or is done with it. -/
def Owns (r : Run) (b g : Nat) : Prop := (r.pc g).block = some b ∨ (b, g) ∈ r.processed

structure Claims (l : Line) (r : Run) : Prop where
  outside : ∀ g, l.streams ≤ g → r.pc g = .scan g
  passed : ∀ {g b : Nat}, g < b → (r.pc g).Passed b → (r.db.limits b).isSome → r.db.claims b ≠ 0
  owned : ∀ {b : Nat}, r.db.claims b ≠ 0 → ∃ g < l.streams, Owns r b g
  claimed : ∀ {b g : Nat}, Owns r b g → r.db.claims b ≠ 0
  unique : ∀ {b g g' : Nat}, Owns r b g → Owns r b g' → g = g'
  working : ∀ {b g : Nat}, (r.pc g).block = some b → (b, g) ∉ r.processed
  nodup : r.processed.Nodup

theorem launch_claims (l : Line) (db : Db) : Claims l (launch l db) := by
  have howns (b g : Nat) : ¬ Owns (launch l db) b g := by
    rintro (h | h)
    · cases h
    · cases h
  exact
    { outside := fun g _ => rfl
      passed := fun hgb hp _ => absurd hgb (Nat.not_lt.mpr hp)
      owned := fun h => absurd rfl h
      claimed := fun h => absurd h (howns _ _)
      unique := fun h => absurd h (howns _ _)
      working := fun _ h => by cases h
      nodup := List.nodup_nil }

@[simp] theorem act_limits (db : Db) (l : Local) (pc : Pc) :
    (act db l pc).1.limits = db.limits := by
  unfold act
  repeat' split
  all_goals rfl

variable {l : Line} {r : Run} {g : Nat}

theorem act_pc_self : (r.act g).pc g = (act r.db (r.loc g) (r.pc g)).2.2 := update_self ..

theorem act_pc_of_ne {g' : Nat} (h : g' ≠ g) : (r.act g).pc g' = r.pc g' := update_of_ne h ..

theorem act_processed : (r.act g).processed =
    r.processed ++ (completed (r.pc g) ((r.act g).pc g)).toList.map fun b => (b, g) := by
  rw [act_pc_self]
  rfl

theorem mem_processed_act {b g' : Nat} : (b, g') ∈ (r.act g).processed ↔
    (b, g') ∈ r.processed ∨ g' = g ∧ completed (r.pc g) ((r.act g).pc g) = some b := by
  simp only [act_processed, List.mem_append, List.mem_map, Option.mem_toList, Prod.mk.injEq]
  constructor
  · rintro (h | ⟨a, h, rfl, rfl⟩)
    · exact Or.inl h
    · exact Or.inr ⟨rfl, h⟩
  · rintro (h | ⟨rfl, h⟩)
    · exact Or.inl h
    · exact Or.inr ⟨b, h, rfl, rfl⟩

/-- A goroutine comes to a block by its first claim only. -/
theorem owns_act (h : (r.act g).pc g ≠ .panicked) {b g' : Nat} :
    Owns (r.act g) b g' ↔
      Owns r b g' ∨ g' = g ∧ r.pc g = .claim b ∧ r.db.claims b = 0 := by
  have hiff := (act_moves r.db (r.loc g) (r.pc g) (act_pc_self (g := g) ▸ h)).block_iff (b := b)
  rw [← act_pc_self] at hiff
  unfold Owns
  rw [mem_processed_act]
  by_cases hg : g' = g
  · subst hg
    simp only [true_and]
    tauto
  · simp only [act_pc_of_ne hg, hg, false_and, or_false]

theorem claims_act (hb : Blocks l.endnum r.db.limits) (hr : Claims l r) (hg : g < l.streams)
    (h : (r.act g).pc g ≠ .panicked) : Claims l (r.act g) := by
  have hm := act_moves r.db (r.loc g) (r.pc g) (act_pc_self (g := g) ▸ h)
  rw [← act_pc_self] at hm
  have hclaims (b : Nat) : (r.act g).db.claims b ≠ 0 ↔ r.db.claims b ≠ 0 ∨ r.pc g = .claim b :=
    hm.claims_ne
  have howns (b g' : Nat) : Owns (r.act g) b g' ↔
      Owns r b g' ∨ g' = g ∧ r.pc g = .claim b ∧ r.db.claims b = 0 := owns_act h
  -- the first claim of a block is at one that nobody has
  have hfree {b g' : Nat} (hzero : r.db.claims b = 0) : ¬ Owns r b g' := fun ho =>
    hr.claimed ho hzero
  refine ⟨fun g' hg' => ?_, fun {g' b} hlt hp hlim => ?_, fun {b} hne => ?_, fun {b g'} ho => ?_,
    fun {b g₁ g₂} h₁ h₂ => ?_, fun {b g'} hblk => ?_, ?_⟩
  · rw [act_pc_of_ne (by omega)]
    exact hr.outside g' hg'
  · have hlim' : (r.db.limits b).isSome := by simpa [Run.act] using hlim
    by_cases hgg : g' = g
    · subst hgg
      rcases hm.passed hb.numbered hlim' hp with hp | hne
      · exact (hclaims b).mpr (Or.inl (hr.passed hlt hp hlim'))
      · exact hne
    · rw [act_pc_of_ne hgg] at hp
      exact (hclaims b).mpr (Or.inl (hr.passed hlt hp hlim'))
  · by_cases hzero : r.db.claims b = 0
    · have hclaim := ((hclaims b).mp hne).resolve_left fun hne => hne hzero
      exact ⟨g, hg, (howns b g).mpr (Or.inr ⟨rfl, hclaim, hzero⟩)⟩
    · obtain ⟨g', hg', ho⟩ := hr.owned hzero
      exact ⟨g', hg', (howns b g').mpr (Or.inl ho)⟩
  · refine (hclaims b).mpr ?_
    rcases (howns b g').mp ho with ho | ⟨_, hclaim, _⟩
    · exact Or.inl (hr.claimed ho)
    · exact Or.inr hclaim
  · rcases (howns b g₁).mp h₁ with h₁ | ⟨rfl, _, hzero⟩
    · rcases (howns b g₂).mp h₂ with h₂ | ⟨_, _, hzero⟩
      · exact hr.unique h₁ h₂
      · exact absurd h₁ (hfree hzero)
    · rcases (howns b g₂).mp h₂ with h₂ | ⟨rfl, _⟩
      · exact absurd h₂ (hfree hzero)
      · rfl
  · rw [mem_processed_act]
    by_cases hgg : g' = g
    · subst hgg
      rw [hm.completed_eq_none hblk]
      rintro (hmem | ⟨_, h⟩)
      · rcases hm.block_iff.mp (Or.inl hblk) with hold | ⟨_, hzero⟩
        · exact hr.working hold hmem
        · exact hfree hzero (Or.inr hmem)
      · cases h
    · rw [act_pc_of_ne hgg] at hblk
      rintro (hmem | ⟨hgg', _⟩)
      · exact hr.working hblk hmem
      · exact hgg hgg'
  · rw [act_processed]
    cases hcomp : completed (r.pc g) ((r.act g).pc g) with
    | none => simpa using hr.nodup
    | some b =>
        have hnew : (b, g) ∉ r.processed := fun hmem => by
          rcases hm.block_iff.mp (Or.inr hcomp) with hold | ⟨_, hzero⟩
          · exact hr.working hold hmem
          · exact hfree hzero (Or.inr hmem)
        simp only [Option.toList_some, List.map_cons, List.map_nil, List.nodup_append]
        refine ⟨hr.nodup, by simp, fun x hx y hy hxy => ?_⟩
        rw [List.mem_singleton.mp hy] at hxy
        exact hnew (hxy ▸ hx)

end YottaTest.Go
