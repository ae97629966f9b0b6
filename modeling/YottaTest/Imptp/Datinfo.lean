/-
  File:      YottaTest/Imptp/Datinfo.lean
  Subject:   datinfo.m: the key and record sizes imptp pads its nodes to.

  `get^datinfo` takes the three sizes of a region and adjusts them one after the other. The sizes
  are whole numbers below 2^31, so the ratio tests are stated without the division: the eighteen
  digits of a quotient decide them.

  * `capRecord`, `halfBlock`, `ugenstrRoom`, `maxbtlevel` -- the adjustments, in the source's order;
  * `get` -- all of them, then `record_size` and `key_size`;
  * `Usable` -- what the comments promise of the result;
  * `get_usable_iff` -- **the sizes are usable iff the half-block key still fits the record.**
-/
import YottaTest.Imptp.Gen

namespace YottaTest.Imptp

open YottaTest.M

/-! ## 1. The routine -/

/-- The nodes of `datinfo` that `dseget` fills in. -/
structure Datinfo where
  block_size : Int
  max_record_size : Int
  max_key_size : Int
  deriving DecidableEq, Repr

/-- `set blockspan=+$ztrnlnm("gtm_test_spannode")`, and 0 before V6.0-000. -/
def blockspan (spannode version : Nat) : Nat := if version < 60000 then 0 else spannode

/-- `set ugenstrmax=$select(chset="M":70,1:120)`. -/
def ugenstrmax : Chset → Int
  | .m => 70
  | .utf8 => 120

/-- `imptpmaxkeysize`, the room for the rest of a key of imptp. -/
def imptpmaxkeysize : Int := 40

/-- `recpad`, the size of `rec_hdr`. -/
def headerpad : Int := 4

namespace Datinfo

/-- No large records unless the test is spanning nodes. -/
def capRecord (blockspan : Nat) (d : Datinfo) : Datinfo :=
  if blockspan = 0 ∧ d.max_record_size > 1000 then { d with max_record_size := 1000 } else d

/-- `set:(.5<(max_key_size/block_size)) max_key_size=(block_size*0.5)\1`. -/
def halfBlock (d : Datinfo) : Datinfo :=
  if d.block_size < 2 * d.max_key_size then { d with max_key_size := d.block_size / 2 } else d

/-- Without spanning nodes the largest string of `ugenstr` is to fit beside the key. -/
def ugenstrRoom (blockspan : Nat) (ugenstrmax : Int) (d : Datinfo) : Datinfo :=
  if blockspan = 0 ∧ d.max_record_size - d.max_key_size < ugenstrmax then
    { d with max_key_size :=
        if d.max_key_size < 255 then ugenstrmax else d.max_key_size - ugenstrmax }
  else d

/-- `blockdatalen=0`, or `(max_record_size/blockdatalen)>3`. -/
def largerecdataratio (d : Datinfo) : Prop :=
  let blockdatalen := d.block_size - d.max_key_size
  blockdatalen = 0 ∨ 0 < blockdatalen ∧ 3 * blockdatalen < d.max_record_size

instance (d : Datinfo) : Decidable d.largerecdataratio := by
  unfold largerecdataratio
  infer_instance

/-- `if max_key_size>(block_size*key2blockpct) set max_key_size=(block_size*key2blockpct)\1`. -/
def key2block (d : Datinfo) : Datinfo :=
  if 3 * d.block_size < 10 * d.max_key_size then { d with max_key_size := 3 * d.block_size / 10 }
  else d

/-- `set max_record_size=3*blockdatalen`. -/
def threeBlocks (d : Datinfo) : Datinfo :=
  { d with max_record_size := 3 * (d.block_size - d.max_key_size) }

/-- MAXBTLEVEL avoidance, for `blockspan=1`. -/
def maxbtlevel (blockspan : Nat) (d : Datinfo) : Datinfo :=
  if blockspan = 1 ∧ d.largerecdataratio then
    if d.key2block.largerecdataratio then d.key2block.threeBlocks else d.key2block
  else d

/-- `datinfo("record_size")`. -/
def record_size (blockspan : Nat) (d : Datinfo) : Int :=
  d.max_record_size - if blockspan > 0 then headerpad else d.max_key_size + headerpad

/-- `datinfo("key_size")`. -/
def key_size (d : Datinfo) : Int := d.max_key_size - imptpmaxkeysize

/-- `get^datinfo`, up to the two sizes read off the result by `record_size` and `key_size`. -/
def get (blockspan : Nat) (chset : Chset) (d : Datinfo) : Datinfo :=
  (((d.capRecord blockspan).halfBlock).ugenstrRoom blockspan (ugenstrmax chset)).maxbtlevel blockspan

/-! ## 2. Usable sizes -/

/-- What the comments promise of the result `r` for a region `d`. -/
structure Usable (blockspan : Nat) (chset : Chset) (d r : Datinfo) : Prop where
  key_pos : 0 < r.key_size
  key_le : r.key_size + imptpmaxkeysize ≤ d.max_key_size
  record_pos : 0 < r.record_size blockspan
  record_le : r.record_size blockspan ≤ d.max_record_size - headerpad
  ugenstr_fits : blockspan = 0 → ugenstrmax chset ≤ r.max_record_size - r.max_key_size

/-- The sizes of a region that the database accepts. -/
structure Region (d : Datinfo) : Prop where
  key : 64 ≤ d.max_key_size
  record : 256 ≤ d.max_record_size
  block : d.max_key_size < d.block_size

/-- The condition under which the rules do not undo each other's work: half a block is more than
    imptp's own keys, the key fits the record without spanning nodes, and so does three tenths of
    the block where the key is cut down to that. -/
structure Fits (blockspan : Nat) (d : Datinfo) : Prop where
  block : 82 ≤ d.block_size
  key : blockspan = 0 → min d.max_key_size (d.block_size / 2) ≤ min d.max_record_size 1000
  cut : blockspan = 1 → d.halfBlock.largerecdataratio →
    3 * d.block_size < 10 * d.halfBlock.max_key_size → 137 ≤ d.block_size

section Rules

variable {d : Datinfo}

theorem ugenstrmax_bounds (chset : Chset) : 70 ≤ ugenstrmax chset ∧ ugenstrmax chset ≤ 120 := by
  cases chset <;> decide

/-- What the half-block rule leaves: the key, or half the block. -/
theorem halfBlock_key (d : Datinfo) :
    d.halfBlock.max_key_size = min d.max_key_size (d.block_size / 2) := by
  unfold halfBlock
  split
  · show d.block_size / 2 = _
    omega
  · omega

theorem halfBlock_record (d : Datinfo) : d.halfBlock.max_record_size = d.max_record_size := by
  unfold halfBlock
  split <;> rfl

theorem halfBlock_block (d : Datinfo) : d.halfBlock.block_size = d.block_size := by
  unfold halfBlock
  split <;> rfl

theorem capRecord_eq (d : Datinfo) :
    d.capRecord 0 = { d with max_record_size := min d.max_record_size 1000 } := by
  unfold capRecord
  split
  · rename_i h
    have : min d.max_record_size 1000 = 1000 := by omega
    rw [this]
  · rename_i h
    have : min d.max_record_size 1000 = d.max_record_size := by omega
    rw [this]

/-- The key without spanning nodes, from what the half-block rule leaves. -/
def roomKey (u k r : Int) : Int := if r - k < u then if k < 255 then u else k - u else k

/-- Without spanning nodes. -/
theorem get_nonspanning (chset : Chset) (d : Datinfo) :
    get 0 chset d =
      { block_size := d.block_size
        max_record_size := min d.max_record_size 1000
        max_key_size := roomKey (ugenstrmax chset) (min d.max_key_size (d.block_size / 2))
          (min d.max_record_size 1000) } := by
  rw [get, capRecord_eq]
  have hkey := halfBlock_key { d with max_record_size := min d.max_record_size 1000 }
  have hrecord := halfBlock_record { d with max_record_size := min d.max_record_size 1000 }
  have hblock := halfBlock_block { d with max_record_size := min d.max_record_size 1000 }
  generalize halfBlock { d with max_record_size := min d.max_record_size 1000 } = d' at *
  obtain ⟨b, r, k⟩ := d'
  obtain rfl : b = d.block_size := hblock
  obtain rfl : r = min d.max_record_size 1000 := hrecord
  obtain rfl : k = min d.max_key_size (d.block_size / 2) := hkey
  have hlevel : ∀ e : Datinfo, e.maxbtlevel 0 = e := fun e => if_neg fun h => absurd h.1 (by decide)
  rw [hlevel]
  unfold ugenstrRoom roomKey
  by_cases h : min d.max_record_size 1000 - min d.max_key_size (d.block_size / 2) < ugenstrmax chset
  · rw [if_pos ⟨rfl, h⟩, if_pos h]
  · rw [if_neg fun h' => h h'.2, if_neg h]

/-- With spanning nodes only the half-block rule and the last one count. -/
theorem get_spanning {blockspan : Nat} (h : blockspan ≠ 0) (chset : Chset) (d : Datinfo) :
    get blockspan chset d = d.halfBlock.maxbtlevel blockspan := by
  have hcap : d.capRecord blockspan = d := if_neg fun hc => h hc.1
  have hroom : ∀ e : Datinfo, e.ugenstrRoom blockspan (ugenstrmax chset) = e :=
    fun e => if_neg fun hc => h hc.1
  rw [get, hcap, hroom]

end Rules

/-- The arithmetic of `roomKey`, for a record of at least 256 and a key of at least 32. -/
theorem roomKey_fits {u k r : Int} (hu : 70 ≤ u ∧ u ≤ 120) (hr : 256 ≤ r) :
    (40 < roomKey u k r ∧ roomKey u k r ≤ k ∧ u ≤ r - roomKey u k r) ↔ 40 < k ∧ k ≤ r := by
  unfold roomKey
  split
  · split <;> omega
  · omega

theorem usable_nonspanning (chset : Chset) {d : Datinfo} (hd : Region d) :
    Usable 0 chset d (get 0 chset d) ↔ Fits 0 d := by
  have hu := ugenstrmax_bounds chset
  obtain ⟨hkey, hrecord, hblock⟩ := hd
  have hroom := roomKey_fits (k := min d.max_key_size (d.block_size / 2)) hu
    (show 256 ≤ min d.max_record_size 1000 by omega)
  rw [get_nonspanning]
  constructor
  · intro h
    have h₁ := h.key_pos
    have h₂ := h.key_le
    have h₅ := h.ugenstr_fits rfl
    simp only [key_size, imptpmaxkeysize] at h₁ h₂
    dsimp only at h₅
    -- the rule for ugenstr leaves a larger key only where half a block is a smaller one
    have hle : roomKey (ugenstrmax chset) (min d.max_key_size (d.block_size / 2))
        (min d.max_record_size 1000) ≤ min d.max_key_size (d.block_size / 2) := by
      unfold roomKey at *
      split at * <;> split at * <;> omega
    have := hroom.1 ⟨by omega, hle, h₅⟩
    refine ⟨by omega, fun _ => this.2, fun h => absurd h (by decide)⟩
  · intro h
    have h₁ := h.block
    have := hroom.2 ⟨by omega, h.key rfl⟩
    refine ⟨?_, ?_, ?_, ?_, fun _ => ?_⟩
    · simp only [key_size, imptpmaxkeysize]
      omega
    · simp only [key_size, imptpmaxkeysize]
      omega
    · simp only [record_size, headerpad, Nat.lt_irrefl, if_false]
      omega
    · simp only [record_size, headerpad, Nat.lt_irrefl, if_false]
      omega
    · exact this.2.2

/-- The last rule: the key is kept, or cut to three tenths of the block. -/
theorem maxbtlevel_key (blockspan : Nat) (d : Datinfo) :
    (d.maxbtlevel blockspan).max_key_size =
      if (blockspan = 1 ∧ d.largerecdataratio) ∧ 3 * d.block_size < 10 * d.max_key_size then
        3 * d.block_size / 10
      else d.max_key_size := by
  have hcut : d.key2block.max_key_size =
      if 3 * d.block_size < 10 * d.max_key_size then 3 * d.block_size / 10 else d.max_key_size := by
    unfold key2block
    split <;> rfl
  have hthree : d.key2block.threeBlocks.max_key_size = d.key2block.max_key_size := rfl
  unfold maxbtlevel
  by_cases h : blockspan = 1 ∧ d.largerecdataratio
  · rw [if_pos h]
    by_cases hlarge : d.key2block.largerecdataratio
    · rw [if_pos hlarge, hthree, hcut]
      simp only [h, true_and, and_self]
    · rw [if_neg hlarge, hcut]
      simp only [h, true_and, and_self]
  · rw [if_neg h, if_neg fun h' => h h'.1]

/-- The last rule: a record is at most cut to three times a block less its key. -/
theorem maxbtlevel_record (blockspan : Nat) {d : Datinfo}
    (hkey : 2 * d.max_key_size ≤ d.block_size) (hpos : 0 < d.max_key_size) :
    (d.maxbtlevel blockspan).max_record_size = d.max_record_size ∨
      d.block_size < (d.maxbtlevel blockspan).max_record_size ∧
        (d.maxbtlevel blockspan).max_record_size < d.max_record_size := by
  have hrecord : d.key2block.max_record_size = d.max_record_size := by
    unfold key2block
    split <;> rfl
  have hhalf : 0 < d.block_size - d.key2block.max_key_size ∧
      2 * d.key2block.max_key_size ≤ d.block_size ∧ d.key2block.block_size = d.block_size := by
    unfold key2block
    split
    · refine ⟨?_, ?_, rfl⟩ <;> dsimp only <;> omega
    · exact ⟨by omega, by omega, rfl⟩
  unfold maxbtlevel
  by_cases h : blockspan = 1 ∧ d.largerecdataratio
  · rw [if_pos h]
    by_cases hlarge : d.key2block.largerecdataratio
    · rw [if_pos hlarge]
      obtain ⟨hpos', htwice, hblock⟩ := hhalf
      unfold largerecdataratio at hlarge
      simp only [threeBlocks]
      omega
    · rw [if_neg hlarge]
      exact Or.inl hrecord
  · rw [if_neg h]
    exact Or.inl rfl

theorem usable_spanning {blockspan : Nat} (hspan : blockspan ≠ 0) (chset : Chset) {d : Datinfo}
    (hd : Region d) : Usable blockspan chset d (get blockspan chset d) ↔ Fits blockspan d := by
  obtain ⟨hkey, hrecord, hblock⟩ := hd
  have hk := halfBlock_key d
  have hr := halfBlock_record d
  have hb := halfBlock_block d
  have hlevel := maxbtlevel_key blockspan d.halfBlock
  have hrec := maxbtlevel_record blockspan (d := d.halfBlock) (by omega) (by omega)
  rw [get_spanning hspan]
  rw [hb, hr] at hrec
  rw [hb] at hlevel
  have hpos : 0 < blockspan := Nat.pos_of_ne_zero hspan
  constructor
  · intro h
    have h₁ := h.key_pos
    simp only [key_size, imptpmaxkeysize, hlevel] at h₁
    refine ⟨?_, fun h0 => absurd h0 hspan, fun hone hlarge hcut => ?_⟩
    · split at h₁ <;> omega
    · rw [if_pos ⟨⟨hone, hlarge⟩, hcut⟩] at h₁
      omega
  · intro h
    have h₁ := h.block
    have hsize : 40 < (d.halfBlock.maxbtlevel blockspan).max_key_size ∧
        (d.halfBlock.maxbtlevel blockspan).max_key_size ≤ d.max_key_size := by
      rw [hlevel]
      split
      · rename_i hcut
        have := h.cut hcut.1.1 hcut.1.2 hcut.2
        omega
      · omega
    refine ⟨?_, ?_, ?_, ?_, fun h0 => absurd h0 hspan⟩
    · simp only [key_size, imptpmaxkeysize]
      omega
    · simp only [key_size, imptpmaxkeysize]
      omega
    · simp only [record_size, headerpad, hpos, if_true]
      omega
    · simp only [record_size, headerpad, hpos, if_true]
      omega

/-- The sizes are usable iff the rules do not undo each other's work. -/
theorem get_usable_iff (spannode version : Nat) (chset : Chset) {d : Datinfo} (hd : Region d) :
    Usable (blockspan spannode version) chset d (get (blockspan spannode version) chset d) ↔
      Fits (blockspan spannode version) d := by
  by_cases h : blockspan spannode version = 0
  · rw [h]
    exact usable_nonspanning chset hd
  · exact usable_spanning h chset hd

theorem get_usable_iff_default :
    Usable 0 .utf8 ⟨1024, 256, 64⟩ (get 0 .utf8 ⟨1024, 256, 64⟩) ↔ Fits 0 ⟨1024, 256, 64⟩ :=
  get_usable_iff 0 70000 .utf8 ⟨by decide, by decide, by decide⟩

/-- A key larger than the record: the room for the string of ugenstr is taken off the key, and what
    is left of the record beside it is less than nothing. -/
theorem record_size_negative : ¬ (∀ (spannode version : Nat) (chset : Chset) (d : Datinfo), Region d →
    Usable (blockspan spannode version) chset d (get (blockspan spannode version) chset d)) := by
  intro h
  have := (h 0 70000 .m ⟨4096, 256, 1019⟩ ⟨by decide, by decide, by decide⟩).record_pos
  exact absurd this (by decide)

end Datinfo

end YottaTest.Imptp
