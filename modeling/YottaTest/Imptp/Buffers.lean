/-
  File:      YottaTest/Imptp/Buffers.lean
  Subject:   simpleapi_imptp.c: the buffers of the C worker and what one loop turn puts into them.

  The strings of a turn are made by `helper1` in M and received into `value`, then copied. Old
  tries of a transaction function may have stopped anywhere.

  * `Buffer`, `len_alloc` -- the buffers and their sizes;
  * `Worker`, `stored` -- what the worker reads of `^%imptp`, and what the parent puts there;
  * `impjob`, `tpfn_stage1`, `tpfn_stage3` -- the texts that are moved, in order;
  * `zlength_ugenstr` -- the strings made from an `int` are short;
  * `Room` -- the limits of a database that give small enough sizes;
  * `turn_fits_iff` -- **every turn fits iff the limits do.**
-/
import YottaTest.Imptp.Datinfo
import YottaTest.Lib.Bounded

namespace YottaTest.Imptp

open YottaTest.Lib YottaTest.M

/-! ## 1. The buffers -/

/-- The `ydb_buffer_t` variables that impjob and its transaction functions use. -/
inductive Buffer where
  | value
  | subscr (i : Fin 8)
  | ybuff_subsMAX
  | ybuff_val
  | ybuff_valALT
  | ybuff_valMAX
  | ybuff_subs
  | ybuff_I
  deriving DecidableEq, Repr

def MAXVALUELEN : Nat := 256
def BIGMAXVALUELEN : Nat := MAXVALUELEN * 6

namespace Buffer

/-- The sizes of the arrays behind the buffers. -/
def len_alloc : Buffer → Nat
  | value | subscr _ | ybuff_subsMAX | ybuff_valMAX => BIGMAXVALUELEN
  | ybuff_val | ybuff_valALT | ybuff_subs | ybuff_I => MAXVALUELEN

theorem len_alloc_bounds (b : Buffer) : MAXVALUELEN ≤ b.len_alloc ∧ b.len_alloc ≤ BIGMAXVALUELEN := by
  cases b <;> simp [len_alloc, MAXVALUELEN, BIGMAXVALUELEN]

end Buffer

abbrev Buffers (cs : Chset) := Bounded (zlength cs) Buffer.len_alloc

/-! ## 2. The worker -/

/-- What impjob reads of `^%imptp(fillid)`. -/
structure Worker where
  chset : Chset
  istp : Bool
  crash : Bool
  trigger : Bool
  keysize : Int
  recsize : Int
  span : Nat

/-- What the parent stores for a region: the two sizes of `get^datinfo`, and
    `gtm_test_spannode`. -/
def stored (spannode version : Nat) (cs : Chset) (istp crash trigger : Bool) (d : Datinfo) : Worker where
  chset := cs
  istp := istp
  crash := crash
  trigger := trigger
  keysize := (Datinfo.get (blockspan spannode version) cs d).key_size
  recsize := (Datinfo.get (blockspan spannode version) cs d).record_size (blockspan spannode version)
  span := spannode

namespace Worker

/-! `helper1^imptpxc`, where istp is 0 or 1. -/

section Helper1

variable (w : Worker)

def subs (I : Nat) : MStr := ugenstr w.chset I

def val (loop : Nat) : MStr := ugenstr w.chset loop

/-- `$j(s,size-($$^dzlenproxy(s)-$length(s)))`. -/
def padTo (s : MStr) (size : Int) : MStr := justify s (size - (zlength w.chset s - s.length))

def valMAX (loop : Nat) : MStr := w.padTo (w.val loop) w.recsize

def valALT (loop : Nat) : MStr := if w.span > 1 then w.valMAX loop else w.val loop

def subsMAX (I : Nat) : MStr := w.padTo (w.subs I) w.keysize

end Helper1

/-- An `int` that is not negative. -/
abbrev CInt := { n : Nat // n < 2 ^ 31 }

/-- A turn of the loop. A try of a transaction function that is restarted has done `done` of its
    transfers; `trestart` is `$TRESTART`. -/
structure Turn where
  fillid : CInt
  jobno : CInt
  I : CInt
  loop : CInt
  I_pos : 0 < I.val
  loop_pos : 0 < loop.val
  stage1 : List (CInt × Nat)
  trestart : CInt
  stage3 : List Nat

section Transfers

variable (w : Worker) (t : Turn)

abbrev Transfers := List (BufferOp Buffer MStr)

/-- `ydb_get_s(..., &value)` and `YDB_COPY_BUFF_TO_BUFF(&value, ...)`. -/
def relay (s : MStr) (b : Buffer) : Transfers := [BufferOp.receive .value s, .copy .value b]

/-- `sprintf(....buf_addr, "%d", n)`. -/
def sprintf (b : Buffer) (n : CInt) : BufferOp Buffer MStr := .receive b (natStr n.val)

/-- `tpfn_stage1`. -/
def tpfn_stage1 (trestart : CInt) : Transfers :=
  [sprintf (.subscr 0) t.fillid, .copy .ybuff_subsMAX (.subscr 1)] ++
    (if w.istp && w.crash then
      sprintf .value trestart ::
        if trestart.val ≠ 0 then [BufferOp.copy Buffer.value (Buffer.subscr 2), sprintf .value t.jobno] else []
    else []) ++
    [BufferOp.copy Buffer.ybuff_subs (Buffer.subscr 1), .copy .ybuff_I (.subscr 1)] ++
    (if w.trigger then [] else [BufferOp.copy Buffer.ybuff_I (Buffer.subscr 2), .copy .ybuff_subs (.subscr 3)]) ++
    if w.istp then [sprintf (.subscr 1) t.jobno, sprintf .value t.loop] else []

/-- `tpfn_stage3`. With triggers ^fntp has been set by the trigger of ^entp. -/
def tpfn_stage3 : Transfers :=
  [BufferOp.copy Buffer.ybuff_subs (Buffer.subscr 1)] ++
    (if w.trigger then [BufferOp.receive Buffer.value (w.val t.loop ++ lit "suffix")] else []) ++
    [BufferOp.copy Buffer.ybuff_subsMAX (Buffer.subscr 1)]

/-- The start of a loop turn: I and loop for `helper1`, and what it has made of them. -/
def fill : Transfers :=
  [sprintf .value t.I, sprintf .value t.loop] ++
    relay (w.subsMAX t.I) .ybuff_subsMAX ++
    relay (w.val t.loop) .ybuff_val ++
    relay (w.valALT t.loop) .ybuff_valALT ++
    relay (w.valMAX t.loop) .ybuff_valMAX ++
    relay (w.subs t.I) .ybuff_subs ++
    relay (natStr t.I.val) .ybuff_I

/-- The stages that are done in C. -/
def stages : Transfers :=
  (t.stage1.flatMap fun r => (w.tpfn_stage1 t r.1).take r.2) ++ w.tpfn_stage1 t t.trestart ++
    [BufferOp.copy Buffer.ybuff_subs (Buffer.subscr 1)] ++
    (t.stage3.flatMap fun done => (w.tpfn_stage3 t).take done) ++ w.tpfn_stage3 t

/-- A turn of the loop of impjob. -/
def impjob : Transfers := w.fill t ++ w.stages t

end Transfers

end Worker

/-! ## 3. How long the strings are -/

section Lengths

variable (cs : Chset)

/-- The digits of an `int`, in any radix. -/
theorem length_digits_int {radix n : Nat} (hr : 2 ≤ radix) (hn : n < 2 ^ 31) :
    (digits radix n).length ≤ 31 :=
  length_digits hr (Nat.lt_of_lt_of_le hn (Nat.pow_le_pow_left hr 31))

theorem length_alphabet (first n : Nat) : (alphabet first n).length = n := by
  rw [alphabet, List.length_map, List.length_range]

theorem length_codes {radix n : Nat} (hr : 2 ≤ radix) (offset : Nat) (hn : n < 2 ^ 31) :
    (codes radix offset n).length ≤ 31 := by
  rw [codes, List.length_map]
  exact length_digits_int hr hn

/-- Letters and digits are bytes. -/
theorem zlength_template (first last : Nat) :
    zlength cs (extract template first last) ≤ template.length := by
  have hone : ∀ c ∈ extract template first last, c.size cs = 1 := by
    intro c hc
    have hmem : c ∈ template := List.mem_of_mem_take (List.mem_of_mem_drop hc)
    cases cs with
    | m => rfl
    | utf8 => exact of_decide_eq_true (List.all_eq_true.1
        (show (template.all fun c => c.size .utf8 = 1) = true by decide) c hmem)
  have hlen : (extract template first last).length ≤ template.length := by
    unfold extract
    rw [List.length_drop, List.length_take]
    omega
  have hsum : zlength cs (extract template first last) = (extract template first last).length := by
    rw [zlength, List.map_congr_left hone, List.map_const', List.sum_replicate_nat, Nat.mul_one]
  omega

theorem length_genstr {int : Nat} (h : int < 2 ^ 31) : (genstr int).length ≤ 58 := by
  have hnum : ∀ neg scale, scale ≤ 2 → (numStr neg (314 * int) scale).length ≤ 58 := by
    intro neg scale hscale
    have := length_numStr neg scale (show 0 < 12 by decide) (show 314 * int < 10 ^ 12 by omega)
    omega
  have hint : ∀ neg, (numStr neg int 0).length ≤ 58 := by
    intro neg
    have := length_numStr neg 0 (show 0 < 10 by decide) (show int < 10 ^ 10 by omega)
    omega
  have hcodes : ∀ radix offset, 2 ≤ radix → (codes radix offset int).length ≤ 31 :=
    fun radix offset hr => length_codes hr offset h
  unfold genstr
  split
  · exact hnum false 2 (Nat.le_refl 2)
  · exact hnum true 2 (Nat.le_refl 2)
  · exact hint false
  · exact hint true
  all_goals
    simp only [List.length_append, List.length_cons, length_alphabet]
    have h256 := hcodes 256 0 (by decide)
    have h65 := hcodes 26 65 (by decide)
    have h97 := hcodes 26 97 (by decide)
    omega

/-- **The strings of an `int` are short**, so that six more characters still fit. -/
theorem zlength_ugenstr {int : Nat} (h : int < 2 ^ 31) :
    zlength cs (ugenstr cs int) ≤ MAXVALUELEN := by
  have hfour : ∀ s : MStr, s.length ≤ 64 → zlength cs s ≤ MAXVALUELEN := by
    intro s hs
    have := zlength_le cs s
    unfold MAXVALUELEN
    omega
  cases cs with
  | m => exact hfour _ (Nat.le_trans (length_genstr h) (by decide))
  | utf8 =>
      have hnum : ∀ neg, (numStr neg int 0).length ≤ 64 := by
        intro neg
        have := length_numStr neg 0 (show 0 < 10 by decide) (show int < 10 ^ 10 by omega)
        omega
      have hdec : ∀ neg, (numStr neg (31415692 * int) 7).length ≤ 64 := by
        intro neg
        have := length_numStr neg 7 (show 0 < 17 by decide) (show 31415692 * int < 10 ^ 17 by omega)
        omega
      unfold ugenstr
      dsimp only
      split
      · exact hfour _ (hnum false)
      · exact hfour _ (hnum true)
      · exact hfour _ (hdec false)
      · exact hfour _ (hdec true)
      · have hpart : zlength .utf8 (extract template (int % 13) (int % 61)) ≤ 62 :=
          zlength_template _ _ _
        have hnat := zlength_le .utf8 (natStr int)
        have hlen := length_natStr (show 0 < 10 by decide) (show int < 10 ^ 10 by omega)
        have hillegal : zlength .utf8 illegalBytes = 6 := by decide
        rw [zlength_append, zlength_append, hillegal]
        unfold MAXVALUELEN
        omega
      · refine hfour _ ?_
        rw [List.length_reverse]
        exact Nat.le_trans (length_codes (by decide) _ h) (by decide)

theorem zlength_natStr {n : Nat} (h : n < 2 ^ 31) : zlength cs (natStr n) ≤ 40 := by
  have hlen := length_natStr (show 0 < 10 by decide) (show n < 10 ^ 10 by omega)
  have := zlength_le cs (natStr n)
  omega

/-- Padding gives the size asked for, in bytes. -/
theorem zlength_padTo (w : Worker) (s : MStr) (size : Int) :
    (zlength w.chset (w.padTo s size) : Int) = max (zlength w.chset s : Int) size := by
  have hle := length_le_zlength w.chset s
  rw [Worker.padTo, justify, zlength_append, zlength_replicate_blank]
  omega

end Lengths

/-! ## 4. The limits of a database -/

/-- A block and a key have a size. -/
structure Limits (d : Datinfo) : Prop where
  block : 0 < d.block_size
  key : 0 < d.max_key_size

/-- The key, at most half a block. -/
def halfKey (d : Datinfo) : Int := min d.max_key_size (d.block_size / 2)

/-- The limits of a database whose sizes fit the buffers. -/
structure Room (spannode version : Nat) (cs : Chset) (d : Datinfo) : Prop where
  nonspanning : blockspan spannode version = 0 → halfKey d ≤ 1576 + ugenstrmax cs ∧
    (1 < spannode → min d.max_record_size 1000 -
      Datinfo.roomKey (ugenstrmax cs) (halfKey d) (min d.max_record_size 1000) ≤ 260)
  spanning : blockspan spannode version = 1 →
    (1576 < halfKey d → 3 * (d.block_size - halfKey d) < d.max_record_size ∧
      3 * d.block_size / 10 ≤ 1576) ∧
    min d.max_record_size (3 * (d.block_size - min d.max_key_size (3 * d.block_size / 10))) ≤ 1540
  wider : 1 < blockspan spannode version → halfKey d ≤ 1576 ∧ d.max_record_size ≤ 260


section Sizes

variable {d : Datinfo}

theorem halfKey_lt (hd : Limits d) : halfKey d < d.block_size := by
  have := hd.block
  unfold halfKey
  omega

/-- The ratio test, where half a block is kept for data. -/
theorem largerecdataratio_halfBlock (hd : Limits d) :
    d.halfBlock.largerecdataratio ↔ 3 * (d.block_size - halfKey d) < d.max_record_size := by
  have hlt := halfKey_lt hd
  have hkey : d.halfBlock.max_key_size = halfKey d := Datinfo.halfBlock_key d
  have hrec := Datinfo.halfBlock_record d
  have hb := Datinfo.halfBlock_block d
  unfold Datinfo.largerecdataratio
  omega

variable (spannode version : Nat) (cs : Chset)

/-- With spanning nodes the key is half a block at most, or three tenths of it. -/
theorem key_spanning {span : Nat} (hspan : span ≠ 0) (hd : Limits d) :
    (Datinfo.get span cs d).key_size =
      (if span = 1 ∧ 3 * (d.block_size - halfKey d) < d.max_record_size ∧
        3 * d.block_size < 10 * halfKey d then 3 * d.block_size / 10 else halfKey d) - 40 := by
  have hkey : d.halfBlock.max_key_size = halfKey d := Datinfo.halfBlock_key d
  rw [Datinfo.get_spanning hspan, Datinfo.key_size, Datinfo.maxbtlevel_key,
    Datinfo.halfBlock_block, hkey, imptpmaxkeysize]
  congr 1
  refine if_congr ?_ rfl rfl
  rw [largerecdataratio_halfBlock hd, and_assoc]

/-- The record is three times what a block has beside such a key, at most. -/
theorem record_spanning_one (hd : Limits d) :
    (Datinfo.get 1 cs d).record_size 1 =
      min d.max_record_size (3 * (d.block_size - min d.max_key_size (3 * d.block_size / 10))) - 4 := by
  have hlt := halfKey_lt hd
  have hhalf : halfKey d = min d.max_key_size (d.block_size / 2) := rfl
  have hkey : d.halfBlock.max_key_size = halfKey d := Datinfo.halfBlock_key d
  have hrec := Datinfo.halfBlock_record d
  have hb := Datinfo.halfBlock_block d
  have hblock := hd.block
  have hlarge := largerecdataratio_halfBlock hd
  have hcutkey : d.halfBlock.key2block.max_key_size =
      if 3 * d.block_size < 10 * halfKey d then 3 * d.block_size / 10 else halfKey d := by
    unfold Datinfo.key2block
    rw [hkey, hb]
    split
    · rfl
    · exact hkey
  have hcutrec : d.halfBlock.key2block.max_record_size = d.max_record_size := by
    unfold Datinfo.key2block
    split
    · exact hrec
    · exact hrec
  have hcutblock : d.halfBlock.key2block.block_size = d.block_size := by
    unfold Datinfo.key2block
    split
    · exact hb
    · exact hb
  have hthree : d.halfBlock.key2block.threeBlocks.max_record_size =
      3 * (d.block_size - d.halfBlock.key2block.max_key_size) := by
    rw [← hcutblock]
    rfl
  have hcutlarge : d.halfBlock.key2block.largerecdataratio ↔
      3 * (d.block_size - d.halfBlock.key2block.max_key_size) < d.max_record_size := by
    unfold Datinfo.largerecdataratio
    rw [hcutrec, hcutblock]
    split at hcutkey <;> omega
  rw [Datinfo.get_spanning (by decide), Datinfo.record_size, if_pos (by decide), headerpad]
  unfold Datinfo.maxbtlevel
  by_cases hl : d.halfBlock.largerecdataratio
  · rw [if_pos ⟨rfl, hl⟩]
    by_cases hc : d.halfBlock.key2block.largerecdataratio
    · rw [if_pos hc, hthree]
      have := hcutlarge.1 hc
      split at hcutkey <;> omega
    · rw [if_neg hc, hcutrec]
      have := mt hcutlarge.2 hc
      split at hcutkey <;> omega
  · rw [if_neg fun h => hl h.2, hrec]
    have := mt hlarge.2 hl
    omega

/-- With more than one only half a block is taken for the key. -/
theorem record_spanning_more {span : Nat} (hspan : 1 < span) :
    (Datinfo.get span cs d).record_size span = d.max_record_size - 4 := by
  rw [Datinfo.get_spanning (by omega), Datinfo.record_size, if_pos (by omega), headerpad,
    Datinfo.maxbtlevel, if_neg (by omega), Datinfo.halfBlock_record]

/-- The key that is stored. -/
theorem key_fits_iff (hd : Limits d) :
    (Datinfo.get (blockspan spannode version) cs d).key_size ≤ 1536 ↔
      (blockspan spannode version = 0 → halfKey d ≤ 1576 + ugenstrmax cs) ∧
      (blockspan spannode version = 1 → 1576 < halfKey d →
        3 * (d.block_size - halfKey d) < d.max_record_size ∧ 3 * d.block_size / 10 ≤ 1576) ∧
      (1 < blockspan spannode version → halfKey d ≤ 1576) := by
  have hu := Datinfo.ugenstrmax_bounds cs
  have hhalf : halfKey d = min d.max_key_size (d.block_size / 2) := rfl
  generalize blockspan spannode version = span
  rcases Nat.eq_zero_or_pos span with hzero | hpos
  · rw [hzero, Datinfo.get_nonspanning]
    simp only [Datinfo.key_size, imptpmaxkeysize, Datinfo.roomKey, ← hhalf]
    constructor
    · intro h
      refine ⟨fun _ => ?_, fun h => absurd h (by decide), fun h => absurd h (by decide)⟩
      split at h
      · split at h <;> omega
      · omega
    · intro h
      have := h.1 trivial
      split
      · split <;> omega
      · omega
  · rw [key_spanning cs (Nat.pos_iff_ne_zero.1 hpos) hd]
    constructor
    · intro h
      refine ⟨fun h0 => absurd h0 (by omega), fun hone hlong => ?_, fun hwide => ?_⟩
      · split at h <;> omega
      · rw [if_neg (by omega)] at h
        omega
    · intro h
      obtain ⟨-, hone, hwide⟩ := h
      rcases Nat.lt_or_ge 1 span with hspan | hspan
      · rw [if_neg (by omega)]
        have := hwide hspan
        omega
      · have hone := hone (by omega)
        by_cases hlong : 1576 < halfKey d
        · have := hone hlong
          rw [if_pos (by omega)]
          omega
        · split <;> omega

/-- The record that is stored, for buffers of 1536 bytes and, where `valALT` is padded, of 256. -/
theorem record_fits_iff (hd : Limits d) :
    let recsize := (Datinfo.get (blockspan spannode version) cs d).record_size (blockspan spannode version)
    recsize ≤ 1536 ∧ (1 < spannode → recsize ≤ 256) ↔
      (blockspan spannode version = 0 → 1 < spannode → min d.max_record_size 1000 -
        Datinfo.roomKey (ugenstrmax cs) (halfKey d) (min d.max_record_size 1000) ≤ 260) ∧
      (blockspan spannode version = 1 → min d.max_record_size
        (3 * (d.block_size - min d.max_key_size (3 * d.block_size / 10))) ≤ 1540) ∧
      (1 < blockspan spannode version → d.max_record_size ≤ 260) := by
  have hu := Datinfo.ugenstrmax_bounds cs
  have hkey := hd.key
  have hblock := hd.block
  have hhalf : halfKey d = min d.max_key_size (d.block_size / 2) := rfl
  have hspan : blockspan spannode version = 0 ∨ blockspan spannode version = spannode := by
    unfold blockspan
    split
    · exact Or.inl rfl
    · exact Or.inr rfl
  intro recsize
  have hrecsize : recsize = (Datinfo.get (blockspan spannode version) cs d).record_size
    (blockspan spannode version) := rfl
  generalize blockspan spannode version = span at *
  rcases Nat.lt_trichotomy span 1 with hzero | hone | hmore
  · obtain rfl : span = 0 := by omega
    have hroom : 0 ≤ Datinfo.roomKey (ugenstrmax cs) (halfKey d) (min d.max_record_size 1000) := by
      unfold Datinfo.roomKey
      split
      · split <;> omega
      · omega
    rw [Datinfo.get_nonspanning, Datinfo.record_size, if_neg (by decide), headerpad, ← hhalf]
      at hrecsize
    dsimp only at hrecsize
    omega
  · obtain rfl := hone
    rw [record_spanning_one cs hd] at hrecsize
    omega
  · rw [record_spanning_more cs hmore] at hrecsize
    omega

end Sizes

/-! ## 5. A turn -/

namespace Worker

variable {w : Worker} (t : Turn)

/-- What the strings of a turn need. -/
structure Fits (w : Worker) (t : Turn) : Prop where
  subsMAX : zlength w.chset (w.subsMAX t.I) ≤ BIGMAXVALUELEN
  valALT : zlength w.chset (w.valALT t.loop) ≤ MAXVALUELEN
  valMAX : zlength w.chset (w.valMAX t.loop) ≤ BIGMAXVALUELEN

/-- What is received is short, and what is copied comes from a buffer no larger. -/
theorem safe_sprintf (b : Buffer) (n : CInt) :
    (sprintf b n).Safe (zlength w.chset) Buffer.len_alloc := by
  have hlen := zlength_natStr w.chset n.property
  show zlength w.chset (natStr n.val) ≤ b.len_alloc
  have hroom := b.len_alloc_bounds.1
  unfold MAXVALUELEN at hroom
  omega

theorem safe_stage1 (trestart : CInt) : ∀ op ∈ w.tpfn_stage1 t trestart,
    op.Safe (zlength w.chset) Buffer.len_alloc := by
  intro op hop
  unfold tpfn_stage1 at hop
  simp only [List.mem_append, List.mem_cons, List.not_mem_nil, or_false] at hop
  have hcopy : ∀ src i, (BufferOp.copy src (.subscr i)).Safe (zlength w.chset) Buffer.len_alloc :=
    fun src i => src.len_alloc_bounds.2
  rcases hop with (((hop | hop) | hop) | hop) | hop
  · rcases hop with rfl | rfl
    · exact safe_sprintf _ _
    · exact hcopy _ _
  · split at hop
    · rcases List.mem_cons.1 hop with rfl | hop
      · exact safe_sprintf _ _
      · split at hop
        · rcases List.mem_cons.1 hop with rfl | hop
          · exact hcopy _ _
          · obtain rfl := List.mem_singleton.1 hop
            exact safe_sprintf _ _
        · cases hop
    · cases hop
  · rcases hop with rfl | rfl <;> exact hcopy _ _
  · split at hop
    · cases hop
    · rcases List.mem_cons.1 hop with rfl | hop
      · exact hcopy _ _
      · obtain rfl := List.mem_singleton.1 hop
        exact hcopy _ _
  · split at hop
    · rcases List.mem_cons.1 hop with rfl | hop
      · exact safe_sprintf _ _
      · obtain rfl := List.mem_singleton.1 hop
        exact safe_sprintf _ _
    · cases hop

theorem safe_stage3 : ∀ op ∈ w.tpfn_stage3 t, op.Safe (zlength w.chset) Buffer.len_alloc := by
  intro op hop
  unfold tpfn_stage3 at hop
  simp only [List.mem_append, List.mem_singleton] at hop
  rcases hop with (rfl | hop) | rfl
  · exact Buffer.len_alloc_bounds _ |>.2
  · split at hop
    · obtain rfl := List.mem_singleton.1 hop
      have hval : zlength w.chset (w.val t.loop.val) ≤ MAXVALUELEN := zlength_ugenstr _ t.loop.property
      have hsuffix := zlength_le w.chset (lit "suffix")
      have hsix : (lit "suffix").length = 6 := by decide
      show zlength w.chset (w.val t.loop.val ++ lit "suffix") ≤ BIGMAXVALUELEN
      rw [zlength_append]
      unfold MAXVALUELEN at hval
      unfold BIGMAXVALUELEN MAXVALUELEN
      omega
    · cases hop
  · show BIGMAXVALUELEN ≤ BIGMAXVALUELEN
    exact Nat.le_refl _

theorem safe_stages : ∀ op ∈ w.stages t, op.Safe (zlength w.chset) Buffer.len_alloc := by
  intro op hop
  unfold stages at hop
  simp only [List.mem_append, List.mem_flatMap, List.mem_singleton] at hop
  rcases hop with (((⟨r, -, hop⟩ | hop) | rfl) | ⟨r, -, hop⟩) | hop
  · exact safe_stage1 t _ op (List.mem_of_mem_take hop)
  · exact safe_stage1 t _ op hop
  · exact Buffer.len_alloc_bounds _ |>.2
  · exact safe_stage3 t op (List.mem_of_mem_take hop)
  · exact safe_stage3 t op hop

/-- The strings that do not depend on the limits. -/
theorem zlength_val : zlength w.chset (w.val t.loop.val) ≤ MAXVALUELEN := zlength_ugenstr _ t.loop.property

theorem zlength_subs : zlength w.chset (w.subs t.I.val) ≤ MAXVALUELEN := zlength_ugenstr _ t.I.property

theorem run_fill (h : w.Fits t) (m : Buffers w.chset) : ∃ m', BufferOp.run (w.fill t) m = some m' := by
  have hI : zlength w.chset (natStr t.I.val) ≤ MAXVALUELEN :=
    Nat.le_trans (zlength_natStr _ t.I.property) (by decide)
  have hbig : MAXVALUELEN ≤ BIGMAXVALUELEN := by decide
  have hval := zlength_val (w := w) t
  have hsubs := zlength_subs (w := w) t
  have hsafe : ∀ op ∈ [sprintf .value t.I, sprintf .value t.loop],
      op.Safe (zlength w.chset) Buffer.len_alloc := by
    intro op hop
    rcases List.mem_cons.1 hop with rfl | hop
    · exact safe_sprintf _ _
    · obtain rfl := List.mem_singleton.1 hop
      exact safe_sprintf _ _
  have hrelay : ∀ {s : MStr} {b : Buffer}, zlength w.chset s ≤ b.len_alloc → ∀ m : Buffers w.chset,
      ∃ m', BufferOp.run (relay s b) m = some m' := by
    intro s b hb m
    have hvalue : zlength w.chset s ≤ Buffer.value.len_alloc := Nat.le_trans hb b.len_alloc_bounds.2
    exact BufferOp.run_relay hvalue hb m
  obtain ⟨m₀, h₀⟩ := BufferOp.run_of_safe hsafe m
  obtain ⟨m₁, h₁⟩ := hrelay (b := .ybuff_subsMAX) h.subsMAX m₀
  obtain ⟨m₂, h₂⟩ := hrelay (b := .ybuff_val) hval m₁
  obtain ⟨m₃, h₃⟩ := hrelay (b := .ybuff_valALT) h.valALT m₂
  obtain ⟨m₄, h₄⟩ := hrelay (b := .ybuff_valMAX) h.valMAX m₃
  obtain ⟨m₅, h₅⟩ := hrelay (b := .ybuff_subs) hsubs m₄
  obtain ⟨m₆, h₆⟩ := hrelay (b := .ybuff_I) hI m₅
  refine ⟨m₆, ?_⟩
  unfold fill
  simp only [BufferOp.run_append, h₀, h₁, h₂, h₃, h₄, h₅, h₆, Option.bind_some]

/-- A turn does not fail exactly if its strings fit, whatever the buffers held before. -/
theorem run_impjob_iff (m : Buffers w.chset) :
    (BufferOp.run (w.impjob t) m).isSome ↔ w.Fits t := by
  rw [Option.isSome_iff_exists]
  constructor
  · intro h
    obtain ⟨m', hm'⟩ := h
    obtain ⟨m₁, hfill, -⟩ := BufferOp.run_of_append hm'
    unfold fill relay at hfill
    simp only [List.cons_append, List.nil_append] at hfill
    let turn : Transfers := [sprintf .value t.I, sprintf .value t.loop]
    let first := turn ++ relay (w.subsMAX t.I) .ybuff_subsMAX ++ relay (w.val t.loop) .ybuff_val
    let second := first ++ relay (w.valALT t.loop) .ybuff_valALT
    exact
      { subsMAX := BufferOp.size_of_relay turn _ hfill
        valALT := BufferOp.size_of_relay first _ hfill
        valMAX := BufferOp.size_of_relay second _ hfill }
  · intro h
    obtain ⟨m₁, h₁⟩ := run_fill t h m
    obtain ⟨m₂, h₂⟩ := BufferOp.run_of_safe (safe_stages (w := w) t) m₁
    exact ⟨m₂, by rw [impjob, BufferOp.run_append, h₁, Option.bind_some, h₂]⟩

/-- The strings of all turns fit if the sizes do. -/
theorem fits_of_sizes (hkey : w.keysize ≤ 1536) (hrec : w.recsize ≤ 1536)
    (hspan : 1 < w.span → w.recsize ≤ 256) : w.Fits t := by
  have hval := zlength_val (w := w) t
  have hsubs := zlength_subs (w := w) t
  have hkeypad := zlength_padTo w (w.subs t.I.val) w.keysize
  have hrecpad := zlength_padTo w (w.val t.loop.val) w.recsize
  unfold MAXVALUELEN at hval hsubs
  refine ⟨?_, ?_, ?_⟩
  · unfold subsMAX BIGMAXVALUELEN MAXVALUELEN
    omega
  · unfold valALT valMAX MAXVALUELEN
    split <;> omega
  · unfold valMAX BIGMAXVALUELEN MAXVALUELEN
    omega

theorem sizes_of_fits (h : w.Fits t) :
    w.keysize ≤ 1536 ∧ w.recsize ≤ 1536 ∧ (1 < w.span → w.recsize ≤ 256) := by
  obtain ⟨hkey, halt, hrec⟩ := h
  have hkeypad := zlength_padTo w (w.subs t.I.val) w.keysize
  have hrecpad := zlength_padTo w (w.val t.loop.val) w.recsize
  unfold subsMAX BIGMAXVALUELEN MAXVALUELEN at hkey
  unfold valMAX BIGMAXVALUELEN MAXVALUELEN at hrec
  unfold valALT valMAX MAXVALUELEN at halt
  refine ⟨by omega, by omega, fun hspan => ?_⟩
  rw [if_pos hspan] at halt
  omega

/-- The first turn of a run. -/
def firstTurn : Turn where
  fillid := ⟨0, by decide⟩
  jobno := ⟨1, by decide⟩
  I := ⟨1, by decide⟩
  loop := ⟨1, by decide⟩
  I_pos := by decide
  loop_pos := by decide
  stage1 := []
  trestart := ⟨0, by decide⟩
  stage3 := []

/-- Buffers as they are at the start of the program. -/
def empty (cs : Chset) : Buffers cs where
  get := fun _ => []
  fits := fun _ => Nat.zero_le _

end Worker

/-- The sizes of a run that gets through one turn. -/
theorem sizes_of_turn {spannode version : Nat} {cs : Chset} {istp crash trigger : Bool} {d : Datinfo}
    {t : Worker.Turn} {m : Buffers cs}
    (h : (BufferOp.run ((stored spannode version cs istp crash trigger d).impjob t) m).isSome) :
    (Datinfo.get (blockspan spannode version) cs d).key_size ≤ 1536 ∧
      (Datinfo.get (blockspan spannode version) cs d).record_size (blockspan spannode version) ≤ 1536 ∧
      (1 < spannode →
        (Datinfo.get (blockspan spannode version) cs d).record_size (blockspan spannode version) ≤ 256) := by
  let w := stored spannode version cs istp crash trigger d
  have hfits : w.Fits t := (Worker.run_impjob_iff t m).1 h
  exact Worker.sizes_of_fits t hfits

/-- **Every turn fits its buffers iff the limits of the database do.** -/
theorem turn_fits_iff (spannode version : Nat) (cs : Chset) (istp crash trigger : Bool) {d : Datinfo}
    (hd : Limits d) :
    (∀ (t : Worker.Turn) (m : Buffers cs),
      (BufferOp.run ((stored spannode version cs istp crash trigger d).impjob t) m).isSome) ↔
      Room spannode version cs d := by
  have hkey := key_fits_iff spannode version cs hd
  have hrec := record_fits_iff spannode version cs hd
  let w := stored spannode version cs istp crash trigger d
  constructor
  · intro h
    obtain ⟨hk, hr, hs⟩ := sizes_of_turn (h Worker.firstTurn (Worker.empty cs))
    have hkey := hkey.1 hk
    have hrec := hrec.1 ⟨hr, hs⟩
    exact
      { nonspanning := fun h0 => ⟨hkey.1 h0, hrec.1 h0⟩
        spanning := fun h1 => ⟨hkey.2.1 h1, hrec.2.1 h1⟩
        wider := fun h2 => ⟨hkey.2.2 h2, hrec.2.2 h2⟩ }
  · intro hroom t m
    have hk := hkey.2 ⟨fun h0 => (hroom.nonspanning h0).1, fun h1 => (hroom.spanning h1).1,
      fun h2 => (hroom.wider h2).1⟩
    have hr := hrec.2 ⟨fun h0 => (hroom.nonspanning h0).2, fun h1 => (hroom.spanning h1).2,
      fun h2 => (hroom.wider h2).2⟩
    have hfits : w.Fits t := Worker.fits_of_sizes t hk hr.1 hr.2
    exact (Worker.run_impjob_iff t m).2 hfits

/-- One loop turn of a small database. -/
theorem turn_fits_iff_small :
    (∀ (t : Worker.Turn) (m : Buffers .m),
      (BufferOp.run ((stored 0 63000 .m true false false ⟨4096, 512, 255⟩).impjob t) m).isSome) ↔
      Room 0 63000 .m ⟨4096, 512, 255⟩ :=
  turn_fits_iff 0 63000 .m true false false ⟨by decide, by decide⟩

/-- Blocks of 4096 bytes and spanning nodes make records of 11519 bytes. -/
theorem record_overflows : ¬ ∀ (spannode version : Nat) (cs : Chset) (istp crash trigger : Bool)
    (d : Datinfo), Limits d → ∀ (t : Worker.Turn) (m : Buffers cs),
      (BufferOp.run ((stored spannode version cs istp crash trigger d).impjob t) m).isSome := by
  intro h
  have hrec := (sizes_of_turn (h 1 63000 .m true false false ⟨4096, 1048576, 255⟩
    ⟨by decide, by decide⟩ Worker.firstTurn (Worker.empty .m))).2.1
  exact absurd hrec (by decide)

end YottaTest.Imptp
