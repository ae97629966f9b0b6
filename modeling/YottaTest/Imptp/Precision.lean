/-
  File:      YottaTest/Imptp/Precision.lean
  Subject:   ugenstr.m and genstr.m in all their modes, with M's eighteen digits.

  A product has at most eighteen significant digits; from some size on `3.14*int` is therefore not
  what it says. Gen.lean has the strings imptp uses, for numbers below that. The indices are numbers
  of M themselves, with eighteen significant digits at most.

  * `sig18` -- a number in eighteen digits;
  * `genstrIn`, `ugenstrIn` -- the routines, with the type and the way a byte is made;
  * `Whole` -- that the product a number needs has eighteen digits at most;
  * `ugenstrIn_inj` -- then the strings are as in Gen.lean, and one to one;
  * `ugenstrIn_padded` -- **and stay so when they are padded, to any sizes.**
-/
import YottaTest.Imptp.Gen

namespace YottaTest.Imptp

open YottaTest.Lib YottaTest.M

/-! ## 1. The routines -/

/-- The first eighteen significant digits. -/
def sig18 (m : Nat) : Nat :=
  let more := (digits 10 m).length - 18
  m / 10 ^ more * 10 ^ more

/-- What genstr makes of a code: `$ZCH(code)`, a byte in UTF-8 mode, or `$C(code)` in old versions. -/
def makeChar (cs : Chset) (wide : Bool) (code : Nat) : MChar :=
  if cs = .utf8 ∧ wide = false ∧ 128 ≤ code then .byte code else .chr code

/-- `genstr(int)`. -/
def genstrIn (cs : Chset) (wide : Bool) (int : Nat) : MStr :=
  let chars (radix offset : Nat) := (digits radix int).map fun d => makeChar cs wide (offset + d)
  match int % 8 with
  | 0 => numStr false (sig18 (314 * int)) 2
  | 1 => numStr true (sig18 (314 * int)) 2
  | 2 => numStr false int 0
  | 3 => numStr true int 0
  | 4 => alphabet 0 11 ++ .chr 0 :: chars 256 0
  | 5 => alphabet 65 26 ++ chars 26 65
  | 6 => alphabet 97 26 ++ chars 26 97
  | _ => .chr 37 :: chars 26 65

/-- `$CHAR(127,128,129,130,254,255)`. -/
def legalChars : MStr := [.chr 127, .chr 128, .chr 129, .chr 130, .chr 254, .chr 255]

/-- `ugenstr(int,type)`; `type` is 0 where it is not given, and 2 outside UTF-8 mode. `int` is a number
    of M, and is written as it is. -/
def ugenstrIn (cs : Chset) (wide : Bool) (type int : Nat) : MStr :=
  if cs ≠ .utf8 ∨ type = 2 then genstrIn cs wide int
  else
    match int % 13 with
    | 0 => numStr false int 0
    | 1 => numStr true int 0
    | 2 => numStr false (sig18 (31415692 * int)) 7
    | 3 => numStr true (sig18 (31415692 * int)) 7
    | 4 => extract template (int % 13) (int % 61) ++ (if type = 0 then illegalBytes else legalChars) ++
        natStr int
    | r => (codes 10 (offsetOf r) int).reverse

/-- The product that a number needs has at most eighteen digits. -/
def Whole (cs : Chset) (type int : Nat) : Prop :=
  if cs ≠ .utf8 ∨ type = 2 then int % 8 ≤ 1 → sig18 (314 * int) = 314 * int
  else int % 13 = 2 ∨ int % 13 = 3 → sig18 (31415692 * int) = 31415692 * int

/-! ## 2. Bytes and characters -/

/-- A byte read as the character of its code. -/
def asChar : MChar → MChar
  | .byte b => .chr b
  | .chr c => .chr c

theorem asChar_makeChar (cs : Chset) (wide : Bool) (code : Nat) :
    asChar (makeChar cs wide code) = .chr code := by
  unfold makeChar
  split <;> rfl

/-- A text of characters alone. -/
def Chars (s : MStr) : Prop := ∀ c ∈ s, ∃ code, c = .chr code

theorem map_asChar {s : MStr} (h : Chars s) : s.map asChar = s := by
  conv_rhs => rw [← List.map_id s]
  refine List.map_congr_left fun c hc => ?_
  obtain ⟨code, rfl⟩ := h c hc
  rfl

theorem chars_map {α : Type} (f : α → Nat) (l : List α) : Chars (l.map fun a => .chr (f a)) := by
  intro c hc
  obtain ⟨a, -, rfl⟩ := List.mem_map.1 hc
  exact ⟨f a, rfl⟩

theorem Chars.append {s t : MStr} (hs : Chars s) (ht : Chars t) : Chars (s ++ t) :=
  fun c hc => (List.mem_append.1 hc).elim (hs c) (ht c)

theorem Chars.cons {code : Nat} {s : MStr} (hs : Chars s) : Chars (.chr code :: s) :=
  fun c hc => (List.mem_cons.1 hc).elim (fun h => ⟨code, h⟩) (hs c)

theorem Chars.nil : Chars [] := fun _ h => absurd h List.not_mem_nil

theorem chars_natStr (n : Nat) : Chars (natStr n) := by
  unfold natStr
  split
  · exact Chars.nil.cons
  · exact chars_map _ _

theorem chars_numStr (neg : Bool) (mant scale : Nat) : Chars (numStr neg mant scale) := by
  have hdec : Chars (decStr mant scale) := by
    unfold decStr
    split
    · exact chars_natStr _
    · refine Chars.append ?_ (chars_map _ _).cons
      split
      · exact Chars.nil
      · exact chars_natStr _
  unfold numStr
  split
  · exact hdec.cons
  · exact hdec

/-- The strings of Gen.lean have no bytes, but for one residue of ugenstr. -/
theorem chars_ugenstr {cs : Chset} {int : Nat} (h : ¬ (cs = .utf8 ∧ int % 13 = 4)) :
    Chars (ugenstr cs int) := by
  have hcodes : ∀ radix offset n, Chars (codes radix offset n) := fun _ _ _ => chars_map _ _
  have halphabet : ∀ first n, Chars (alphabet first n) := fun _ _ => chars_map _ _
  cases cs with
  | m =>
      show Chars (genstr int)
      unfold genstr
      split
      · exact chars_numStr _ _ _
      · exact chars_numStr _ _ _
      · exact chars_numStr _ _ _
      · exact chars_numStr _ _ _
      · exact (halphabet _ _).append (hcodes _ _ _).cons
      · exact (halphabet _ _).append (hcodes _ _ _)
      · exact (halphabet _ _).append (hcodes _ _ _)
      · exact (hcodes _ _ _).cons
  | utf8 =>
      have h4 : int % 13 ≠ 4 := fun h' => h ⟨rfl, h'⟩
      unfold ugenstr
      dsimp only
      split
      · exact chars_numStr _ _ _
      · exact chars_numStr _ _ _
      · exact chars_numStr _ _ _
      · exact chars_numStr _ _ _
      · rename_i h'
        exact absurd h' h4
      · exact fun c hc => hcodes _ _ _ c (List.mem_reverse.1 hc)

theorem chars_template (k l : Nat) : Chars (extract template k l) := by
  have hall : Chars template := ((chars_map _ _).append (chars_map _ _)).append (chars_map _ _)
  exact fun c hc => hall c (List.mem_of_mem_take (List.mem_of_mem_drop hc))

/-- The residue with bytes, with them read as characters. -/
theorem ugenstr_bytes {int : Nat} (h : int % 13 = 4) :
    (ugenstr .utf8 int).map asChar = extract template 4 (int % 61) ++ legalChars ++ natStr int := by
  have hstr : ugenstr .utf8 int = extract template 4 (int % 61) ++ illegalBytes ++ natStr int := by
    simp only [ugenstr, h]
  rw [hstr, List.map_append, List.map_append, map_asChar (chars_template _ _),
    map_asChar (chars_natStr _)]
  rfl

/-- The first character is none of the bytes. -/
theorem headCode_asChar (cs : Chset) (int : Nat) :
    headCode ((ugenstr cs int).map asChar) = headCode (ugenstr cs int) := by
  by_cases h : cs = .utf8 ∧ int % 13 = 4
  · obtain ⟨rfl, h⟩ := h
    have hstr : ugenstr .utf8 int = extract template 4 (int % 61) ++ illegalBytes ++ natStr int := by
      simp only [ugenstr, h]
    rw [ugenstr_bytes h, hstr]
    cases hpart : extract template 4 (int % 61) with
    | nil => rfl
    | cons c s =>
        obtain ⟨code, rfl⟩ := chars_template 4 (int % 61) c (by rw [hpart]; exact List.mem_cons_self)
        rfl
  · rw [map_asChar (chars_ugenstr h)]

/-- Character 255 marks where the number begins. -/
theorem legal_part_inj {a b : Nat} {k l : Nat}
    (h : extract template 4 k ++ legalChars ++ natStr a = extract template 4 l ++ legalChars ++ natStr b) :
    a = b := by
  have hmark : ∀ i : Nat, (.chr 255 : MChar) ∉ extract template 4 i := by
    intro i hi
    have hmem : MChar.chr 255 ∈ template := List.mem_of_mem_take (List.mem_of_mem_drop hi)
    exact absurd hmem (by decide)
  have hsplit : ∀ i n : Nat, extract template 4 i ++ legalChars ++ natStr n =
      (extract template 4 i ++ [MChar.chr 127, MChar.chr 128, MChar.chr 129, MChar.chr 130, MChar.chr 254]) ++
        .chr 255 :: natStr n := by
    intro i n
    simp [legalChars]
  have hmid : ∀ i : Nat, (.chr 255 : MChar) ∉
      extract template 4 i ++ [MChar.chr 127, MChar.chr 128, MChar.chr 129, MChar.chr 130, MChar.chr 254] := by
    intro i
    simp [hmark i]
  rw [hsplit, hsplit] at h
  have hafter := congrArg (afterFirst (MChar.chr 255)) h
  rw [afterFirst_append (hmid k), afterFirst_append (hmid l)] at hafter
  exact natStr_inj hafter

/-- **Also with the bytes read as characters** the strings are one to one. -/
theorem ugenstr_asChar_inj {cs : Chset} {a b : Nat} (ha : a ≠ 0) (hb : b ≠ 0)
    (h : (ugenstr cs a).map asChar = (ugenstr cs b).map asChar) : a = b := by
  have hsame : ¬ (cs = .utf8 ∧ a % 13 = 4) → ¬ (cs = .utf8 ∧ b % 13 = 4) → a = b := by
    intro h₁ h₂
    rw [map_asChar (chars_ugenstr h₁), map_asChar (chars_ugenstr h₂)] at h
    exact ugenstr_inj ha hb h
  -- numbers have no bytes
  have hnumber : ∀ int, (asNumber cs int).isSome = true → ¬ (cs = .utf8 ∧ int % 13 = 4) := by
    intro int hnum h4
    obtain ⟨rfl, h4⟩ := h4
    simp [asNumber, residue, h4] at hnum
  have hhead : headCode (ugenstr cs a) = headCode (ugenstr cs b) := by
    rw [← headCode_asChar, h, headCode_asChar]
  rcases residue_of_headCode cs ha hb hhead with hr | ⟨hna, hnb⟩
  · by_cases h4 : cs = .utf8 ∧ a % 13 = 4
    · obtain ⟨rfl, h4⟩ := h4
      have h4' : b % 13 = 4 := by
        rw [← h4]
        exact hr.symm
      rw [ugenstr_bytes h4, ugenstr_bytes h4'] at h
      exact legal_part_inj h
    · refine hsame h4 fun h4' => h4 ⟨h4'.1, ?_⟩
      obtain ⟨rfl, h4'⟩ := h4'
      exact hr.trans h4'
  · exact hsame (hnumber a hna) (hnumber b hnb)

/-! ## 3. One to one -/

/-- The mode of Gen.lean whose strings a mode has. -/
def modeOf (cs : Chset) (type : Nat) : Chset := if cs ≠ .utf8 ∨ type = 2 then .m else .utf8

theorem genstrIn_asChar {cs : Chset} (wide : Bool) {int : Nat}
    (h : int % 8 ≤ 1 → sig18 (314 * int) = 314 * int) :
    (genstrIn cs wide int).map asChar = genstr int := by
  have hcodes : ∀ radix offset n, ((digits radix n).map fun d => makeChar cs wide (offset + d)).map
      asChar = codes radix offset n := by
    intro radix offset n
    rw [codes, List.map_map]
    exact List.map_congr_left fun d _ => asChar_makeChar cs wide (offset + d)
  have halphabet : ∀ first n, (alphabet first n).map asChar = alphabet first n :=
    fun _ _ => map_asChar (chars_map _ _)
  have hnum : ∀ neg mant scale, (numStr neg mant scale).map asChar = numStr neg mant scale :=
    fun _ _ _ => map_asChar (chars_numStr _ _ _)
  have hr : int % 8 < 8 := Nat.mod_lt _ (by decide)
  unfold genstrIn genstr
  dsimp only
  generalize int % 8 = r at hr h
  interval_cases r
  · show (numStr false (sig18 (314 * int)) 2).map asChar = _
    rw [hnum, h (by decide)]
    rfl
  · show (numStr true (sig18 (314 * int)) 2).map asChar = _
    rw [hnum, h (by decide)]
    rfl
  · exact hnum _ _ _
  · exact hnum _ _ _
  · show (alphabet 0 11 ++ .chr 0 :: (digits 256 int).map fun d => makeChar cs wide (0 + d)).map asChar = _
    rw [List.map_append, List.map_cons, halphabet, hcodes]
    rfl
  · show (alphabet 65 26 ++ (digits 26 int).map fun d => makeChar cs wide (65 + d)).map asChar = _
    rw [List.map_append, halphabet, hcodes]
    rfl
  · show (alphabet 97 26 ++ (digits 26 int).map fun d => makeChar cs wide (97 + d)).map asChar = _
    rw [List.map_append, halphabet, hcodes]
    rfl
  · show (.chr 37 :: (digits 26 int).map fun d => makeChar cs wide (65 + d)).map asChar = _
    rw [List.map_cons, hcodes]
    rfl

/-- **In every mode** the strings are those of Gen.lean, bytes and characters apart. -/
theorem ugenstrIn_asChar {cs : Chset} (wide : Bool) {type int : Nat} (h : Whole cs type int) :
    (ugenstrIn cs wide type int).map asChar = (ugenstr (modeOf cs type) int).map asChar := by
  unfold Whole at h
  unfold ugenstrIn modeOf
  by_cases hmode : cs ≠ .utf8 ∨ type = 2
  · rw [if_pos hmode] at h
    rw [if_pos hmode, if_pos hmode, genstrIn_asChar wide h, map_asChar]
    · rfl
    · exact chars_ugenstr fun h => absurd h.1 (by decide)
  · rw [if_neg hmode] at h
    rw [if_neg hmode, if_neg hmode]
    have hr : int % 13 < 13 := Nat.mod_lt _ (by decide)
    by_cases h4 : int % 13 = 4
    · have hbytes : (if type = 0 then illegalBytes else legalChars).map asChar = legalChars := by
        split <;> rfl
      simp only [h4]
      rw [ugenstr_bytes h4, List.map_append, List.map_append, hbytes, map_asChar (chars_template _ _),
        map_asChar (chars_natStr _)]
    · unfold ugenstr
      dsimp only
      generalize int % 13 = r at hr h h4
      interval_cases r
      case «2» =>
        rw [h (Or.inl rfl)]
        rfl
      case «3» =>
        rw [h (Or.inr rfl)]
        rfl
      case «4» => exact absurd rfl h4
      all_goals rfl

/-- **ugenstr is one to one in every mode**, as long as its products have eighteen digits. -/
theorem ugenstrIn_inj {cs : Chset} {wide : Bool} {type a b : Nat} (ha : a ≠ 0) (hb : b ≠ 0)
    (hwa : Whole cs type a) (hwb : Whole cs type b)
    (h : ugenstrIn cs wide type a = ugenstrIn cs wide type b) : a = b := by
  have hmap : (ugenstr (modeOf cs type) a).map asChar = (ugenstr (modeOf cs type) b).map asChar := by
    rw [← ugenstrIn_asChar wide hwa, h, ugenstrIn_asChar wide hwb]
  exact ugenstr_asChar_inj ha hb hmap

theorem head_ugenstrIn_ne_blank {cs : Chset} {wide : Bool} {type int : Nat} (hint : int ≠ 0)
    (hw : Whole cs type int) : (ugenstrIn cs wide type int).head? ≠ some blank := by
  intro h
  have hmap : ((ugenstr (modeOf cs type) int).map asChar).head? = some blank := by
    rw [← ugenstrIn_asChar wide hw, List.head?_map, h]
    rfl
  have hcode : headCode (ugenstr (modeOf cs type) int) = 32 := by
    rw [← headCode_asChar]
    exact headCode_of_head? hmap
  refine head_ugenstr_ne_blank (modeOf cs type) hint ?_
  unfold headCode at hcode
  split at hcode
  · rename_i c hc
    rw [hc, hcode]
    rfl
  · exact absurd hcode (by decide)

/-- `$j(subs,keypad)` with `keypad=$select(istp=2:1,1:keysize-($$^dzlenproxy(subs)-$length(subs)))`. -/
def padded (cs : Chset) (istp keysize : Nat) (subs : MStr) : MStr :=
  justify subs (if istp = 2 then 1 else keysize - (zlength cs subs - subs.length))

/-- **The strings stay apart when they are padded**, and a padded one is not another's unpadded one. -/
theorem ugenstrIn_padded (cs : Chset) (wide : Bool) (type istp keysize : Nat) {a b : Nat} (ha : 0 < a)
    (hb : 0 < b) (hwa : Whole cs type a) (hwb : Whole cs type b) :
    (ugenstrIn cs wide type a = ugenstrIn cs wide type b → a = b) ∧
      (padded cs istp keysize (ugenstrIn cs wide type a) =
        padded cs istp keysize (ugenstrIn cs wide type b) → a = b) ∧
      (padded cs istp keysize (ugenstrIn cs wide type a) = ugenstrIn cs wide type b → a = b) := by
  have hinj : ugenstrIn cs wide type a = ugenstrIn cs wide type b → a = b :=
    ugenstrIn_inj (Nat.pos_iff_ne_zero.1 ha) (Nat.pos_iff_ne_zero.1 hb) hwa hwb
  have hstrip : ∀ {int : Nat}, 0 < int → Whole cs type int → ∀ n : Int,
      (justify (ugenstrIn cs wide type int) n).dropWhile (fun c => c = blank) =
        ugenstrIn cs wide type int := fun hint hw n =>
    dropWhile_blank_justify (head_ugenstrIn_ne_blank (Nat.pos_iff_ne_zero.1 hint) hw) n
  refine ⟨hinj, fun h => hinj ?_, fun h => hinj ?_⟩
  · have h' := congrArg (List.dropWhile fun c => c = blank) h
    rwa [padded, padded, hstrip ha hwa, hstrip hb hwb] at h'
  · have hself : (ugenstrIn cs wide type b).dropWhile (fun c => c = blank) =
        ugenstrIn cs wide type b := by
      have h0 := hstrip hb hwb 0
      have hzero : justify (ugenstrIn cs wide type b) 0 = ugenstrIn cs wide type b := by
        have hn : ((0 : Int) - (ugenstrIn cs wide type b).length).toNat = 0 := by omega
        rw [justify, hn]
        rfl
      rwa [hzero] at h0
    have h' := congrArg (List.dropWhile fun c => c = blank) h
    rwa [padded, hstrip ha hwa, hself] at h'

theorem ugenstrIn_padded_one :
    (ugenstrIn .utf8 false 0 2 = ugenstrIn .utf8 false 0 13 → 2 = 13) ∧
      (padded .utf8 1 24 (ugenstrIn .utf8 false 0 2) = padded .utf8 1 24 (ugenstrIn .utf8 false 0 13) →
        2 = 13) ∧
      (padded .utf8 1 24 (ugenstrIn .utf8 false 0 2) = ugenstrIn .utf8 false 0 13 → 2 = 13) :=
  ugenstrIn_padded .utf8 false 0 1 24 (by decide) (by decide) (by unfold Whole; decide)
    (by unfold Whole; decide)

/-- 3.14 times the one number is 251200000000000050.24, of which eighteen digits are the other. -/
theorem product_cut_off : ¬ ∀ (cs : Chset) (wide : Bool) (type a b : Nat), 0 < a → 0 < b →
    ugenstrIn cs wide type a = ugenstrIn cs wide type b → a = b := by
  intro h
  have hsame : ugenstrIn .m false 2 80000000000000016 = ugenstrIn .m false 2 251200000000000050 := by
    decide +kernel
  exact absurd (h _ _ _ _ _ (by decide) (by decide) hsame) (by decide)

end YottaTest.Imptp
