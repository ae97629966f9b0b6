/-
  File:      YottaTest/Imptp/Gen.lean
  Subject:   genstr.m and ugenstr.m: the strings made from a number.

  imptp turns the index `I` into the subscript `subs` and the loop number into the value `val`,
  in a way that depends on a residue: numbers, negative numbers, fractions, and strings over
  several alphabets.

  * `genstr`, `ugenstr` -- the two routines;
  * `headRange` -- the range the first character of each residue's strings lies in, which keeps
    the alphabets apart;
  * `genstr_inj`, `ugenstr_inj` -- **the map is one to one**, in both character sets;
  * `head_ugenstr_ne_blank` -- no string begins with a blank, so padding can be taken off again
    (`strip_subsMAX` in Values.lean).
-/
import Mathlib.Data.List.Basic
import Mathlib.Tactic.IntervalCases
import YottaTest.M.Strings

namespace YottaTest.Imptp

open YottaTest.Lib YottaTest.M

/-! ## 1. The routines -/

/-- The digits of `n` in a radix as characters, least significant first. -/
def codes (radix offset n : Nat) : MStr := (digits radix n).map fun d => .chr (offset + d)

/-- `n` characters from a code on. -/
def alphabet (first n : Nat) : MStr := (List.range n).map fun i => .chr (first + i)

/-- `genstr(int)`. -/
def genstr (int : Nat) : MStr :=
  match int % 8 with
  | 0 => numStr false (314 * int) 2
  | 1 => numStr true (314 * int) 2
  | 2 => numStr false int 0
  | 3 => numStr true int 0
  -- $C(0,1,2,3,4,5,6,7,8,9,10,0), then any byte
  | 4 => alphabet 0 11 ++ .chr 0 :: codes 256 0 int
  | 5 => alphabet 65 26 ++ codes 26 65 int
  | 6 => alphabet 97 26 ++ codes 26 97 int
  | _ => .chr 37 :: codes 26 65 int

/-- The letters and digits `ugenstr` takes a part of. -/
def template : MStr := alphabet 65 26 ++ alphabet 48 10 ++ alphabet 97 26

/-- `$ZCHAR(127,128,129,130,254,255)`: of these bytes only 127 is a character. -/
def illegalBytes : MStr := [.chr 127, .byte 128, .byte 129, .byte 130, .byte 254, .byte 255]

/-- `$select(dint=1:0,dint=2:48,…)`, for `int#13 = dint+4`. -/
def offsetOf : Nat → Nat
  | 5 => 0
  | 6 => 48
  | 7 => 128
  | 8 => 2048
  | 9 => 65536
  | 10 => 196608
  | 11 => 983040
  | _ => 1113856

/-- `ugenstr(int)`, with `type` 0 as imptp and checkdb call it. -/
def ugenstr (cs : Chset) (int : Nat) : MStr :=
  match cs with
  | .m => genstr int
  | .utf8 =>
      match int % 13 with
      | 0 => numStr false int 0
      | 1 => numStr true int 0
      | 2 => numStr false (31415692 * int) 7
      | 3 => numStr true (31415692 * int) 7
      | 4 => extract template (int % 13) (int % 61) ++ illegalBytes ++ natStr int
      | r => (codes 10 (offsetOf r) int).reverse

/-! ## 2. The first character -/

/-- The code of the first character; 0 stands for a byte or an empty string. -/
def headCode (s : MStr) : Nat :=
  match s.head? with
  | some (.chr c) => c
  | _ => 0

theorem headCode_of_head? {s : MStr} {c : Nat} (h : s.head? = some (.chr c)) : headCode s = c := by
  rw [headCode, h]

/-- The codes a string made for residue `r` can begin with. -/
def headRange : Chset → Nat → Nat × Nat
  | .m, 0 => (46, 57)
  | .m, 1 => (45, 45)
  | .m, 2 => (46, 57)
  | .m, 3 => (45, 45)
  | .m, 4 => (0, 0)
  | .m, 5 => (65, 65)
  | .m, 6 => (97, 97)
  | .m, _ => (37, 37)
  | .utf8, 0 => (46, 57)
  | .utf8, 1 => (45, 45)
  | .utf8, 2 => (46, 57)
  | .utf8, 3 => (45, 45)
  | .utf8, 4 => (68, 127)
  | .utf8, r => (offsetOf r, offsetOf r + 9)

/-- The residue the routine looks at. -/
def residue : Chset → Nat → Nat
  | .m, int => int % 8
  | .utf8, int => int % 13

theorem headCode_numStr_false (m s : Nat) :
    46 ≤ headCode (numStr false m s) ∧ headCode (numStr false m s) ≤ 57 := by
  obtain ⟨c, hc, hr⟩ := head_decStr m s
  have hnum : numStr false m s = decStr m s := by simp [numStr]
  rw [hnum, headCode_of_head? hc]
  omega

theorem headCode_numStr_true {m : Nat} (hm : m ≠ 0) (s : Nat) : headCode (numStr true m s) = 45 := by
  have hnum : numStr true m s = .chr 45 :: decStr m s := by simp [numStr, hm]
  rw [hnum]
  rfl

theorem headCode_codes_reverse (offset : Nat) {n : Nat} (hn : n ≠ 0) :
    offset ≤ headCode (codes 10 offset n).reverse ∧
      headCode (codes 10 offset n).reverse ≤ offset + 9 := by
  have hne := digits_ne_nil (show 2 ≤ 10 by decide) hn
  obtain ⟨d, ds, hd⟩ : ∃ d ds, (digits 10 n).reverse = d :: ds :=
    List.exists_cons_of_ne_nil (by simpa using hne)
  have hlt : d < 10 := digits_lt (by decide) n d (by
    rw [← List.mem_reverse, hd]
    exact List.mem_cons_self)
  have hhead : (codes 10 offset n).reverse.head? = some (.chr (offset + d)) := by
    rw [codes, ← List.map_reverse, hd]
    rfl
  rw [headCode_of_head? hhead]
  omega

/-- The part of the template is empty or begins with the template's 4th character, D. -/
theorem headCode_part_eq (k : Nat) (s : MStr) :
    headCode (extract template 4 k ++ illegalBytes ++ s) = 68 ∨
      headCode (extract template 4 k ++ illegalBytes ++ s) = 127 := by
  have hdrop : extract template 4 k = (template.drop 3).take (k - 3) := by
    unfold extract
    rw [List.drop_take]
  rw [hdrop]
  cases k - 3 with
  | zero => exact Or.inr rfl
  | succ n => exact Or.inl rfl

theorem headCode_part (k : Nat) (s : MStr) :
    68 ≤ headCode (extract template 4 k ++ illegalBytes ++ s) ∧
      headCode (extract template 4 k ++ illegalBytes ++ s) ≤ 127 := by
  have hpart := headCode_part_eq k s
  omega

/-- **Where the strings of a residue begin.** -/
theorem headCode_ugenstr (cs : Chset) {int : Nat} (hint : int ≠ 0) :
    (headRange cs (residue cs int)).1 ≤ headCode (ugenstr cs int) ∧
      headCode (ugenstr cs int) ≤ (headRange cs (residue cs int)).2 := by
  cases cs with
  | m =>
      have h314 : 314 * int ≠ 0 := by omega
      simp only [ugenstr, genstr, residue]
      have hr : int % 8 < 8 := Nat.mod_lt _ (by decide)
      generalize int % 8 = r at hr
      interval_cases r
      · exact headCode_numStr_false _ _
      · simp only [headRange, headCode_numStr_true h314]; decide
      · exact headCode_numStr_false _ _
      · simp only [headRange, headCode_numStr_true hint]; decide
      all_goals exact ⟨Nat.le_of_eq rfl, Nat.le_of_eq rfl⟩
  | utf8 =>
      have hpi : 31415692 * int ≠ 0 := by omega
      simp only [ugenstr, residue]
      have hr : int % 13 < 13 := Nat.mod_lt _ (by decide)
      generalize int % 13 = r at hr
      interval_cases r
      · exact headCode_numStr_false _ _
      · simp only [headRange, headCode_numStr_true hint]; decide
      · exact headCode_numStr_false _ _
      · simp only [headRange, headCode_numStr_true hpi]; decide
      · exact headCode_part _ _
      all_goals exact headCode_codes_reverse _ hint

/-! ## 3. One to one -/

/-- The residues whose strings are numbers, with sign, mantissa and decimal places. -/
def asNumber (cs : Chset) (int : Nat) : Option (Bool × Nat × Nat) :=
  match cs, residue cs int with
  | .m, 0 => some (false, 314 * int, 2)
  | .m, 1 => some (true, 314 * int, 2)
  | .m, 2 => some (false, int, 0)
  | .m, 3 => some (true, int, 0)
  | .utf8, 0 => some (false, int, 0)
  | .utf8, 1 => some (true, int, 0)
  | .utf8, 2 => some (false, 31415692 * int, 7)
  | .utf8, 3 => some (true, 31415692 * int, 7)
  -- the decimal digits themselves: ugenstr's offset 48
  | .utf8, 6 => some (false, int, 0)
  | _, _ => none

theorem codes_48_reverse {n : Nat} (hn : n ≠ 0) :
    (codes 10 48 n).reverse = numStr false n 0 := by
  have hnum : numStr false n 0 = natStr n := by simp [numStr, decStr, stripZeros]
  rw [hnum, natStr, if_neg hn, codes, digitChars, List.map_reverse]

theorem ugenstr_asNumber {cs : Chset} {int : Nat} (hint : int ≠ 0) {neg : Bool} {m s : Nat}
    (h : asNumber cs int = some (neg, m, s)) : ugenstr cs int = numStr neg m s ∧ m ≠ 0 := by
  cases cs with
  | m =>
      simp only [asNumber, residue] at h
      simp only [ugenstr, genstr]
      have hr : int % 8 < 8 := Nat.mod_lt _ (by decide)
      generalize int % 8 = r at hr h
      interval_cases r <;> simp only [Option.some.injEq, Prod.mk.injEq, reduceCtorEq] at h
      all_goals
        obtain ⟨rfl, rfl, rfl⟩ := h
        exact ⟨rfl, by omega⟩
  | utf8 =>
      simp only [asNumber, residue] at h
      simp only [ugenstr]
      have hr : int % 13 < 13 := Nat.mod_lt _ (by decide)
      generalize int % 13 = r at hr h
      interval_cases r <;> simp only [Option.some.injEq, Prod.mk.injEq, reduceCtorEq] at h
      all_goals obtain ⟨rfl, rfl, rfl⟩ := h
      case «6» => exact ⟨codes_48_reverse hint, hint⟩
      all_goals exact ⟨rfl, by omega⟩

/-- The residues of `asNumber`. -/
def numberResidue : Chset → Nat → Bool
  | .m, r => r < 4
  | .utf8, r => r < 4 || r = 6

theorem residue_lt (cs : Chset) (int : Nat) : residue cs int < 13 := by
  cases cs with
  | m => exact lt_of_lt_of_le (Nat.mod_lt _ (by decide)) (by decide)
  | utf8 => exact Nat.mod_lt _ (by decide)

theorem asNumber_isSome {cs : Chset} {int : Nat} (h : numberResidue cs (residue cs int) = true) :
    (asNumber cs int).isSome = true := by
  unfold asNumber
  have hr := residue_lt cs int
  generalize residue cs int = r at h hr ⊢
  cases cs <;> interval_cases r <;> first | rfl | exact absurd h (by decide)

/-- The alphabets are apart: two ranges that meet belong to one residue, or to numbers. -/
theorem headRange_apart (cs : Chset) (r r' : Fin 13)
    (h : (headRange cs r).1 ≤ (headRange cs r').2) (h' : (headRange cs r').1 ≤ (headRange cs r).2) :
    (r = r' ∨ (numberResidue cs r = true ∧ numberResidue cs r' = true)) ∨
      (cs = .m ∧ (8 ≤ r ∨ 8 ≤ r')) := by
  revert r r'
  cases cs with
  | m => decide
  | utf8 => decide

/-- Two strings that begin alike are made alike, or are both numbers. -/
theorem residue_of_headCode (cs : Chset) {a b : Nat} (ha : a ≠ 0) (hb : b ≠ 0)
    (h : headCode (ugenstr cs a) = headCode (ugenstr cs b)) : residue cs a = residue cs b ∨
      ((asNumber cs a).isSome = true ∧ (asNumber cs b).isSome = true) := by
  have h1 := headCode_ugenstr cs ha
  have h2 := headCode_ugenstr cs hb
  rw [← h] at h2
  rcases headRange_apart cs ⟨_, residue_lt cs a⟩ ⟨_, residue_lt cs b⟩ (h1.1.trans h2.2)
    (h2.1.trans h1.2) with (hr | ⟨hna, hnb⟩) | ⟨rfl, hge⟩
  · exact Or.inl (Fin.mk.inj hr)
  · exact Or.inr ⟨asNumber_isSome hna, asNumber_isSome hnb⟩
  · have hla : a % 8 < 8 := Nat.mod_lt _ (by decide)
    have hlb : b % 8 < 8 := Nat.mod_lt _ (by decide)
    simp only [residue, Fin.le_def] at hge
    have h8 : ((8 : Fin 13) : Nat) = 8 := rfl
    omega

/-- What `asNumber` says, residue by residue. -/
theorem asNumber_m {a : Nat} {n : Bool} {m s : Nat} (h : asNumber .m a = some (n, m, s)) :
    (n = false ∧ m = 314 * a ∧ s = 2 ∧ a % 8 = 0) ∨ (n = true ∧ m = 314 * a ∧ s = 2 ∧ a % 8 = 1) ∨
      (n = false ∧ m = a ∧ s = 0 ∧ a % 8 = 2) ∨ (n = true ∧ m = a ∧ s = 0 ∧ a % 8 = 3) := by
  simp only [asNumber, residue] at h
  have hr : a % 8 < 8 := Nat.mod_lt _ (by decide)
  generalize a % 8 = r at hr h ⊢
  interval_cases r <;> simp_all

theorem asNumber_utf8 {a : Nat} {n : Bool} {m s : Nat} (h : asNumber .utf8 a = some (n, m, s)) :
    (n = false ∧ m = a ∧ s = 0 ∧ (a % 13 = 0 ∨ a % 13 = 6)) ∨
      (n = true ∧ m = a ∧ s = 0 ∧ a % 13 = 1) ∨
      (n = false ∧ m = 31415692 * a ∧ s = 7 ∧ a % 13 = 2) ∨
      (n = true ∧ m = 31415692 * a ∧ s = 7 ∧ a % 13 = 3) := by
  simp only [asNumber, residue] at h
  have hr : a % 13 < 13 := Nat.mod_lt _ (by decide)
  generalize a % 13 = r at hr h ⊢
  interval_cases r <;> simp_all

/-- A multiple of 3.14 that is whole is not a number genstr writes as itself. -/
theorem whole_ne_fraction_m {a b : Nat}
    (hr : (a % 8 = 0 ∧ b % 8 = 2) ∨ (a % 8 = 1 ∧ b % 8 = 3)) : 314 * a ≠ 100 * b := by
  rcases hr with ⟨ha, hb⟩ | ⟨ha, hb⟩
  all_goals
    intro h
    omega

/-- A multiple of 3.1415692 that is whole is not a number ugenstr writes as itself. -/
theorem whole_ne_fraction_utf8 {a b : Nat}
    (hr : (a % 13 = 2 ∧ b % 13 = 0) ∨ (a % 13 = 2 ∧ b % 13 = 6) ∨ (a % 13 = 3 ∧ b % 13 = 1)) :
    31415692 * a ≠ 10000000 * b := by
  -- the residues come before the equation in the context: omega eliminates them first
  rcases hr with ⟨ha, hb⟩ | ⟨ha, hb⟩ | ⟨ha, hb⟩
  all_goals
    intro h
    omega

/-- **The numbers are apart**: sign and value determine the number they are made from. -/
theorem asNumber_inj {cs : Chset} {a b : Nat} {n : Bool} {m₁ s₁ m₂ s₂ : Nat}
    (ha : asNumber cs a = some (n, m₁, s₁)) (hb : asNumber cs b = some (n, m₂, s₂))
    (hv : m₁ * 10 ^ s₂ = m₂ * 10 ^ s₁) : a = b := by
  cases cs with
  | m =>
      rcases asNumber_m ha with ⟨rfl, rfl, rfl, h⟩ | ⟨rfl, rfl, rfl, h⟩ | ⟨rfl, rfl, rfl, h⟩ |
        ⟨rfl, rfl, rfl, h⟩
      all_goals
        rcases asNumber_m hb with ⟨hn, rfl, rfl, h'⟩ | ⟨hn, rfl, rfl, h'⟩ | ⟨hn, rfl, rfl, h'⟩ |
          ⟨hn, rfl, rfl, h'⟩
        all_goals cases hn
        all_goals simp only [Nat.reducePow, Nat.mul_one, Nat.mul_comm _ 100] at hv
      · omega
      · exact (whole_ne_fraction_m (Or.inl ⟨h, h'⟩) hv).elim
      · omega
      · exact (whole_ne_fraction_m (Or.inr ⟨h, h'⟩) hv).elim
      · exact (whole_ne_fraction_m (Or.inl ⟨h', h⟩) hv.symm).elim
      · exact hv
      · exact (whole_ne_fraction_m (Or.inr ⟨h', h⟩) hv.symm).elim
      · exact hv
  | utf8 =>
      rcases asNumber_utf8 ha with ⟨rfl, rfl, rfl, h⟩ | ⟨rfl, rfl, rfl, h⟩ | ⟨rfl, rfl, rfl, h⟩ |
        ⟨rfl, rfl, rfl, h⟩
      all_goals
        rcases asNumber_utf8 hb with ⟨hn, rfl, rfl, h'⟩ | ⟨hn, rfl, rfl, h'⟩ | ⟨hn, rfl, rfl, h'⟩ |
          ⟨hn, rfl, rfl, h'⟩
        all_goals cases hn
        all_goals simp only [Nat.reducePow, Nat.mul_one, Nat.mul_comm _ 10000000] at hv
      · exact hv
      · rcases h with h | h
        · exact (whole_ne_fraction_utf8 (Or.inl ⟨h', h⟩) hv.symm).elim
        · exact (whole_ne_fraction_utf8 (Or.inr (Or.inl ⟨h', h⟩)) hv.symm).elim
      · exact hv
      · exact (whole_ne_fraction_utf8 (Or.inr (Or.inr ⟨h', h⟩)) hv.symm).elim
      · rcases h' with h' | h'
        · exact (whole_ne_fraction_utf8 (Or.inl ⟨h, h'⟩) hv).elim
        · exact (whole_ne_fraction_utf8 (Or.inr (Or.inl ⟨h, h'⟩)) hv).elim
      · omega
      · exact (whole_ne_fraction_utf8 (Or.inr (Or.inr ⟨h, h'⟩)) hv).elim
      · omega

/-- The characters of the digits determine the number. -/
theorem codes_inj {radix offset a b : Nat} (hr : 2 ≤ radix)
    (h : codes radix offset a = codes radix offset b) : a = b := by
  refine digits_inj hr (List.map_injective_iff.2 ?_ h)
  intro d e he
  simp only [MChar.chr.injEq] at he
  omega

theorem natStr_inj {a b : Nat} (h : natStr a = natStr b) : a = b := by
  have hread : (natStr a).foldl readStep (0, none) = (natStr b).foldl readStep (0, none) := by
    rw [h]
  rw [foldl_readStep_natStr, foldl_readStep_natStr] at hread
  exact (Prod.mk.inj hread).1

/-- Byte 255 marks where the number begins in ugenstr's binary strings. -/
theorem part_inj {p q : MStr} (hp : .byte 255 ∉ p) (hq : .byte 255 ∉ q) {a b : Nat}
    (h : p ++ illegalBytes ++ natStr a = q ++ illegalBytes ++ natStr b) : a = b := by
  have hsplit : ∀ (r : MStr) (n : Nat), r ++ illegalBytes ++ natStr n =
      (r ++ [MChar.chr 127, MChar.byte 128, MChar.byte 129, MChar.byte 130, MChar.byte 254]) ++ .byte 255 :: natStr n := by
    intro r n
    simp [illegalBytes]
  have hmid : ∀ r : MStr, (.byte 255 : MChar) ∉ r →
      (.byte 255 : MChar) ∉ r ++ [MChar.chr 127, MChar.byte 128, MChar.byte 129, MChar.byte 130, MChar.byte 254] := by
    intro r hr
    simp [hr]
  rw [hsplit, hsplit] at h
  have hafter := congrArg (afterFirst (MChar.byte 255)) h
  rw [afterFirst_append (hmid p hp), afterFirst_append (hmid q hq)] at hafter
  exact natStr_inj hafter

theorem byte_notMem_template (k l : Nat) (b : Nat) : .byte b ∉ extract template k l := by
  intro h
  have hmem : MChar.byte b ∈ template := List.mem_of_mem_take (List.mem_of_mem_drop h)
  simp [template, alphabet] at hmem

/-- Strings made the same way come from the same number. -/
theorem ugenstr_inj_of_residue {cs : Chset} {a b : Nat}
    (hr : residue cs a = residue cs b) (h : ugenstr cs a = ugenstr cs b)
    (hna : numberResidue cs (residue cs a) = false) : a = b := by
  cases cs with
  | m =>
      simp only [residue] at hr hna
      simp only [ugenstr, genstr, ← hr] at h
      have hlt : a % 8 < 8 := Nat.mod_lt _ (by decide)
      generalize a % 8 = r at hlt h hna
      interval_cases r
      case «4» => exact codes_inj (by decide) (List.cons.inj (List.append_cancel_left h)).2
      case «5» => exact codes_inj (by decide) (List.append_cancel_left h)
      case «6» => exact codes_inj (by decide) (List.append_cancel_left h)
      case «7» => exact codes_inj (by decide) (List.cons.inj h).2
      all_goals exact absurd hna (by decide)
  | utf8 =>
      simp only [residue] at hr hna
      simp only [ugenstr, ← hr] at h
      have hlt : a % 13 < 13 := Nat.mod_lt _ (by decide)
      generalize a % 13 = r at hlt h hna
      interval_cases r
      case «4» =>
        exact part_inj (byte_notMem_template _ _ _) (byte_notMem_template _ _ _) h
      case «5» => exact codes_inj (by decide) (List.reverse_injective h)
      case «7» => exact codes_inj (by decide) (List.reverse_injective h)
      case «8» => exact codes_inj (by decide) (List.reverse_injective h)
      case «9» => exact codes_inj (by decide) (List.reverse_injective h)
      case «10» => exact codes_inj (by decide) (List.reverse_injective h)
      case «11» => exact codes_inj (by decide) (List.reverse_injective h)
      case «12» => exact codes_inj (by decide) (List.reverse_injective h)
      all_goals exact absurd hna (by decide)

/-- **ugenstr is one to one**, in both character sets. -/
theorem ugenstr_inj {cs : Chset} {a b : Nat} (ha : a ≠ 0) (hb : b ≠ 0)
    (h : ugenstr cs a = ugenstr cs b) : a = b := by
  have hnumbers : (asNumber cs a).isSome = true → (asNumber cs b).isSome = true → a = b := by
    intro hna hnb
    obtain ⟨⟨n₁, m₁, s₁⟩, h1⟩ := Option.isSome_iff_exists.1 hna
    obtain ⟨⟨n₂, m₂, s₂⟩, h2⟩ := Option.isSome_iff_exists.1 hnb
    obtain ⟨e1, hm1⟩ := ugenstr_asNumber ha h1
    obtain ⟨e2, hm2⟩ := ugenstr_asNumber hb h2
    rw [e1, e2] at h
    obtain ⟨rfl, hv⟩ := numStr_inj hm1 hm2 h
    exact asNumber_inj h1 h2 hv
  rcases residue_of_headCode cs ha hb (congrArg headCode h) with hr | ⟨hna, hnb⟩
  · cases hnum : numberResidue cs (residue cs a) with
    | false => exact ugenstr_inj_of_residue hr h hnum
    | true => exact hnumbers (asNumber_isSome hnum) (asNumber_isSome (hr ▸ hnum))
  · exact hnumbers hna hnb

/-- No string begins with a blank. -/
theorem head_ugenstr_ne_blank (cs : Chset) {int : Nat} (hint : int ≠ 0) :
    (ugenstr cs int).head? ≠ some blank := by
  intro h
  have hhead : headCode (ugenstr cs int) = 32 := headCode_of_head? h
  have hrange := headCode_ugenstr cs hint
  rw [hhead] at hrange
  have hr := residue_lt cs int
  generalize residue cs int = r at hrange hr
  revert hrange
  cases cs <;> interval_cases r <;> decide

end YottaTest.Imptp
