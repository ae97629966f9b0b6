/-
  File:      YottaTest/Collation/Tables.lean
  Subject:   col_polish.c, col_polish_rev.c and col_reverse.c: strings transformed byte by byte.

  * `Tables` -- two tables, each the inverse of the other;
  * `gtm_descriptor`, `gtm_ac_xform`, `gtm_ac_xback` -- the transformation of a string and the way back;
  * `col_polish`, `col_polish_rev`, `col_reverse` -- the samples;
  * `convert_str` -- what the loop leaves in the destination;
  * `Before` -- the order of the strings, by the sequence of the bytes in `inverse_table`;
  * `Invertible`, `sample_invertible` -- **each sample gives every string back, and sorts the strings in its order.**
-/
import Mathlib.Algebra.GroupWithZero.Nat
import Mathlib.Data.Fintype.EquivFin
import Mathlib.Data.List.GetD
import Mathlib.Logic.Function.Basic
import YottaTest.Lib.Paths

namespace YottaTest.Collation

open Function YottaTest.Lib

/-! ## 1. The routines -/

/-- `unsigned char` -/
abbrev Byte := Fin 256

scoped instance byteSize : NeZero 256 := ⟨Nat.succ_ne_zero 255⟩

/-- `table[b]` -/
def entry (table : List Nat) (b : Byte) : Byte := Fin.ofNat 256 (table.getD b 0)

/-- `back` gives back what `table` was given. -/
def givesBack (table back : List Nat) : Bool :=
  table.length = 256 && back.length = 256 && table.zipIdx.all fun (x, b) => back.getD x 256 = b

theorem entry_givesBack {table back : List Nat} (h : givesBack table back = true) (b : Byte) :
    entry back (entry table b) = b := by
  obtain ⟨⟨htable, hback⟩, hall⟩ : (table.length = 256 ∧ back.length = 256) ∧
      (table.zipIdx.all fun (x, b) => back.getD x 256 = b) = true := by
    simpa [givesBack] using h
  have hb : b.val < table.length := by
    rw [htable]
    exact b.isLt
  have hat : (table[b.val], b.val) ∈ table.zipIdx :=
    List.mk_mem_zipIdx_iff_getElem?.2 (List.getElem?_eq_getElem hb)
  have hx : back.getD table[b.val] 256 = b.val := of_decide_eq_true (List.all_eq_true.1 hall _ hat)
  have hlt : table[b.val] < back.length := by
    by_contra hge
    rw [List.getD_eq_default _ _ (Nat.le_of_not_lt hge)] at hx
    have := b.isLt
    omega
  have hentry : (entry table b).val = table[b.val] := by
    rw [entry, List.getD_eq_getElem _ _ hb]
    rw [hback] at hlt
    exact Nat.mod_eq_of_lt hlt
  refine Fin.ext ?_
  rw [List.getD_eq_getElem _ _ hlt] at hx
  rw [entry, hentry, List.getD_eq_getElem _ _ hlt, hx]
  exact Nat.mod_eq_of_lt b.isLt

/-- A collation routine: its tables, and whether it puts a '\0' behind what it writes. -/
structure Tables where
  xform_table : List Nat
  inverse_table : List Nat
  terminates : Bool
  inverse_xform : ∀ b, entry inverse_table (entry xform_table b) = b

namespace Tables

variable (c : Tables)

/-- On bytes, an inverse on one side is one on both. -/
theorem xform_inverse (b : Byte) : entry c.xform_table (entry c.inverse_table b) = b := by
  have hinj : Function.Injective (entry c.xform_table) :=
    Function.LeftInverse.injective c.inverse_xform
  obtain ⟨a, rfl⟩ := Finite.surjective_of_injective hinj b
  rw [c.inverse_xform]

end Tables

/-- The length, and the memory from where `val` points. -/
structure gtm_descriptor where
  len : Nat
  val : Nat → Byte

/-- MYAPPS_SUBSC2LONG -/
def tooLong : Nat := 12345678

/-- What a routine returns, and what it leaves in `*dst` and `*dstlen`. -/
structure Result where
  status : Nat
  dst : gtm_descriptor
  dstlen : Option Nat

/-- `while ( n-- > 0 ) *cpout++ = table[*cp++];` with both pointers `i` bytes ahead. -/
def copyLoop (table : List Nat) (cp : Nat → Byte) : Nat → Nat → (Nat → Byte) → Nat → Byte
  | 0, _, cpout => cpout
  | n + 1, i, cpout => copyLoop table cp n (i + 1) (update cpout i (entry table (cp i)))

/-- The routine with one of the tables. -/
def convert (table : List Nat) (terminates : Bool) (src dst : gtm_descriptor) : Result :=
  if src.len > dst.len then ⟨tooLong, dst, none⟩
  else
    let out := copyLoop table src.val src.len 0 dst.val
    let out := if terminates then update out src.len 0 else out
    ⟨0, { dst with val := out }, some src.len⟩

def gtm_ac_xform (c : Tables) (src dst : gtm_descriptor) : Result :=
  convert c.xform_table c.terminates src dst

def gtm_ac_xback (c : Tables) (src dst : gtm_descriptor) : Result :=
  convert c.inverse_table c.terminates src dst

def col_polish : Tables where
  xform_table := [
    0, 1, 2, 3, 4, 5, 6, 7, 8, 9, 10, 11, 12, 13, 14, 15, 16, 17, 18, 19, 20, 21, 22, 23, 24, 25,
    26, 27, 28, 29, 30, 31, 32, 33, 34, 35, 36, 37, 38, 39, 40, 41, 42, 43, 44, 45, 46, 47, 48,
    49, 50, 51, 52, 53, 54, 55, 56, 57, 58, 59, 60, 61, 62, 63, 64, 70, 78, 82, 90, 97, 104, 106,
    108, 112, 116, 118, 122, 128, 131, 139, 146, 148, 152, 158, 166, 174, 180, 182, 184, 187, 191,
    197, 198, 199, 200, 201, 202, 65, 77, 79, 87, 93, 103, 105, 107, 109, 115, 117, 119, 127, 129,
    135, 145, 147, 149, 155, 163, 169, 179, 181, 183, 185, 189, 203, 204, 205, 206, 220, 221, 222,
    223, 224, 225, 226, 227, 228, 229, 230, 231, 232, 233, 234, 235, 236, 237, 238, 239, 240, 241,
    242, 243, 244, 245, 246, 247, 248, 249, 250, 251, 252, 253, 76, 207, 126, 208, 123, 162, 209,
    210, 159, 160, 167, 194, 211, 192, 196, 212, 75, 213, 125, 214, 120, 161, 215, 216, 156, 157,
    164, 193, 217, 190, 195, 153, 71, 72, 73, 74, 124, 86, 83, 84, 98, 102, 99, 100, 113, 114, 91,
    92, 134, 132, 144, 140, 141, 142, 218, 154, 175, 176, 177, 178, 188, 168, 254, 150, 66, 67,
    68, 69, 121, 85, 80, 81, 94, 101, 95, 96, 110, 111, 88, 89, 133, 130, 143, 136, 137, 138, 219,
    151, 170, 171, 172, 173, 186, 165, 255]
  inverse_table := [
    0, 1, 2, 3, 4, 5, 6, 7, 8, 9, 10, 11, 12, 13, 14, 15, 16, 17, 18, 19, 20, 21, 22, 23, 24, 25,
    26, 27, 28, 29, 30, 31, 32, 33, 34, 35, 36, 37, 38, 39, 40, 41, 42, 43, 44, 45, 46, 47, 48,
    49, 50, 51, 52, 53, 54, 55, 56, 57, 58, 59, 60, 61, 62, 63, 64, 97, 225, 226, 227, 228, 65,
    193, 194, 195, 196, 177, 161, 98, 66, 99, 231, 232, 67, 199, 200, 230, 198, 100, 239, 240, 68,
    207, 208, 101, 233, 235, 236, 69, 201, 203, 204, 234, 202, 102, 70, 103, 71, 104, 72, 105,
    237, 238, 73, 205, 206, 106, 74, 107, 75, 108, 181, 229, 76, 165, 197, 179, 163, 109, 77, 110,
    242, 78, 210, 241, 209, 111, 244, 245, 246, 79, 212, 213, 214, 243, 211, 112, 80, 113, 81,
    114, 224, 248, 82, 192, 216, 115, 185, 186, 83, 169, 170, 182, 166, 116, 187, 254, 84, 171,
    222, 117, 249, 250, 251, 252, 85, 217, 218, 219, 220, 118, 86, 119, 87, 120, 88, 121, 253, 89,
    221, 122, 190, 90, 174, 188, 172, 191, 175, 91, 92, 93, 94, 95, 96, 123, 124, 125, 126, 162,
    164, 167, 168, 173, 176, 178, 180, 183, 184, 189, 215, 247, 127, 128, 129, 130, 131, 132, 133,
    134, 135, 136, 137, 138, 139, 140, 141, 142, 143, 144, 145, 146, 147, 148, 149, 150, 151, 152,
    153, 154, 155, 156, 157, 158, 159, 160, 223, 255]
  terminates := true
  inverse_xform := entry_givesBack (by decide +kernel)

def col_polish_rev : Tables where
  xform_table := [
    0, 1, 2, 3, 4, 5, 6, 7, 8, 9, 10, 11, 12, 13, 14, 15, 16, 17, 18, 19, 20, 21, 22, 23, 24, 25,
    26, 27, 28, 29, 30, 31, 32, 33, 34, 35, 36, 37, 38, 39, 40, 41, 42, 43, 44, 45, 46, 47, 48,
    49, 50, 51, 52, 53, 54, 55, 56, 57, 58, 59, 60, 61, 62, 63, 64, 97, 225, 226, 227, 228, 65,
    193, 194, 195, 196, 177, 161, 98, 66, 99, 231, 232, 67, 199, 200, 230, 198, 100, 239, 240, 68,
    207, 208, 101, 233, 235, 236, 69, 201, 203, 204, 234, 202, 102, 70, 103, 71, 104, 72, 105,
    237, 238, 73, 205, 206, 106, 74, 107, 75, 108, 181, 229, 76, 165, 197, 179, 163, 109, 77, 110,
    242, 78, 210, 241, 209, 111, 244, 245, 246, 79, 212, 213, 214, 243, 211, 112, 80, 113, 81,
    114, 224, 248, 82, 192, 216, 115, 185, 186, 83, 169, 170, 182, 166, 116, 187, 254, 84, 171,
    222, 117, 249, 250, 251, 252, 85, 217, 218, 219, 220, 118, 86, 119, 87, 120, 88, 121, 253, 89,
    221, 122, 190, 90, 174, 188, 172, 191, 175, 91, 92, 93, 94, 95, 96, 123, 124, 125, 126, 162,
    164, 167, 168, 173, 176, 178, 180, 183, 184, 189, 215, 247, 127, 128, 129, 130, 131, 132, 133,
    134, 135, 136, 137, 138, 139, 140, 141, 142, 143, 144, 145, 146, 147, 148, 149, 150, 151, 152,
    153, 154, 155, 156, 157, 158, 159, 160, 223, 255]
  inverse_table := [
    0, 1, 2, 3, 4, 5, 6, 7, 8, 9, 10, 11, 12, 13, 14, 15, 16, 17, 18, 19, 20, 21, 22, 23, 24, 25,
    26, 27, 28, 29, 30, 31, 32, 33, 34, 35, 36, 37, 38, 39, 40, 41, 42, 43, 44, 45, 46, 47, 48,
    49, 50, 51, 52, 53, 54, 55, 56, 57, 58, 59, 60, 61, 62, 63, 64, 70, 78, 82, 90, 97, 104, 106,
    108, 112, 116, 118, 122, 128, 131, 139, 146, 148, 152, 158, 166, 174, 180, 182, 184, 187, 191,
    197, 198, 199, 200, 201, 202, 65, 77, 79, 87, 93, 103, 105, 107, 109, 115, 117, 119, 127, 129,
    135, 145, 147, 149, 155, 163, 169, 179, 181, 183, 185, 189, 203, 204, 205, 206, 220, 221, 222,
    223, 224, 225, 226, 227, 228, 229, 230, 231, 232, 233, 234, 235, 236, 237, 238, 239, 240, 241,
    242, 243, 244, 245, 246, 247, 248, 249, 250, 251, 252, 253, 76, 207, 126, 208, 123, 162, 209,
    210, 159, 160, 167, 194, 211, 192, 196, 212, 75, 213, 125, 214, 120, 161, 215, 216, 156, 157,
    164, 193, 217, 190, 195, 153, 71, 72, 73, 74, 124, 86, 83, 84, 98, 102, 99, 100, 113, 114, 91,
    92, 134, 132, 144, 140, 141, 142, 218, 154, 175, 176, 177, 178, 188, 168, 254, 150, 66, 67,
    68, 69, 121, 85, 80, 81, 94, 101, 95, 96, 110, 111, 88, 89, 133, 130, 143, 136, 137, 138, 219,
    151, 170, 171, 172, 173, 186, 165, 255]
  terminates := true
  inverse_xform := col_polish.xform_inverse

def col_reverse : Tables where
  xform_table := [
    255, 254, 253, 252, 251, 250, 249, 248, 247, 246, 245, 244, 243, 242, 241, 240, 239, 238, 237,
    236, 235, 234, 233, 232, 231, 230, 229, 228, 227, 226, 225, 224, 223, 222, 221, 220, 219, 218,
    217, 216, 215, 214, 213, 212, 211, 210, 209, 208, 207, 206, 205, 204, 203, 202, 201, 200, 199,
    198, 197, 196, 195, 194, 193, 192, 191, 190, 189, 188, 187, 186, 185, 184, 183, 182, 181, 180,
    179, 178, 177, 176, 175, 174, 173, 172, 171, 170, 169, 168, 167, 166, 165, 164, 163, 162, 161,
    160, 159, 158, 157, 156, 155, 154, 153, 152, 151, 150, 149, 148, 147, 146, 145, 144, 143, 142,
    141, 140, 139, 138, 137, 136, 135, 134, 133, 132, 131, 130, 129, 128, 127, 126, 125, 124, 123,
    122, 121, 120, 119, 118, 117, 116, 115, 114, 113, 112, 111, 110, 109, 108, 107, 106, 105, 104,
    103, 102, 101, 100, 99, 98, 97, 96, 95, 94, 93, 92, 91, 90, 89, 88, 87, 86, 85, 84, 83, 82,
    81, 80, 79, 78, 77, 76, 75, 74, 73, 72, 71, 70, 69, 68, 67, 66, 65, 64, 63, 62, 61, 60, 59,
    58, 57, 56, 55, 54, 53, 52, 51, 50, 49, 48, 47, 46, 45, 44, 43, 42, 41, 40, 39, 38, 37, 36,
    35, 34, 33, 32, 31, 30, 29, 28, 27, 26, 25, 24, 23, 22, 21, 20, 19, 18, 17, 16, 15, 14, 13,
    12, 11, 10, 9, 8, 7, 6, 5, 4, 3, 2, 1, 0]
  inverse_table := [
    255, 254, 253, 252, 251, 250, 249, 248, 247, 246, 245, 244, 243, 242, 241, 240, 239, 238, 237,
    236, 235, 234, 233, 232, 231, 230, 229, 228, 227, 226, 225, 224, 223, 222, 221, 220, 219, 218,
    217, 216, 215, 214, 213, 212, 211, 210, 209, 208, 207, 206, 205, 204, 203, 202, 201, 200, 199,
    198, 197, 196, 195, 194, 193, 192, 191, 190, 189, 188, 187, 186, 185, 184, 183, 182, 181, 180,
    179, 178, 177, 176, 175, 174, 173, 172, 171, 170, 169, 168, 167, 166, 165, 164, 163, 162, 161,
    160, 159, 158, 157, 156, 155, 154, 153, 152, 151, 150, 149, 148, 147, 146, 145, 144, 143, 142,
    141, 140, 139, 138, 137, 136, 135, 134, 133, 132, 131, 130, 129, 128, 127, 126, 125, 124, 123,
    122, 121, 120, 119, 118, 117, 116, 115, 114, 113, 112, 111, 110, 109, 108, 107, 106, 105, 104,
    103, 102, 101, 100, 99, 98, 97, 96, 95, 94, 93, 92, 91, 90, 89, 88, 87, 86, 85, 84, 83, 82,
    81, 80, 79, 78, 77, 76, 75, 74, 73, 72, 71, 70, 69, 68, 67, 66, 65, 64, 63, 62, 61, 60, 59,
    58, 57, 56, 55, 54, 53, 52, 51, 50, 49, 48, 47, 46, 45, 44, 43, 42, 41, 40, 39, 38, 37, 36,
    35, 34, 33, 32, 31, 30, 29, 28, 27, 26, 25, 24, 23, 22, 21, 20, 19, 18, 17, 16, 15, 14, 13,
    12, 11, 10, 9, 8, 7, 6, 5, 4, 3, 2, 1, 0]
  terminates := false
  inverse_xform := entry_givesBack (by decide +kernel)

/-! ## 2. What the loop leaves -/

/-- The bytes from `i` on are those of the table, and no others are touched. -/
theorem copyLoop_apply (table : List Nat) (cp : Nat → Byte) : ∀ (n i : Nat) (cpout : Nat → Byte) (k : Nat),
    copyLoop table cp n i cpout k =
      if i ≤ k ∧ k < i + n then entry table (cp k) else cpout k
  | 0, i, cpout, k => (if_neg (by omega)).symm
  | n + 1, i, cpout, k => by
      rw [copyLoop, copyLoop_apply table cp n]
      by_cases hk : k = i
      · subst hk
        rw [if_neg (by omega), if_pos (by omega), update_self]
      · rw [update_of_ne hk]
        by_cases hin : i + 1 ≤ k ∧ k < i + 1 + n
        · rw [if_pos hin, if_pos (by omega)]
        · rw [if_neg hin, if_neg (by omega)]

/-- The string a descriptor stands for. -/
def gtm_descriptor.str (d : gtm_descriptor) : List Byte := (List.range d.len).map d.val

/-- The string that a routine returns. -/
def Result.str (r : Result) : Option (List Byte) :=
  r.dstlen.map fun len => gtm_descriptor.str { r.dst with len := len }

/-- **Each byte is replaced by its entry**, and the length stays. -/
theorem convert_str (table : List Nat) (terminates : Bool) {src dst : gtm_descriptor}
    (h : src.len ≤ dst.len) :
    (convert table terminates src dst).status = 0 ∧
      (convert table terminates src dst).dstlen = some src.len ∧
      (convert table terminates src dst).str = some (src.str.map (entry table)) := by
  have hout : ∀ k < src.len, (convert table terminates src dst).dst.val k = entry table (src.val k) := by
    intro k hk
    have hloop : copyLoop table src.val src.len 0 dst.val k = entry table (src.val k) := by
      rw [copyLoop_apply, if_pos (by omega)]
    unfold convert
    rw [if_neg (by omega)]
    cases terminates with
    | false => exact hloop
    | true => exact (update_of_ne (by omega) _ _).trans hloop
  have hlen : (convert table terminates src dst).dstlen = some src.len := by
    unfold convert
    rw [if_neg (by omega)]
  refine ⟨?_, hlen, ?_⟩
  · unfold convert
    rw [if_neg (by omega)]
  · rw [Result.str, hlen, Option.map_some, gtm_descriptor.str, gtm_descriptor.str, List.map_map]
    exact congrArg some (List.map_congr_left fun k hk => hout k (List.mem_range.1 hk))

/-! ## 3. The order -/

/-- The byte `a` stands before `b` in the sequence of `inverse_table`. -/
def Tables.Precedes (c : Tables) (a b : Byte) : Prop :=
  ∃ i j : Byte, i < j ∧ entry c.inverse_table i = a ∧ entry c.inverse_table j = b

/-- The order of strings of one length: where they first differ, the byte of `s` stands before
    that of `t`. -/
def Tables.Before (c : Tables) (s t : List Byte) : Prop :=
  ∃ common a b s' t', s = common ++ a :: s' ∧ t = common ++ b :: t' ∧ c.Precedes a b

theorem Tables.precedes_iff (c : Tables) {a b : Byte} :
    c.Precedes a b ↔ entry c.xform_table a < entry c.xform_table b := by
  refine ⟨fun h => ?_, fun h => ⟨_, _, h, c.inverse_xform a, c.inverse_xform b⟩⟩
  obtain ⟨i, j, hij, rfl, rfl⟩ := h
  rwa [c.xform_inverse, c.xform_inverse]

instance (c : Tables) (a b : Byte) : Decidable (c.Precedes a b) := decidable_of_iff _ c.precedes_iff.symm

/-- The letters under one subscript of polm.txt, and of rev_polm.txt, as they are listed there. -/
example : (("%CdgHIKPQTvx".toList.map fun c => Fin.ofNat 256 c.toNat).Pairwise col_polish.Precedes) ∧
    ("%vgKxHITdCPQ".toList.map fun c => Fin.ofNat 256 c.toNat).Pairwise col_polish_rev.Precedes := by
  decide +kernel

theorem Tables.xform_injective (c : Tables) : Injective (entry c.xform_table) :=
  LeftInverse.injective c.inverse_xform

/-- **The byte order of the transforms.** -/
theorem Tables.before_iff (c : Tables) {s t : List Byte} (h : s.length = t.length) :
    c.Before s t ↔ s.map (entry c.xform_table) < t.map (entry c.xform_table) := by
  rw [lt_iff_exists_split (by rw [List.length_map, List.length_map, h])]
  refine ⟨fun hb => ?_, fun hlt => ?_⟩
  · obtain ⟨common, a, b, s', t', rfl, rfl, hab⟩ := hb
    exact ⟨_, _, _, _, _, List.map_append, List.map_append, c.precedes_iff.1 hab⟩
  · obtain ⟨common, a, b, s', t', hs, ht, hab⟩ := hlt
    obtain ⟨p, u, rfl, hp, hu⟩ := List.map_eq_append_iff.1 hs
    obtain ⟨q, v, rfl, hq, hv⟩ := List.map_eq_append_iff.1 ht
    obtain ⟨x, u', rfl, rfl, -⟩ := List.map_eq_cons_iff.1 hu
    obtain ⟨y, v', rfl, rfl, -⟩ := List.map_eq_cons_iff.1 hv
    obtain rfl : p = q := List.map_injective_iff.2 c.xform_injective (hp.trans hq.symm)
    exact ⟨p, x, y, u', v', rfl, rfl, c.precedes_iff.2 hab⟩

/-! ## 4. The samples -/

inductive Sample where
  | polish | polish_rev | reverse
  deriving DecidableEq, Repr

def Sample.tables : Sample → Tables
  | .polish => col_polish
  | .polish_rev => col_polish_rev
  | .reverse => col_reverse

/-- The order a sample is for: that of the letters as they stand in the table, or, as
    col_reverse.c has it, everything in reverse. -/
def Sample.Before : Sample → List Byte → List Byte → Prop
  | .reverse, s, t => t < s
  | c, s, t => c.tables.Before s t

/-- What is promised of a collation for an order. -/
structure Invertible (c : Tables) (Before : List Byte → List Byte → Prop) : Prop where
  xform : ∀ src dst, src.len ≤ dst.len →
    (gtm_ac_xform c src dst).status = 0 ∧ (gtm_ac_xform c src dst).dstlen = some src.len
  /-- the string comes back, from the destination of the one call to that of another -/
  xback : ∀ src dst dst' len, src.len ≤ dst.len → src.len ≤ dst'.len →
    (gtm_ac_xform c src dst).dstlen = some len →
      let r := gtm_ac_xback c { (gtm_ac_xform c src dst).dst with len := len } dst'
      r.status = 0 ∧ r.dstlen = some src.len ∧ r.str = some src.str
  /-- the transforms are ordered as the strings are -/
  order : ∀ src src' dst dst' t t', src.len = src'.len →
    (gtm_ac_xform c src dst).str = some t → (gtm_ac_xform c src' dst').str = some t' →
      (t < t' ↔ Before src.str src'.str)
  irrefl : ∀ s, ¬ Before s s
  trans : ∀ s t u, s.length = t.length → t.length = u.length → Before s t → Before t u → Before s u
  /-- of two strings one comes before the other, if they are not the same -/
  total : ∀ s t, s.length = t.length → s ≠ t → Before s t ∨ Before t s

/-- Every collation with a table and its inverse is invertible. -/
theorem Tables.invertible (c : Tables) : Invertible c c.Before where
  xform src dst h := ⟨(convert_str _ _ h).1, (convert_str _ _ h).2.1⟩
  xback src dst dst' len h h' hlen := by
    obtain ⟨-, hdstlen, hstr⟩ := convert_str c.xform_table c.terminates h
    obtain rfl : len = src.len := Option.some.inj (hlen.symm.trans hdstlen)
    obtain ⟨hstatus, hdstlen', hstr'⟩ := convert_str c.inverse_table c.terminates
      (show gtm_descriptor.len { (gtm_ac_xform c src dst).dst with len := src.len } ≤ dst'.len from h')
    refine ⟨hstatus, hdstlen', hstr'.trans (congrArg some ?_)⟩
    have htransform : gtm_descriptor.str { (gtm_ac_xform c src dst).dst with len := src.len } =
        src.str.map (entry c.xform_table) := by
      rw [Result.str, hdstlen] at hstr
      exact Option.some.inj hstr
    rw [htransform, List.map_map]
    exact (List.map_congr_left fun b _ => c.inverse_xform b).trans (List.map_id _)
  order src src' dst dst' t t' hlen ht ht' := by
    have hfits : ∀ {src dst t}, (gtm_ac_xform c src dst).str = some t →
        t = src.str.map (entry c.xform_table) := by
      intro src dst t ht
      have hle : src.len ≤ dst.len := by
        by_contra hgt
        rw [gtm_ac_xform, convert, if_pos (by omega)] at ht
        cases ht
      exact Option.some.inj (ht.symm.trans (convert_str c.xform_table c.terminates hle).2.2)
    rw [hfits ht, hfits ht', c.before_iff]
    rw [gtm_descriptor.str, gtm_descriptor.str, List.length_map, List.length_map, hlen]
  irrefl s h := lt_irrefl _ ((c.before_iff rfl).1 h)
  trans s t u hst htu h h' :=
    (c.before_iff (hst.trans htu)).2 (((c.before_iff hst).1 h).trans ((c.before_iff htu).1 h'))
  total s t hlen hne := by
    rw [c.before_iff hlen, c.before_iff hlen.symm]
    refine lt_or_gt_of_ne fun he => hne ?_
    exact List.map_injective_iff.2 c.xform_injective he

/-- Only strings of one length are compared. -/
theorem Invertible.of_iff {c : Tables} {Before Before' : List Byte → List Byte → Prop}
    (h : Invertible c Before) (hiff : ∀ s t, s.length = t.length → (Before' s t ↔ Before s t)) :
    Invertible c Before' where
  xform := h.xform
  xback := h.xback
  order src src' dst dst' t t' hlen ht ht' := by
    rw [hiff _ _ (by simp [gtm_descriptor.str, hlen])]
    exact h.order src src' dst dst' t t' hlen ht ht'
  irrefl s hs := h.irrefl s ((hiff s s rfl).1 hs)
  trans s t u hst htu h₁ h₂ :=
    (hiff s u (hst.trans htu)).2 (h.trans s t u hst htu ((hiff s t hst).1 h₁) ((hiff t u htu).1 h₂))
  total s t hlen hne := by
    rw [hiff s t hlen, hiff t s hlen.symm]
    exact h.total s t hlen hne

/-- The table of col_reverse.c has the complements of the bytes. -/
theorem entry_col_reverse (b : Byte) : (entry col_reverse.xform_table b).val = 255 - b.val := by
  have htable : col_reverse.xform_table = (List.range 256).map (255 - ·) := by decide +kernel
  have hlt : b.val < ((List.range 256).map (255 - ·)).length := by
    rw [List.length_map, List.length_range]
    exact b.isLt
  rw [entry, htable, List.getD_eq_getElem _ _ hlt, List.getElem_map, List.getElem_range]
  exact Nat.mod_eq_of_lt (by omega)

theorem reverse_before {s t : List Byte} (h : s.length = t.length) :
    t < s ↔ col_reverse.Before s t := by
  rw [lt_iff_exists_split h.symm]
  have hab : ∀ a b : Byte, col_reverse.Precedes a b ↔ b < a := by
    intro a b
    rw [col_reverse.precedes_iff, Fin.lt_def, Fin.lt_def, entry_col_reverse, entry_col_reverse]
    have := a.isLt
    have := b.isLt
    omega
  refine ⟨fun hlt => ?_, fun hb => ?_⟩
  · obtain ⟨common, b, a, t', s', rfl, rfl, hba⟩ := hlt
    exact ⟨common, a, b, s', t', rfl, rfl, (hab a b).2 hba⟩
  · obtain ⟨common, a, b, s', t', rfl, rfl, hb⟩ := hb
    exact ⟨common, b, a, t', s', rfl, rfl, (hab a b).1 hb⟩

/-- **Each sample gives every string back, and sorts the strings of a length in its order.** -/
theorem sample_invertible (c : Sample) : Invertible c.tables c.Before := by
  cases c with
  | polish => exact col_polish.invertible
  | polish_rev => exact col_polish_rev.invertible
  | reverse => exact col_reverse.invertible.of_iff fun s t h => reverse_before h

end YottaTest.Collation
