/-
  File:      YottaTest/Collation/Bounds.lean
  Subject:   What the collation routines write: col_polish.c, col_polish_rev.c and col_complex.c.

  A call is read as the status it returns and the list of its writes through `dst->val`, in order.

  * `Call`, `written` -- a call, and the memory its writes leave;
  * `convertCall`, `convert_eq` -- the calls of the samples with tables leave what `convert` says;
  * `complexXform`, `complexXback` -- col_complex.c, which exchanges 'a' and 'b';
  * `Bounded` -- no write outside the destination, and none when the result does not fit;
  * `call_bounded_iff` -- **when each routine keeps to that.**
-/
import YottaTest.Collation.Tables

namespace YottaTest.Collation

open Function YottaTest.Lib

/-! ## 1. Calls as writes -/

/-- What a routine returns, and the writes `val[i] = b` it makes. -/
structure Call where
  status : Nat
  writes : List (Nat × Byte)
  deriving DecidableEq, Repr

/-- The memory after the writes. -/
def written (val : Nat → Byte) (writes : List (Nat × Byte)) : Nat → Byte :=
  writes.foldl (fun val w => update val w.1 w.2) val

/-- The writes of `for (ii = 0; ii < n; ii++) out[ii] = f(in[ii])`. -/
def copyWrites (f : Byte → Byte) (cp : Nat → Byte) (n : Nat) : List (Nat × Byte) :=
  (List.range n).map fun i => (i, f (cp i))

/-- A routine with a table. -/
def convertCall (table : List Nat) (terminates : Bool) (src : gtm_descriptor) (dstlen : Nat) : Call :=
  if src.len > dstlen then ⟨tooLong, []⟩
  else ⟨0, copyWrites (entry table) src.val src.len ++ if terminates then [(src.len, 0)] else []⟩

/-- `strncmp(in, text, n) == 0` for a text of `n` characters: the bytes of `in` are those of the text. -/
def startsWith (cp : Nat → Byte) (text : List Nat) : Prop :=
  (List.range text.length).map (fun i => (cp i).val) = text

instance (cp : Nat → Byte) (text : List Nat) : Decidable (startsWith cp text) := by
  unfold startsWith
  infer_instance

/-- "please return BADCHAR" -/
def returnBadchar : List Nat :=
  [112, 108, 101, 97, 115, 101, 32, 114, 101, 116, 117, 114, 110, 32, 66, 65, 68, 67, 72, 65, 82]

/-- "please return SUB2LONG" -/
def returnSub2long : List Nat :=
  [112, 108, 101, 97, 115, 101, 32, 114, 101, 116, 117, 114, 110, 32, 83, 85, 66, 50, 76, 79, 78, 71]

def ERR_BADCHAR : Nat := 0x87658765

def ERR_SUB2LONG : Nat := 150375154

/-- 'a' and 'b' exchanged. -/
def exchange (ch : Byte) : Byte := if ch = 97 then 98 else if ch = 98 then 97 else ch

/-- `gtm_ac_xform` of col_complex.c; `maxdstlen` is never looked at. -/
def complexXform (src : gtm_descriptor) : Call :=
  if startsWith src.val returnBadchar then ⟨ERR_BADCHAR, []⟩
  else if startsWith src.val returnSub2long then ⟨ERR_SUB2LONG, []⟩
  else ⟨0, copyWrites exchange src.val src.len⟩

/-- `gtm_ac_xback` of col_complex.c. -/
def complexXback (src : gtm_descriptor) : Call := ⟨0, copyWrites exchange src.val src.len⟩

/-- The six routines. -/
inductive Routine where
  | polishXform | polishXback | polishRevXform | polishRevXback | complexXform | complexXback
  deriving DecidableEq, Repr

def Routine.call (r : Routine) (src : gtm_descriptor) (dstlen : Nat) : Call :=
  match r with
  | polishXform => convertCall col_polish.xform_table col_polish.terminates src dstlen
  | polishXback => convertCall col_polish.inverse_table col_polish.terminates src dstlen
  | polishRevXform => convertCall col_polish_rev.xform_table col_polish_rev.terminates src dstlen
  | polishRevXback => convertCall col_polish_rev.inverse_table col_polish_rev.terminates src dstlen
  | complexXform => Collation.complexXform src
  | complexXback => Collation.complexXback src

/-- No write outside the destination, and an error without a write when the result does not fit. -/
structure Bounded (src : gtm_descriptor) (dstlen : Nat) (c : Call) : Prop where
  inside : ∀ w ∈ c.writes, w.1 < dstlen
  error : dstlen < src.len → c.status ≠ 0 ∧ c.writes = []

/-! ## 2. The writes and the memory -/

theorem written_append (val : Nat → Byte) (ws ws' : List (Nat × Byte)) :
    written val (ws ++ ws') = written (written val ws) ws' :=
  List.foldl_append

/-- The loop of the tables' routines makes the writes of `copyWrites`. -/
theorem written_copyWrites (table : List Nat) (cp : Nat → Byte) (n : Nat) (cpout : Nat → Byte) :
    written cpout (copyWrites (entry table) cp n) = copyLoop table cp n 0 cpout := by
  funext k
  rw [copyLoop_apply]
  induction n with
  | zero => exact (if_neg (by omega)).symm
  | succ n ih =>
      rw [copyWrites, List.range_succ, List.map_append, written_append]
      show update (written cpout (copyWrites (entry table) cp n)) n (entry table (cp n)) k = _
      by_cases hk : k = n
      · subst hk
        rw [update_self, if_pos (by omega)]
      · rw [update_of_ne hk, ih]
        by_cases hlt : 0 ≤ k ∧ k < 0 + n
        · rw [if_pos hlt, if_pos (by omega)]
        · rw [if_neg hlt, if_neg (by omega)]

/-- `convert` is its call: the status, and the writes put into the destination. -/
theorem convert_eq (table : List Nat) (terminates : Bool) (src dst : gtm_descriptor) :
    (convert table terminates src dst).status = (convertCall table terminates src dst.len).status ∧
      (convert table terminates src dst).dst.val =
        written dst.val (convertCall table terminates src dst.len).writes := by
  unfold convert convertCall
  by_cases h : src.len > dst.len
  · rw [if_pos h, if_pos h]
    exact ⟨rfl, rfl⟩
  · rw [if_neg h, if_neg h]
    refine ⟨rfl, ?_⟩
    show _ = written dst.val (copyWrites (entry table) src.val src.len ++ _)
    rw [written_append, written_copyWrites]
    cases terminates <;> rfl

/-! ## 3. The bounds -/

theorem mem_copyWrites {f : Byte → Byte} {cp : Nat → Byte} {n : Nat} {w : Nat × Byte} :
    w ∈ copyWrites f cp n ↔ w.1 < n ∧ w.2 = f (cp w.1) := by
  unfold copyWrites
  rw [List.mem_map]
  constructor
  · intro h
    obtain ⟨i, hi, rfl⟩ := h
    exact ⟨List.mem_range.1 hi, rfl⟩
  · intro h
    exact ⟨w.1, List.mem_range.2 h.1, Prod.ext rfl h.2.symm⟩

/-- The copy alone stays inside iff it fits. -/
theorem copyWrites_inside {f : Byte → Byte} {cp : Nat → Byte} {n dstlen : Nat} :
    (∀ w ∈ copyWrites f cp n, w.1 < dstlen) ↔ n ≤ dstlen := by
  constructor
  · intro h
    by_contra hlt
    have := h (dstlen, f (cp dstlen)) (mem_copyWrites.2 ⟨by omega, rfl⟩)
    exact absurd this (Nat.lt_irrefl _)
  · intro h w hw
    have := (mem_copyWrites.1 hw).1
    omega

/-- A routine that puts a '\\0' behind what it copied is bounded iff there is room for that too, or
    not even for the copy. -/
theorem convertCall_bounded (table : List Nat) (src : gtm_descriptor) (dstlen : Nat) :
    Bounded src dstlen (convertCall table true src dstlen) ↔ src.len ≠ dstlen := by
  unfold convertCall
  by_cases hlong : src.len > dstlen
  · rw [if_pos hlong]
    refine ⟨fun _ => by omega, fun _ => ⟨fun w hw => absurd hw List.not_mem_nil, fun _ => ?_⟩⟩
    exact ⟨by decide, rfl⟩
  · rw [if_neg hlong]
    constructor
    · intro h
      have := h.inside (src.len, 0) (List.mem_append_right _ (List.mem_singleton_self _))
      exact Nat.ne_of_lt this
    · intro hne
      refine ⟨fun w hw => ?_, fun hlt => absurd hlt (by omega)⟩
      rcases List.mem_append.1 hw with hw | hw
      · have := (mem_copyWrites.1 hw).1
        omega
      · obtain rfl := List.mem_singleton.1 hw
        show src.len < dstlen
        omega

/-- A copy without a check is bounded iff it fits. -/
theorem copy_bounded (f : Byte → Byte) (src : gtm_descriptor) (dstlen : Nat) :
    Bounded src dstlen ⟨0, copyWrites f src.val src.len⟩ ↔ src.len ≤ dstlen := by
  constructor
  · intro h
    exact copyWrites_inside.1 h.inside
  · intro h
    exact ⟨copyWrites_inside.2 h, fun hlt => absurd hlt (by omega)⟩

theorem error_bounded (src : gtm_descriptor) (dstlen : Nat) {status : Nat} (h : status ≠ 0) :
    Bounded src dstlen ⟨status, []⟩ :=
  ⟨fun _ hw => absurd hw List.not_mem_nil, fun _ => ⟨h, rfl⟩⟩

/-- When a routine keeps to its destination. -/
def Routine.Fits (r : Routine) (src : gtm_descriptor) (dstlen : Nat) : Prop :=
  match r with
  | complexXform =>
      src.len ≤ dstlen ∨ startsWith src.val returnBadchar ∨ startsWith src.val returnSub2long
  | complexXback => src.len ≤ dstlen
  | _ => src.len ≠ dstlen

/-- **Each routine keeps to its destination iff the source does not exactly fill it** (the routines with a
    table) **or is no longer than it** (those of col_complex, unless an error is asked for). -/
theorem call_bounded_iff (r : Routine) (src : gtm_descriptor) (dstlen : Nat) :
    Bounded src dstlen (r.call src dstlen) ↔ r.Fits src dstlen := by
  cases r with
  | polishXform => exact convertCall_bounded _ src dstlen
  | polishXback => exact convertCall_bounded _ src dstlen
  | polishRevXform => exact convertCall_bounded _ src dstlen
  | polishRevXback => exact convertCall_bounded _ src dstlen
  | complexXback => exact copy_bounded exchange src dstlen
  | complexXform =>
      show Bounded src dstlen (Collation.complexXform src) ↔ _ ∨ _
      unfold Collation.complexXform
      by_cases hbad : startsWith src.val returnBadchar
      · rw [if_pos hbad]
        exact iff_of_true (error_bounded src dstlen (by decide)) (Or.inr (Or.inl hbad))
      · rw [if_neg hbad]
        by_cases hlong : startsWith src.val returnSub2long
        · rw [if_pos hlong]
          exact iff_of_true (error_bounded src dstlen (by decide)) (Or.inr (Or.inr hlong))
        · rw [if_neg hlong, copy_bounded, or_iff_left (not_or.2 ⟨hbad, hlong⟩)]

/-- A subscript that fills the destination: the '\\0' goes behind it. -/
theorem terminator_outside : ¬ (∀ (r : Routine) (src : gtm_descriptor) (dstlen : Nat),
    Bounded src dstlen (r.call src dstlen)) := by
  intro h
  have := (h .polishXform ⟨1, fun _ => 97⟩ 1).inside (1, 0) (by decide +kernel)
  exact absurd this (by decide)

end YottaTest.Collation
