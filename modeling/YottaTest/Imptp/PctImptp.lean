/-
  File:      YottaTest/Imptp/PctImptp.lean
  Subject:   impjobgo.go, pctImptpInt32: a parameter of the job, read from ^%imptp.

  The value is fetched in two steps, taken out of its buffer, and parsed. The last two steps have an
  error variable of their own, which hides the one that is returned.

  * `Fetch` -- what the calls of the wrapper return for a node that has a value;
  * `inner`, `pctImptpInt32` -- the function;
  * `Reports` -- failure is reported exactly;
  * `reports_iff` -- **it is, unless the node is fetched and its value cannot be taken out or parsed**:
    the function then returns 0, or the nearest 32-bit integer, and no error.
-/
import YottaTest.Go.Strconv

namespace YottaTest.Imptp.PctImptp

open YottaTest.Go.Strconv

/-! ## 1. The function -/

/-- An error: one of the database, with its code, or one of the conversion. -/
inductive GoError where
  | ydb (code : Int)
  | num (err : NumError)
  deriving DecidableEq, Repr

/-- `yottadb.ErrorCode(err)` -/
def ErrorCode : GoError → Int
  | .ydb code => code
  | .num _ => -1

def YDB_ERR_GVUNDEF : Int := -150372994

/-- What the calls return: an error or none. The node has a value, so none of them finds it undefined. -/
structure Fetch where
  /-- `gblPctImptp.Subary.SetValStr(…)` -/
  SetValStr : Option GoError
  /-- `gblPctImptp.ValST(…)` -/
  ValST : Option GoError
  /-- `bufvalue.ValStr(…)` -/
  ValStr : Option GoError
  /-- the value of the node -/
  stored : Text
  defined : ∀ err ∈ [SetValStr, ValST], err.map ErrorCode ≠ some YDB_ERR_GVUNDEF

/-- The block with `strval, err := …`: the number, and the error variable of the block. -/
def inner (f : Fetch) : Int × Option GoError :=
  match f.ValStr with
  | some err => (0, some err)
  | none =>
      let r := ParseInt f.stored 32
      (r.1, r.2.map .num)

/-- `int32(n)` -/
def int32 (n : Int) : Int := n.bmod (2 ^ 32)

/-- `pctImptpInt32(…,sub2,gvundefOK)` -/
def pctImptpInt32 (f : Fetch) (gvundefOK : Bool) : Int × Option GoError :=
  let r : Int × Option GoError :=
    match f.SetValStr with
    | some err => (0, some err)
    | none => match f.ValST with
      | some err => (0, some err)
      -- the outer `err` is still that of `ValST`: the inner one ends with its block
      | none => ((inner f).1, none)
  if r.2 ≠ none ∧ gvundefOK = true ∧ r.2.map ErrorCode = some YDB_ERR_GVUNDEF then (0, none)
  else (int32 r.1, r.2)

/-! ## 2. Reports -/

/-- The value arrived. -/
def Fetch.Succeeds (f : Fetch) : Prop := f.SetValStr = none ∧ f.ValST = none ∧ f.ValStr = none

/-- The stored value is the text of a 32-bit integer. -/
def Parses (t : Text) (n : Int) : Prop := Denotes t n ∧ InRange 32 n

/-- The error is nil exactly where the value arrived and parses, and the number is then the integer. -/
def Reports (f : Fetch) (gvundefOK : Bool) : Prop :=
  ((pctImptpInt32 f gvundefOK).2 = none ↔ f.Succeeds ∧ ∃ n, Parses f.stored n) ∧
    ((pctImptpInt32 f gvundefOK).2 = none → Parses f.stored (pctImptpInt32 f gvundefOK).1)

theorem int32_of_inRange {n : Int} (h : InRange 32 n) : int32 n = n := by
  unfold InRange at h
  unfold int32
  exact Int.bmod_eq_of_le (by omega) (by omega)

/-- A failed fetch is passed on. -/
theorem pctImptpInt32_failed {f : Fetch} (h : f.SetValStr ≠ none ∨ f.ValST ≠ none) (gvundefOK : Bool) :
    (pctImptpInt32 f gvundefOK).2 ≠ none := by
  have hset := f.defined f.SetValStr List.mem_cons_self
  have hval := f.defined f.ValST (List.mem_cons_of_mem _ List.mem_cons_self)
  unfold pctImptpInt32
  cases hs : f.SetValStr with
  | some err =>
      rw [hs] at hset
      dsimp only
      rw [if_neg fun h => hset h.2.2]
      exact Option.some_ne_none err
  | none =>
      cases hv : f.ValST with
      | some err =>
          rw [hv] at hval
          dsimp only
          rw [if_neg fun h => hval h.2.2]
          exact Option.some_ne_none err
      | none => exact absurd (h.resolve_left (not_not_intro hs)) (not_not_intro hv)

/-- Behind the fetch there is no error any more, whatever the other two steps say. -/
theorem pctImptpInt32_fetched {f : Fetch} (hs : f.SetValStr = none) (hv : f.ValST = none)
    (gvundefOK : Bool) : pctImptpInt32 f gvundefOK = (int32 (inner f).1, none) := by
  unfold pctImptpInt32
  rw [hs, hv]
  dsimp only
  rw [if_neg fun h => h.1 rfl]

/-- **Failure is reported exactly, unless the value is fetched and cannot be taken out or parsed.** -/
theorem reports_iff (f : Fetch) (gvundefOK : Bool) : Reports f gvundefOK ↔
    (f.SetValStr ≠ none ∨ f.ValST ≠ none) ∨ (f.ValStr = none ∧ ∃ n, Parses f.stored n) := by
  unfold Reports Fetch.Succeeds
  by_cases hfail : f.SetValStr ≠ none ∨ f.ValST ≠ none
  · have herr := pctImptpInt32_failed hfail gvundefOK
    refine iff_of_true ⟨iff_of_false herr fun h => ?_, fun h => absurd h herr⟩ (Or.inl hfail)
    rcases hfail with hs | hv
    · exact hs h.1.1
    · exact hv h.1.2.1
  · have hs : f.SetValStr = none := Classical.not_not.1 fun h => hfail (Or.inl h)
    have hv : f.ValST = none := Classical.not_not.1 fun h => hfail (Or.inr h)
    rw [pctImptpInt32_fetched hs hv]
    simp only [hs, hv, true_and, true_iff, ne_eq, not_true_eq_false, false_or, or_self, forall_const]
    constructor
    · intro h
      exact h.1
    · intro h
      refine ⟨h, ?_⟩
      obtain ⟨hstr, n, hn⟩ := h
      have hparse : ParseInt f.stored 32 = (n, none) := (ParseInt_eq_ok (by decide)).2 hn
      have hinner : (inner f).1 = n := by
        unfold inner
        rw [hstr]
        dsimp only
        rw [hparse]
      rw [hinner, int32_of_inRange hn.2]
      exact hn

/-- A value that is no number comes back as 0, without an error. -/
theorem unparsable_swallowed :
    pctImptpInt32 ⟨none, none, none, "abc".toList, by decide⟩ false = (0, none) ∧
      ¬ Reports ⟨none, none, none, "abc".toList, by decide⟩ false := by
  have hrun : pctImptpInt32 ⟨none, none, none, "abc".toList, by decide⟩ false = (0, none) := by decide
  refine ⟨hrun, fun h => ?_⟩
  obtain ⟨n, hn⟩ := (h.1.1 (by rw [hrun])).2
  have hparse : ParseInt "abc".toList 32 = (n, none) := (ParseInt_eq_ok (by decide)).2 hn
  have herr : (ParseInt "abc".toList 32).2 ≠ none := by decide
  exact herr (by rw [hparse])

end YottaTest.Imptp.PctImptp
