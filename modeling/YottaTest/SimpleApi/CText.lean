/-
  File:      YottaTest/SimpleApi/CText.lean
  Subject:   The C library's text functions that the SimpleAPI programs use, on ASCII text.

  * `int` -- a value that fits an `int`;
  * `sprintfD`, `atoi` -- `"%d"` and its reading: `atoi_sprintfD`, `sprintfD_inj`; the text of a
    number is not empty and has no delimiter (`bar_notMem_sprintfD`);
  * `strtok` -- the next token and what is left (`strtok_append`, `strtok_last`).
-/
import YottaTest.M.Globals
import YottaTest.Lib.Pieces

namespace YottaTest.SimpleApi

open YottaTest.M YottaTest.Lib

/-- The value of an `int` expression: none if it overflows. -/
def int (n : Int) : Option Int := if -2147483648 ≤ n ∧ n ≤ 2147483647 then some n else none

theorem int_eq_some {n m : Int} (h : int n = some m) : m = n := by
  unfold int at h
  split at h
  · exact (Option.some.inj h).symm
  · cases h

/-- `sprintf(buf, "%d", n)`. -/
def sprintfD (n : Int) : MStr := if n < 0 then .chr 45 :: natStr n.natAbs else natStr n.natAbs

/-- `isspace`. -/
def isSpace : MChar → Bool
  | .chr c => c = 32 ∨ 9 ≤ c ∧ c ≤ 13
  | .byte _ => false

/-- `atoi`: white space, a sign and digits; the rest is not looked at. -/
def atoi (s : MStr) : Int :=
  match s.dropWhile isSpace with
  | .chr 45 :: rest => -(Val.str rest).toNat
  | .chr 43 :: rest => (Val.str rest).toNat
  | rest => (Val.str rest).toNat

/-- `strtok(s, "|")` and `strtok(NULL, "|")`: the next token, and what follows it. -/
def strtok (s : MStr) : Option (MStr × MStr) :=
  match s.dropWhile fun c => c = bar with
  | [] => none
  | rest => some (beforeFirst bar rest, afterFirst bar rest)

/-! ## 1. Numbers -/

theorem toNat_digitChars {ds : List Nat} (hds : ∀ d ∈ ds, d < 10) :
    (Val.str (digitChars ds)).toNat = readDigits 0 ds := by
  unfold Val.toNat
  dsimp only
  rw [List.takeWhile_eq_self_iff.2 fun c hc => ?digit, List.take_of_length_le (by simp)]
  case digit =>
    obtain ⟨d, hd, rfl⟩ := List.mem_map.1 hc
    have := hds d hd
    simp only [decide_eq_true_eq]
    omega
  unfold digitChars
  rw [List.map_map]
  have hid : ds.map ((fun c : MChar => match c with
      | .chr c => c - 48
      | .byte _ => 0) ∘ fun d => MChar.chr (48 + d)) = ds := by
    conv_rhs => rw [← List.map_id ds]
    exact List.map_congr_left fun d _ => Nat.add_sub_cancel_left 48 d
  exact congrArg (readDigits 0) hid

theorem toNat_natStr (n : Nat) : (Val.str (natStr n)).toNat = n := by
  unfold natStr
  by_cases hn : n = 0
  · rw [if_pos hn, hn]
    rfl
  · rw [if_neg hn, toNat_digitChars fun d hd => digits_lt (by decide) n d (List.mem_reverse.1 hd)]
    exact readDigits_digits n

theorem natStr_digit (n : Nat) : ∀ c ∈ natStr n, ∃ d < 10, c = .chr (48 + d) := by
  intro c hc
  unfold natStr at hc
  split at hc
  · exact ⟨0, by decide, by simpa using hc⟩
  · obtain ⟨d, hd, rfl⟩ := List.mem_map.1 hc
    exact ⟨d, digits_lt (by decide) n d (List.mem_reverse.1 hd), rfl⟩

theorem natStr_cons (n : Nat) : ∃ d rest, d < 10 ∧ natStr n = .chr (48 + d) :: rest := by
  obtain ⟨c, hc, h1, h2⟩ := head_natStr n
  cases h : natStr n with
  | nil => rw [h] at hc; cases hc
  | cons x rest =>
      rw [h] at hc
      obtain rfl : x = .chr c := Option.some.inj hc
      refine ⟨c - 48, rest, by omega, ?_⟩
      rw [show 48 + (c - 48) = c by omega]

/-- **The text of a number reads back as the number.** -/
theorem atoi_sprintfD (n : Int) : atoi (sprintfD n) = n := by
  obtain ⟨d, rest, hd, hn⟩ := natStr_cons n.natAbs
  unfold sprintfD atoi
  by_cases h : n < 0
  · rw [if_pos h]
    have hdrop : (MChar.chr 45 :: natStr n.natAbs).dropWhile isSpace = .chr 45 :: natStr n.natAbs :=
      rfl
    rw [hdrop]
    simp only [toNat_natStr]
    omega
  · have hspace : isSpace (.chr (48 + d)) = false := by
      simp only [isSpace, decide_eq_false_iff_not]
      omega
    have hdrop : (natStr n.natAbs).dropWhile isSpace = natStr n.natAbs := by
      rw [hn, List.dropWhile_cons, hspace]
      rfl
    rw [if_neg h, hdrop]
    split
    · rename_i r he
      rw [hn] at he
      simp only [List.cons.injEq, MChar.chr.injEq] at he
      omega
    · rename_i r he
      rw [hn] at he
      simp only [List.cons.injEq, MChar.chr.injEq] at he
      omega
    · rw [toNat_natStr]
      omega

theorem sprintfD_inj {m n : Int} : sprintfD m = sprintfD n ↔ m = n := by
  constructor
  · intro h
    rw [← atoi_sprintfD m, h, atoi_sprintfD]
  · intro h
    rw [h]

theorem sprintfD_ne_nil (n : Int) : sprintfD n ≠ [] := by
  obtain ⟨d, rest, -, hn⟩ := natStr_cons n.natAbs
  unfold sprintfD
  split <;> simp [hn]

theorem bar_notMem_sprintfD (n : Int) : bar ∉ sprintfD n := by
  have hnat : bar ∉ natStr n.natAbs := by
    intro h
    obtain ⟨d, hd, he⟩ := natStr_digit _ _ h
    simp only [bar, MChar.chr.injEq] at he
    omega
  unfold sprintfD
  split
  · simp [bar] at hnat ⊢
    exact hnat
  · exact hnat

/-! ## 2. Tokens -/

/-- A text that begins with a token and a delimiter. -/
theorem strtok_append {p : MStr} (hp : bar ∉ p) (hne : p ≠ []) (s : MStr) :
    strtok (p ++ bar :: s) = some (p, s) := by
  cases p with
  | nil => exact absurd rfl hne
  | cons c p =>
      have hc : c ≠ bar := fun h => hp (by simp [h])
      have hdrop : ((c :: p) ++ bar :: s).dropWhile (fun c => c = bar) = (c :: p) ++ bar :: s := by
        simp [hc]
      unfold strtok
      rw [hdrop]
      simp only [List.cons_append]
      rw [← List.cons_append, beforeFirst_append hp, afterFirst_append hp]

/-- A text that is one token. -/
theorem strtok_last {p : MStr} (hp : bar ∉ p) (hne : p ≠ []) : strtok p = some (p, []) := by
  cases p with
  | nil => exact absurd rfl hne
  | cons c p =>
      have hc : c ≠ bar := fun h => hp (by simp [h])
      have hdrop : (c :: p).dropWhile (fun c => c = bar) = c :: p := by simp [hc]
      unfold strtok
      rw [hdrop]
      simp only [beforeFirst_of_notMem hp, afterFirst_of_notMem hp]

end YottaTest.SimpleApi
