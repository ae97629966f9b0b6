/-
  File:      YottaTest/Convbase/Generators.lean
  Subject:   gtm9115.m: the random inputs of an exact length.

  The octal and the hexadecimal input are drawn digit by digit. Of the decimal input the digits behind
  the first one are a single draw, below 10*(n-1) instead of 10**(n-1).

  * `Draws`, `random` -- the outcomes of `$random`, any sequence of them;
  * `getrandnumdecexactlen`, `getrandnumoctexactlen`, `getrandnumhexexactlen` -- the generators;
  * `Covers` -- what is drawn are the numerals of n digits without a leading zero, and all of them;
  * `octexactlen_covers`, `hexexactlen_covers` -- digit by digit that is so for every length;
  * `exactlen_covers_iff` -- **the decimal generator meets it for two digits only.**
-/
import YottaTest.Convbase.Numerals

namespace YottaTest.Convbase

/-! ## 1. The generators -/

/-- What `$random` gives one call after the other; a call takes of it what its bound leaves. -/
abbrev Draws := Nat → Nat

/-- `$random(m)`, and the draws after it. -/
def random (m : Nat) (s : Draws) : Nat × Draws := (s 0 % m, fun i => s (i + 1))

/-- `set num=num_…`, one digit for each turn of `for i=1:1:n-1`. -/
def drawDigits (base : Nat) (digit : Nat → Text) : Nat → Draws → Text → Text
  | 0, _, num => num
  | k + 1, s, num =>
      let (i, s) := random base s
      drawDigits base digit k s (num ++ digit i)

/-- `getrandnumdecexactlen(n)` -/
def getrandnumdecexactlen (n : Nat) (s : Draws) : Text :=
  if n < 2 then Nat.toDigits 10 (random 10 s).1
  else
    let (first, s) := random 9 s
    let (tail, _) := random (10 * (n - 1)) s
    Nat.toDigits 10 (first + 1) ++ Nat.toDigits 10 tail

/-- `getrandnumoctexactlen(n)` -/
def getrandnumoctexactlen (n : Nat) (s : Draws) : Text :=
  if n < 2 then Nat.toDigits 10 (random 8 s).1
  else
    let (first, s) := random 7 s
    drawDigits 8 (Nat.toDigits 10) (n - 1) s (Nat.toDigits 10 (first + 1))

/-- `set char=i` and `set:i>9 char=$char((i#10)+asciofa)` -/
def hexChar (i : Nat) : Text := if i > 9 then [Char.ofNat (i % 10 + 'A'.toNat)] else Nat.toDigits 10 i

/-- `getrandnumhexexactlen(n)` -/
def getrandnumhexexactlen (n : Nat) (s : Draws) : Text :=
  let (first, s) := random 15 s
  if n < 2 then hexChar (first + 1) else drawDigits 16 hexChar (n - 1) s (hexChar (first + 1))

/-! ## 2. What they are to give -/

/-- A numeral of `n` digits without a leading zero. -/
def IsNumeral (base n : Nat) (t : Text) : Prop :=
  t.length = n ∧ (∀ ch ∈ t, ch ∈ valbasechar base) ∧ t.head? ≠ some '0'

/-- Whatever is drawn is such a numeral, and there is a draw for each of them. -/
def Covers (base n : Nat) (generator : Draws → Text) : Prop :=
  (∀ s, IsNumeral base n (generator s)) ∧ ∀ t, IsNumeral base n t → ∃ s, generator s = t

/-! ## 3. Digit by digit -/

section Digits

variable {base : Nat} (hb : base ≤ 16) {digit : Nat → Text} (hdigit : ∀ i < base, digit i = [d i])

include hdigit in
/-- **The turns append one digit each, the ones that are drawn.** -/
theorem drawDigits_eq (hpos : 0 < base) : ∀ (k : Nat) (s : Draws) (num : Text),
    drawDigits base digit k s num = num ++ (List.range k).map fun i => d (s i % base)
  | 0, s, num => by simp [drawDigits]
  | k + 1, s, num => by
      show drawDigits base digit k (fun i => s (i + 1)) (num ++ digit (s 0 % base)) = _
      rw [drawDigits_eq hpos k, hdigit _ (Nat.mod_lt _ hpos), List.range_succ_eq_map, List.append_assoc]
      simp [Function.comp_def]

/-- The digits of a text, drawn: the first one below the bound of a digit that is not 0. -/
def drawsOf : Text → Draws
  | [], _ => 0
  | ch :: _, 0 => digitChars.idxOf ch - 1
  | _ :: rest, i + 1 => digitChars.idxOf (rest.getD i '0')

include hb hdigit in
/-- **A first digit that is not 0 and the others one by one: all numerals of that many digits.** -/
theorem digitByDigit_covers (htwo : 2 ≤ base) (k : Nat) :
    Covers base (k + 1) fun s => drawDigits base digit k (fun i => s (i + 1))
      (digit (s 0 % (base - 1) + 1)) := by
  have hfirst : ∀ s : Draws, s 0 % (base - 1) + 1 < base := fun s => by
    have := Nat.mod_lt (s 0) (show 0 < base - 1 by omega)
    omega
  have hdrawn : ∀ s : Draws, drawDigits base digit k (fun i => s (i + 1))
      (digit (s 0 % (base - 1) + 1)) =
        d (s 0 % (base - 1) + 1) :: (List.range k).map fun i => d (s (i + 1) % base) := by
    intro s
    rw [drawDigits_eq hdigit (by omega), hdigit _ (hfirst s)]
    rfl
  simp only [hdrawn]
  constructor
  · intro s
    refine ⟨by simp, ?_, ?_⟩
    · intro ch hch
      rcases List.mem_cons.1 hch with rfl | hch
      · exact d_mem_valbasechar hb (hfirst s)
      · obtain ⟨i, -, rfl⟩ := List.mem_map.1 hch
        exact d_mem_valbasechar hb (Nat.mod_lt _ (by omega))
    · intro hzero
      have hd : d (s 0 % (base - 1) + 1) = '0' := by simpa using hzero
      have hc := c_d (show s 0 % (base - 1) + 1 < 16 from Nat.lt_of_lt_of_le (hfirst s) hb)
      rw [hd, show c '0' = some 0 from rfl] at hc
      exact absurd (Option.some.inj hc) (by omega)
  · intro t ht
    obtain ⟨hlen, hmem, hhead⟩ := ht
    cases t with
    | nil => exact absurd hlen (by simp)
    | cons ch rest =>
        have hch := hmem ch List.mem_cons_self
        have hne : digitChars.idxOf ch ≠ 0 := fun h =>
          hhead (by rw [(idxOf_eq_zero_iff (List.mem_of_mem_take hch)).1 h]; rfl)
        have hlt := idxOf_lt hch
        refine ⟨drawsOf (ch :: rest), ?_⟩
        have hone : drawsOf (ch :: rest) 0 % (base - 1) + 1 = digitChars.idxOf ch := by
          rw [drawsOf, Nat.mod_eq_of_lt (by omega)]
          omega
        have hrest : ((List.range k).map fun i => d (drawsOf (ch :: rest) (i + 1) % base)) = rest := by
          have hk : k = rest.length := by simpa using hlen.symm
          refine List.ext_getElem (by simp [hk]) fun i hi hi' => ?_
          have hget := hmem _ (List.mem_cons_of_mem ch (List.getElem_mem hi'))
          rw [List.getElem_map, List.getElem_range, drawsOf, List.getD_eq_getElem?_getD,
            List.getElem?_eq_getElem hi', Option.getD_some, Nat.mod_eq_of_lt (idxOf_lt hget),
            d_idxOf (List.mem_of_mem_take hget)]
        show d _ :: _ = ch :: rest
        rw [hone, hrest, d_idxOf (List.mem_of_mem_take hch)]

end Digits

/-! ## 4. The three generators -/

theorem octexactlen_covers {n : Nat} (hn : 2 ≤ n) : Covers 8 n (getrandnumoctexactlen n) := by
  have hdigit : ∀ i < 8, Nat.toDigits 10 i = [d i] := by decide
  have hcovers := digitByDigit_covers (by decide) hdigit (by decide) (n - 1)
  have hgen : getrandnumoctexactlen n = fun s => drawDigits 8 (Nat.toDigits 10) (n - 1)
      (fun i => s (i + 1)) (Nat.toDigits 10 (s 0 % (8 - 1) + 1)) := by
    funext s
    rw [getrandnumoctexactlen, if_neg (by omega)]
    rfl
  rw [hgen]
  rwa [Nat.sub_add_cancel (by omega)] at hcovers

theorem hexexactlen_covers {n : Nat} (hn : 2 ≤ n) : Covers 16 n (getrandnumhexexactlen n) := by
  have hdigit : ∀ i < 16, hexChar i = [d i] := by decide
  have hcovers := digitByDigit_covers (by decide) hdigit (by decide) (n - 1)
  have hgen : getrandnumhexexactlen n = fun s => drawDigits 16 hexChar (n - 1)
      (fun i => s (i + 1)) (hexChar (s 0 % (16 - 1) + 1)) := by
    funext s
    show (if n < 2 then _ else _) = _
    rw [if_neg (by omega)]
  rw [hgen]
  rwa [Nat.sub_add_cancel (by omega)] at hcovers

/-- A first digit and one more. -/
theorem decexactlen_two (s : Draws) :
    getrandnumdecexactlen 2 s = drawDigits 10 (Nat.toDigits 10) 1 (fun i => s (i + 1))
      (Nat.toDigits 10 (s 0 % (10 - 1) + 1)) := rfl

/-- With 0 drawn behind the first digit the text has two digits, whatever was asked for. -/
theorem decexactlen_length {n : Nat} (hn : 2 ≤ n) :
    (getrandnumdecexactlen n fun _ => 0).length = 2 := by
  rw [getrandnumdecexactlen, if_neg (by omega)]
  show (Nat.toDigits 10 (0 % 9 + 1) ++ Nat.toDigits 10 (0 % (10 * (n - 1)))).length = 2
  rw [Nat.zero_mod, Nat.zero_mod]
  rfl

theorem decexactlen_covers_iff {n : Nat} (hn : 2 ≤ n) :
    Covers 10 n (getrandnumdecexactlen n) ↔ n = 2 := by
  constructor
  · intro h
    have hlen := (h.1 fun _ => 0).1
    rw [decexactlen_length hn] at hlen
    exact hlen.symm
  · intro h
    subst h
    have hdigit : ∀ i < 10, Nat.toDigits 10 i = [d i] := by decide
    rw [funext decexactlen_two]
    exact digitByDigit_covers (by decide) hdigit (by decide) 1

/-- **The three generators give the numerals of exactly n digits without a leading zero, and all of
    them, for n = 2 only.** -/
theorem exactlen_covers_iff (n : Nat) (hn : 2 ≤ n) :
    (Covers 10 n (getrandnumdecexactlen n) ∧ Covers 8 n (getrandnumoctexactlen n) ∧
      Covers 16 n (getrandnumhexexactlen n)) ↔ n = 2 := by
  rw [decexactlen_covers_iff hn]
  exact and_iff_left ⟨octexactlen_covers hn, hexexactlen_covers hn⟩

theorem exactlen_covers_iff_eighteen :
    (Covers 10 18 (getrandnumdecexactlen 18) ∧ Covers 8 18 (getrandnumoctexactlen 18) ∧
      Covers 16 18 (getrandnumhexexactlen 18)) ↔ 18 = 2 :=
  exactlen_covers_iff 18 (by decide)

/-- Two digits where 18 were asked for. -/
theorem tail_below_ten_times : ¬ IsNumeral 10 18 (getrandnumdecexactlen 18 fun _ => 0) := by
  intro h
  exact absurd h.1 (by decide)

end YottaTest.Convbase
