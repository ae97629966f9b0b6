/-
  File:      YottaTest/Mupjnl/DeltaTime.lean
  Subject:   delta_time.awk: a product of two numbers as "0 h:m:s".

  The product is cut at its decimal point as a text, which awk makes of a number that is not whole by
  rounding it to six significant digits; what the cut leaves is split by two remainders. The hours are
  divided by 60 instead of 3600. awk's numbers are doubles: the product of two is rounded, and so is a
  quotient; a remainder is exact.

  * `shown` -- the text of a number;
  * `deltaTime` -- the script;
  * `whole_shown` -- with a point and no exponent the whole part is shown;
  * `hours_shown` -- an hour and more comes out as too many;
  * `deltaTime_iff` -- when the line denotes the whole part of a product that is exact;
  * `times_iff` -- **with the seconds between two times: when both scripts are exact.**
-/
import Mathlib.Data.List.DropRight
import YottaTest.Lib.Decimal
import YottaTest.Mupjnl.DiffTime

namespace YottaTest.Mupjnl

open YottaTest.Lib

/-! ## 1. Numbers as texts -/

/-- A number as a text: what stands in front of the point and behind it, and the power of ten. -/
structure Shown where
  whole : Text
  frac : Text
  power : Text
  deriving DecidableEq, Repr

def Shown.text (s : Shown) : Text := s.whole ++ (if s.frac = [] then [] else '.' :: s.frac) ++ s.power

/-- Digits behind a point, without zeros at the end. -/
def stripZeros (t : Text) : Text := t.rdropWhile (· = '0')

/-- The sign and the digits of an exponent, two at least. -/
def powerText (first : Int) : Text := 'e' :: (if first < 0 then '-' else '+') :: twoDigits first.natAbs

/-- A number as awk makes a text of it: a whole number with all its digits, another one by "%.6g". -/
def shown (p : Decimal) : Shown :=
  if p.IsWhole then ⟨Nat.toDigits 10 p.floor, [], []⟩
  else
    let (six, first) := p.rounded
    let ds := Nat.toDigits 10 six
    if first < -4 ∨ 6 ≤ first then ⟨ds.take 1, stripZeros (ds.drop 1), powerText first⟩
    else if first < 0 then
      ⟨['0'], stripZeros (List.replicate (-first - 1).toNat '0' ++ ds), []⟩
    else ⟨ds.take (first.toNat + 1), stripZeros (ds.drop (first.toNat + 1)), []⟩

/-! ## 2. The script -/

/-- `gsub(/\..*/,"",input)`: the whole number that is left, or the number itself if its text has no
    point. -/
def cut (input : Decimal) : Decimal :=
  let t := (shown input).text
  if '.' ∈ t then ⟨Nat.ofDigitChars 10 (t.takeWhile fun ch => ch ≠ '.') 0, 0⟩ else input

/-- `(input - x) / 60`, where `x` is the remainder of the division by `n`. -/
def sixtieth (input : Decimal) (n : Nat) : Decimal :=
  let input := Decimal.toDouble (n * input.div n) 1
  Decimal.toDouble input.mant (60 * 10 ^ input.scale)

/-- The line for a number that has been cut. -/
def hms (input : Decimal) : Text :=
  let h := sixtieth input 3600
  let input := input.mod 3600
  let m := sixtieth input 60
  let s := input.mod 60
  "0 ".toList ++ (shown h).text ++ ':' :: (shown m).text ++ ':' :: (shown s).text

/-- The script on a record with two numbers: the line it prints, if the product is not too large. -/
def deltaTime (input multiply : Decimal) : Option Text :=
  (input.times multiply).map fun input => hms (cut input)

/-- The line that denotes so many seconds. -/
def Denotes (line : Text) (seconds : Nat) : Prop :=
  ∃ h m s, line = "0 ".toList ++ Nat.toDigits 10 h ++ ':' :: Nat.toDigits 10 m ++ ':' :: Nat.toDigits 10 s ∧
    m < 60 ∧ s < 60 ∧ 3600 * h + 60 * m + s = seconds

/-! ## 3. Lines -/

/-- Without colons in it, hours, minutes and seconds are what stands between the colons. -/
theorem denotes_iff {th tm ts : Text} (hh : ':' ∉ th) (hm : ':' ∉ tm) (seconds : Nat) :
    Denotes ("0 ".toList ++ th ++ ':' :: tm ++ ':' :: ts) seconds ↔
      ∃ h m s, th = Nat.toDigits 10 h ∧ tm = Nat.toDigits 10 m ∧ ts = Nat.toDigits 10 s ∧
        m < 60 ∧ s < 60 ∧ 3600 * h + 60 * m + s = seconds := by
  have hcolon : ∀ n, ':' ∉ Nat.toDigits 10 n := notMem_toDigits (by decide)
  constructor
  · intro hd
    obtain ⟨h, m, s, hline, hlt, hs, hsum⟩ := hd
    rw [List.append_assoc, List.append_assoc, List.append_assoc, List.append_assoc] at hline
    have hrest := List.append_cancel_left hline
    have hth := congrArg (beforeFirst ':') hrest
    have hrest := congrArg (afterFirst ':') hrest
    simp only [List.cons_append, beforeFirst_append hh, beforeFirst_append (hcolon h),
      afterFirst_append hh, afterFirst_append (hcolon h)] at hth hrest
    have htm := congrArg (beforeFirst ':') hrest
    have hrest := congrArg (afterFirst ':') hrest
    rw [beforeFirst_append hm, beforeFirst_append (hcolon m)] at htm
    rw [afterFirst_append hm, afterFirst_append (hcolon m)] at hrest
    exact ⟨h, m, s, hth, htm, hrest, hlt, hs, hsum⟩
  · intro hd
    obtain ⟨h, m, s, rfl, rfl, rfl, hlt, hs, hsum⟩ := hd
    exact ⟨h, m, s, rfl, hlt, hs, hsum⟩

/-! ## 4. The text of a number -/

theorem isDigit_toDigits {n : Nat} : ∀ ch ∈ Nat.toDigits 10 n, ch.isDigit = true := fun _ h =>
  Nat.isDigit_of_mem_toDigits (by decide) (by decide) h

theorem stripZeros_eq_nil_iff {t : Text} : stripZeros t = [] ↔ ∀ ch ∈ t, ch = '0' := by
  unfold stripZeros
  rw [List.rdropWhile_eq_nil_iff]
  simp

/-- The digits of a number that is not whole, before the zeros at the end go. -/
theorem shown_of_not_whole {p : Decimal} (h : ¬ p.IsWhole) :
    shown p = 
      let ds := Nat.toDigits 10 p.rounded.1
      if p.rounded.2 < -4 ∨ 6 ≤ p.rounded.2 then
        ⟨ds.take 1, stripZeros (ds.drop 1), powerText p.rounded.2⟩
      else if p.rounded.2 < 0 then
        ⟨['0'], stripZeros (List.replicate (-p.rounded.2 - 1).toNat '0' ++ ds), []⟩
      else ⟨ds.take (p.rounded.2.toNat + 1), stripZeros (ds.drop (p.rounded.2.toNat + 1)), []⟩ := by
  rw [shown, if_neg h]

theorem isDigit_stripZeros {t : Text} (h : ∀ ch ∈ t, ch.isDigit = true) :
    ∀ ch ∈ stripZeros t, ch.isDigit = true := fun ch hch =>
  h ch ((List.rdropWhile_prefix _ t).sublist.subset hch)

theorem notMem_powerText {c : Char} (hc : c.isDigit = false) (hsign : c ≠ 'e' ∧ c ≠ '-' ∧ c ≠ '+')
    (first : Int) : c ∉ powerText first := by
  have hdigits : c ∉ twoDigits first.natAbs := notMem_of_digits (fun _ => isDigit_twoDigits) hc
  have hne : c ≠ (if first < 0 then '-' else '+') := by
    split
    · exact hsign.2.1
    · exact hsign.2.2
  exact List.not_mem_cons_of_ne_of_not_mem hsign.1 (List.not_mem_cons_of_ne_of_not_mem hne hdigits)

/-- Only digits stand around the point. -/
theorem isDigit_shown (p : Decimal) :
    (∀ ch ∈ (shown p).whole, ch.isDigit = true) ∧ (∀ ch ∈ (shown p).frac, ch.isDigit = true) ∧
      ((shown p).power = [] ∨ ∃ first, (shown p).power = powerText first) := by
  have htake : ∀ n k, ∀ ch ∈ (Nat.toDigits 10 n).take k, ch.isDigit = true := fun _ _ ch hch =>
    isDigit_toDigits ch (List.mem_of_mem_take hch)
  have hdrop : ∀ n k, ∀ ch ∈ (Nat.toDigits 10 n).drop k, ch.isDigit = true := fun _ _ ch hch =>
    isDigit_toDigits ch (List.mem_of_mem_drop hch)
  by_cases h : p.IsWhole
  · rw [shown, if_pos h]
    exact ⟨isDigit_toDigits, fun _ h => absurd h List.not_mem_nil, Or.inl rfl⟩
  · rw [shown_of_not_whole h]
    simp only
    split
    · exact ⟨htake _ _, isDigit_stripZeros (hdrop _ _), Or.inr ⟨_, rfl⟩⟩
    · split
      · refine ⟨fun ch hch => by rw [List.mem_singleton.1 hch]; decide, isDigit_stripZeros fun ch hch => ?_,
          Or.inl rfl⟩
        rcases List.mem_append.1 hch with hch | hch
        · rw [List.eq_of_mem_replicate hch]
          decide
        · exact isDigit_toDigits ch hch
      · exact ⟨htake _ _, isDigit_stripZeros (hdrop _ _), Or.inl rfl⟩

theorem notMem_power {c : Char} (hc : c.isDigit = false) (hsign : c ≠ 'e' ∧ c ≠ '-' ∧ c ≠ '+')
    (p : Decimal) : c ∉ (shown p).power := by
  rcases (isDigit_shown p).2.2 with h | ⟨first, h⟩
  · rw [h]
    exact List.not_mem_nil
  · rw [h]
    exact notMem_powerText hc hsign first

/-- No text of a number has a colon. -/
theorem colon_notMem_shown (p : Decimal) : ':' ∉ (shown p).text := by
  obtain ⟨hwhole, hfrac, -⟩ := isDigit_shown p
  have hwhole : ':' ∉ (shown p).whole := notMem_of_digits hwhole (by decide)
  have hfrac : ':' ∉ (shown p).frac := notMem_of_digits hfrac (by decide)
  have hpower : ':' ∉ (shown p).power := notMem_power (by decide) (by decide) p
  unfold Shown.text
  by_cases h : (shown p).frac = []
  · simp [h, hwhole, hpower]
  · simp [h, hwhole, hfrac, hpower]

/-- There is a point in the text exactly when there are digits behind it. -/
theorem point_mem_iff (p : Decimal) : '.' ∈ (shown p).text ↔ (shown p).frac ≠ [] := by
  have hwhole : '.' ∉ (shown p).whole := notMem_of_digits (isDigit_shown p).1 (by decide)
  have hpower : '.' ∉ (shown p).power := notMem_power (by decide) (by decide) p
  unfold Shown.text
  by_cases h : (shown p).frac = []
  · simp [h, hwhole, hpower]
  · simp [h]

/-- The cut leaves the digits in front of the point, as a number. -/
theorem cut_eq (p : Decimal) : cut p =
    if (shown p).frac ≠ [] then ⟨Nat.ofDigitChars 10 (shown p).whole 0, 0⟩ else p := by
  have hwhole : '.' ∉ (shown p).whole := notMem_of_digits (isDigit_shown p).1 (by decide)
  unfold cut
  simp only [point_mem_iff]
  by_cases h : (shown p).frac = []
  · rw [if_neg (by simpa using h), if_neg (by simpa using h)]
  · have htext : (shown p).text = (shown p).whole ++ '.' :: ((shown p).frac ++ (shown p).power) := by
      simp [Shown.text, h]
    have hcut : (shown p).text.takeWhile (fun ch => ch ≠ '.') = (shown p).whole := by
      rw [htext]
      exact beforeFirst_append hwhole _
    rw [if_pos h, if_pos h, hcut]

/-- **With a point and no exponent the whole part is shown.** -/
theorem whole_shown {p : Decimal} (h : ¬ p.IsWhole) (hfrac : (shown p).frac ≠ [])
    (hpower : (shown p).power = []) : Nat.ofDigitChars 10 (shown p).whole 0 = p.floor := by
  have hmant := Decimal.mant_pos h
  have hlen := Decimal.length_rounded hmant
  have hbounds := Decimal.leading_bounds p
  rw [shown_of_not_whole h] at hfrac hpower ⊢
  simp only at hfrac hpower ⊢
  split at hpower
  · exact absurd hpower (List.cons_ne_nil _ _)
  · rename_i hrange
    rw [if_neg hrange] at hfrac ⊢
    by_cases hneg : p.rounded.2 < 0
    · rw [if_pos hneg, Decimal.floor_eq_zero hmant (by omega)]
      rfl
    · rw [if_neg hneg] at hfrac ⊢
      obtain ⟨htake, hdrop⟩ := ofDigitChars_take_drop p.rounded.1 (p.rounded.2.toNat + 1)
      have hexp : 6 - (p.rounded.2.toNat + 1) = (5 - p.rounded.2).toNat := by omega
      rw [hlen, hexp] at htake hdrop
      have hdigits : ∀ ch ∈ (Nat.toDigits 10 p.rounded.1).drop (p.rounded.2.toNat + 1),
          ch.isDigit = true := fun ch hch => isDigit_toDigits ch (List.mem_of_mem_drop hch)
      rw [htake]
      refine Decimal.rounded_div (by omega) (by omega) ?_
      rw [← hdrop, ne_eq, ofDigitChars_eq_zero_iff hdigits]
      exact fun hzeros => hfrac (stripZeros_eq_nil_iff.2 hzeros)

/-- **With an exponent another number is shown**, a single digit. -/
theorem whole_shown_ne {p : Decimal} (h : ¬ p.IsWhole) (hpower : (shown p).power ≠ []) :
    Nat.ofDigitChars 10 (shown p).whole 0 < 10 ∧ Nat.ofDigitChars 10 (shown p).whole 0 ≠ p.floor := by
  have hmant := Decimal.mant_pos h
  have hlen := Decimal.length_rounded hmant
  have hbounds := Decimal.leading_bounds p
  obtain ⟨hle, hlt⟩ := Decimal.rounded_spec hmant
  rw [shown_of_not_whole h] at hpower ⊢
  simp only at hpower ⊢
  split at hpower
  · rename_i hrange
    have htake := (ofDigitChars_take_drop p.rounded.1 1).1
    rw [hlen] at htake
    rw [if_pos hrange]
    simp only
    rw [htake]
    refine ⟨by omega, ?_⟩
    rcases hrange with hrange | hrange
    · rw [Decimal.floor_eq_zero hmant (by omega)]
      omega
    · have := Decimal.le_floor hmant (by omega)
      omega
  · split at hpower
    · exact absurd rfl hpower
    · exact absurd rfl hpower

/-! ## 5. Whole seconds -/

/-- The condition: less than an hour, and the text of the product has a point and no exponent, or it has
    no point and the seconds come out as whole ones. -/
def Exact (p : Decimal) : Prop :=
  p.floor < 3600 ∧
    if (shown p).frac ≠ [] then (shown p).power = []
    else (shown (p.mod 60)).text = Nat.toDigits 10 (p.floor % 60)

theorem shown_whole {p : Decimal} (h : p.IsWhole) : (shown p).text = Nat.toDigits 10 p.floor := by
  rw [shown, if_pos h]
  simp [Shown.text]

/-- A large number that is not whole is shown with an exponent. -/
theorem shown_large {p : Decimal} (h : ¬ p.IsWhole) (hlarge : 10 ^ 6 ≤ p.floor) (n : Nat) :
    (shown p).text ≠ Nat.toDigits 10 n := by
  have hmant := Decimal.mant_pos h
  have hleading : 6 ≤ p.rounded.2 := Int.le_trans (Decimal.six_le_leading hmant hlarge) (Decimal.leading_bounds p).1
  have hpower : 'e' ∈ (shown p).text := by
    rw [shown_of_not_whole h]
    simp only [if_pos (Or.inr hleading), Shown.text, powerText, List.mem_append, List.mem_cons, true_or,
      or_true]
  intro heq
  rw [heq] at hpower
  exact notMem_toDigits (by decide) n hpower

/-- Sixty times as many, if the number is a double. -/
theorem sixtieth_small {input : Decimal} {n k : Nat} (hn : n = k * 60) (h : n * input.div n < 2 ^ 53) :
    (shown (sixtieth input n)).text = Nat.toDigits 10 (k * input.div n) := by
  obtain ⟨i, hfirst⟩ := Decimal.toDouble_of_eq_mul Nat.one_pos (Nat.mul_one _).symm h
  have hmul : n * input.div n * 10 ^ i = k * input.div n * (60 * 10 ^ i) := by
    rw [hn]
    ring
  have hlt : k * input.div n < 2 ^ 53 := by
    refine Nat.lt_of_le_of_lt (Nat.mul_le_mul_right _ ?_) h
    omega
  obtain ⟨j, hsecond⟩ := Decimal.toDouble_of_eq_mul (Nat.mul_pos (by decide) (Nat.pow_pos (by decide))) hmul hlt
  have hsixtieth : sixtieth input n = ⟨k * input.div n * 10 ^ j, j⟩ := by
    unfold sixtieth
    rw [hfirst]
    exact hsecond
  have hwhole : (sixtieth input n).IsWhole := by
    rw [hsixtieth]
    exact Nat.mul_mod_left _ _
  rw [shown_whole hwhole, hsixtieth, Decimal.floor, Nat.mul_div_cancel _ (Nat.pow_pos (by decide))]

/-- The hours stay large when they are rounded. -/
theorem sixtieth_large {input : Decimal} (h : 2 ^ 53 ≤ 3600 * input.div 3600) :
    10 ^ 6 + input.div 3600 ≤ (sixtieth input 3600).floor := by
  have hfirst := Decimal.half_le_floor_toDouble (3600 * input.div 3600) Nat.one_pos
  rw [Nat.div_one] at hfirst
  unfold sixtieth
  simp only
  generalize Decimal.toDouble (3600 * input.div 3600) 1 = d at hfirst ⊢
  have hsecond : d.div 60 ≤ _ := Decimal.half_le_floor_toDouble d.mant
    (show 0 < 60 * 10 ^ d.scale from Nat.mul_pos (by decide) (Nat.pow_pos (by decide)))
  rw [Decimal.div_eq] at hsecond
  omega

/-- **An hour and more comes out as too many hours**, if they come out as digits. -/
theorem hours_shown {input : Decimal} (hle : 3600 ≤ input.floor) {h : Nat}
    (ht : (shown (sixtieth input 3600)).text = Nat.toDigits 10 h) : input.floor < 3600 * h := by
  have hdiv := Decimal.div_eq input 3600
  by_cases hsmall : 3600 * input.div 3600 < 2 ^ 53
  · rw [sixtieth_small (show 3600 = 60 * 60 from rfl) hsmall] at ht
    have := toDigits_inj ht
    omega
  · have hlarge := sixtieth_large (Nat.not_lt.1 hsmall)
    by_cases hwhole : (sixtieth input 3600).IsWhole
    · rw [shown_whole hwhole] at ht
      have := toDigits_inj ht
      omega
    · exact absurd ht (shown_large hwhole (by omega) h)

/-- The line is right below an hour if the seconds are. -/
theorem hms_denotes {input : Decimal} (hlt : input.floor < 3600) (seconds : Nat) :
    Denotes (hms input) seconds ↔ ∃ s, (shown (input.mod 60)).text = Nat.toDigits 10 s ∧ s < 60 ∧
      60 * (input.floor / 60) + s = seconds := by
  have hzero : input.div 3600 = 0 := by
    rw [Decimal.div_eq]
    exact Nat.div_eq_of_lt hlt
  have hminutes : (input.mod 3600).div 60 = input.floor / 60 := by
    rw [Decimal.div_eq, Decimal.floor_mod, Nat.mod_eq_of_lt hlt]
  unfold hms
  simp only
  rw [denotes_iff (colon_notMem_shown _) (colon_notMem_shown _), Decimal.mod_mod _ (by decide),
    sixtieth_small (show 3600 = 60 * 60 from rfl) (by rw [hzero]; decide),
    sixtieth_small (show 60 = 1 * 60 from rfl) (by rw [hminutes]; omega), hzero, hminutes, Nat.one_mul]
  constructor
  · intro hd
    obtain ⟨h, m, s, hh, hm, hs, -, hs60, hsum⟩ := hd
    have hh := toDigits_inj hh
    have hm := toDigits_inj hm
    exact ⟨s, hs, hs60, by omega⟩
  · intro hd
    obtain ⟨s, hs, hs60, hsum⟩ := hd
    exact ⟨0, input.floor / 60, s, rfl, rfl, hs, by omega, hs60, by omega⟩

/-- The line is wrong from an hour on. -/
theorem hms_wrong {input : Decimal} (hle : 3600 ≤ input.floor) : ¬ Denotes (hms input) input.floor := by
  intro hd
  unfold hms at hd
  simp only at hd
  rw [denotes_iff (colon_notMem_shown _) (colon_notMem_shown _)] at hd
  obtain ⟨h, m, s, hh, -, -, -, -, hsum⟩ := hd
  have := hours_shown hle hh
  omega

/-- A cut leaves a whole number. -/
theorem hms_cut {k : Nat} (hk : k < 3600) (seconds : Nat) : Denotes (hms ⟨k, 0⟩) seconds ↔ k = seconds := by
  have hfloor : (⟨k, 0⟩ : Decimal).floor = k := Nat.div_one k
  have hwhole : ((⟨k, 0⟩ : Decimal).mod 60).IsWhole := (Decimal.isWhole_mod _ 60).2 (Nat.mod_one k)
  rw [hms_denotes (by rw [hfloor]; exact hk), shown_whole hwhole, Decimal.floor_mod, hfloor]
  constructor
  · intro h
    obtain ⟨s, hs, -, hsum⟩ := h
    have := toDigits_inj hs
    omega
  · intro h
    exact ⟨k % 60, rfl, by omega, by omega⟩

/-- **The line denotes the whole part of a product under that condition, and under no other.** -/
theorem hms_iff (p : Decimal) : Denotes (hms (cut p)) p.floor ↔ Exact p := by
  unfold Exact
  rw [cut_eq]
  by_cases hfrac : (shown p).frac = []
  · -- no point: the seconds are what is left of the product itself
    rw [if_neg (by simpa using hfrac), if_neg (by simpa using hfrac)]
    by_cases hlt : p.floor < 3600
    · rw [hms_denotes hlt]
      constructor
      · intro h
        obtain ⟨s, hs, -, hsum⟩ := h
        have hmod : s = p.floor % 60 := by omega
        rw [hs, hmod]
        exact ⟨hlt, rfl⟩
      · intro h
        exact ⟨p.floor % 60, h.2, by omega, by omega⟩
    · exact iff_of_false (hms_wrong (by omega)) fun h => hlt h.1
  · have hnot : ¬ p.IsWhole := fun hw => hfrac (by rw [shown, if_pos hw])
    rw [if_pos hfrac, if_pos hfrac]
    by_cases hpower : (shown p).power = []
    · rw [whole_shown hnot hfrac hpower]
      by_cases hlt : p.floor < 3600
      · exact iff_of_true ((hms_cut hlt _).2 rfl) ⟨hlt, hpower⟩
      · have hfloor : (⟨p.floor, 0⟩ : Decimal).floor = p.floor := Nat.div_one _
        have hwrong := hms_wrong (show 3600 ≤ (⟨p.floor, 0⟩ : Decimal).floor by omega)
        rw [hfloor] at hwrong
        exact iff_of_false hwrong fun h => hlt h.1
    · obtain ⟨hten, hne⟩ := whole_shown_ne hnot hpower
      rw [hms_cut (by omega)]
      exact iff_of_false hne fun h => hpower h.2

/-! Two forms of one number have the same text. -/

theorem shown_scaled (p : Decimal) (d : Nat) : shown (p.scaled d) = shown p := by
  by_cases h : p.IsWhole
  · rw [shown, shown, if_pos ((Decimal.isWhole_scaled p d).2 h), if_pos h, Decimal.floor_scaled]
  · rw [shown_of_not_whole h, shown_of_not_whole fun hs => h ((Decimal.isWhole_scaled p d).1 hs),
      Decimal.rounded_scaled (Decimal.mant_pos h)]

theorem exact_scaled (p : Decimal) (d : Nat) : Exact (p.scaled d) ↔ Exact p := by
  unfold Exact
  rw [Decimal.floor_scaled, Decimal.mod_scaled, shown_scaled, shown_scaled]

/-- awk's product of the two numbers is their product. -/
def Multiplied (input multiply : Decimal) : Prop :=
  ∃ p ∈ input.times multiply, p.Same (input.mul multiply)

instance (input multiply : Decimal) : Decidable (Multiplied input multiply) := by
  unfold Multiplied
  exact inferInstance

/-- The script prints a line, and it denotes so many seconds. -/
def Prints (input multiply : Decimal) (seconds : Nat) : Prop :=
  ∃ line ∈ deltaTime input multiply, Denotes line seconds

/-- **The script prints the whole part of a product that is exact under that condition, and under no
other.** -/
theorem deltaTime_iff {input multiply : Decimal} (h : Multiplied input multiply) :
    Prints input multiply (input.mul multiply).floor ↔ Exact (input.mul multiply) := by
  obtain ⟨p, hp, hsame⟩ := h
  generalize input.mul multiply = q at hsame
  have hfloor : q.floor = p.floor := by
    rw [← Decimal.floor_scaled q p.scale, ← hsame.scaled_eq, Decimal.floor_scaled]
  have hexact : Exact q ↔ Exact p := by
    rw [← exact_scaled q p.scale, ← hsame.scaled_eq, exact_scaled]
  rw [hexact, hfloor, ← hms_iff]
  unfold Prints deltaTime
  rw [Option.mem_def.1 hp]
  simp

/-! ## 6. The two scripts -/

/-- **The seconds between two times within 24 hours, and a product as hours, minutes and seconds: each
    script is exact under its condition, and under no other.** -/
theorem times_iff (b f : Moment) {input multiply : Decimal} (h₀ : b.instant ≤ f.instant)
    (h₁ : f.instant ≤ b.instant + 86400) (h₂ : Multiplied input multiply) :
    (diffTime (line b f) = intText (f.instant - b.instant) ↔
      ¬ (b.month = 2 ∧ b.day = 29 ∧ f.month = 3)) ∧
    (Prints input multiply (input.mul multiply).floor ↔ Exact (input.mul multiply)) :=
  ⟨diffTime_iff b f h₀ h₁, deltaTime_iff h₂⟩

/-- One second before midnight on February 29, 2004. -/
def leapEve : Moment where
  year := 2004
  month := 2
  day := 29
  month_pos := by decide
  month_le := by decide
  day_pos := by decide
  day_le := by decide
  hour := 23
  minute := 59
  second := 59
  fraction := ['5', '0']
  hour_lt := by decide
  minute_lt := by decide
  second_lt := by decide
  isDigit_fraction := List.all_eq_true.1 (by decide)

/-- One second after it. -/
def marchFirst : Moment where
  year := 2004
  month := 3
  day := 1
  month_pos := by decide
  month_le := by decide
  day_pos := by decide
  day_le := by decide
  hour := 0
  minute := 0
  second := 1
  fraction := ['0', '0']
  hour_lt := by decide
  minute_lt := by decide
  second_lt := by decide
  isDigit_fraction := List.all_eq_true.1 (by decide)

theorem leap_second : leapEve.instant ≤ marchFirst.instant ∧ marchFirst.instant ≤ leapEve.instant + 86400 := by
  decide +kernel

theorem times_iff_leap :
    (diffTime (line leapEve marchFirst) = intText (marchFirst.instant - leapEve.instant) ↔
      ¬ (leapEve.month = 2 ∧ leapEve.day = 29 ∧ marchFirst.month = 3)) ∧
    (Prints ⟨100, 0⟩ ⟨5, 1⟩ ((⟨100, 0⟩ : Decimal).mul ⟨5, 1⟩).floor ↔
      Exact ((⟨100, 0⟩ : Decimal).mul ⟨5, 1⟩)) :=
  times_iff leapEve marchFirst leap_second.1 leap_second.2 (by decide +kernel)

/-- Two seconds around the end of a leap day, and two hours. -/
theorem times_differ :
    ¬ diffTime (line leapEve marchFirst) = intText (marchFirst.instant - leapEve.instant) ∧
    Multiplied ⟨7200, 0⟩ ⟨1, 0⟩ ∧ ¬ Prints ⟨7200, 0⟩ ⟨1, 0⟩ ((⟨7200, 0⟩ : Decimal).mul ⟨1, 0⟩).floor := by
  have hmul : Multiplied ⟨7200, 0⟩ ⟨1, 0⟩ := by decide +kernel
  refine ⟨fun h => ?_, hmul, fun h => ?_⟩
  · exact (diffTime_iff leapEve marchFirst leap_second.1 leap_second.2).1 h ⟨rfl, rfl, rfl⟩
  · exact absurd ((deltaTime_iff hmul).1 h).1 (by decide)

end YottaTest.Mupjnl
