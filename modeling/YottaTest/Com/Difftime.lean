/-
  File:      YottaTest/Com/Difftime.lean
  Subject:   difftime.m: seconds between two times in $HOROLOG format, and a time some seconds later.

  A time is the text of its day and of its second in the day with a comma between them. `addtime`
  carries or borrows one day at most.

  * `difftime`, `addtime` -- the two routines, on texts;
  * `horolog`, `Denotes` -- the text of a day and a second; the instant that a valid time stands for;
  * `addtime_horolog` -- the time that comes back, in the three branches;
  * `addtime_iff` -- **it is a valid time exactly when the seconds lead to the same day or to one next
    to it**, and the difference is then the seconds that were added.
-/
import YottaTest.Lib.Pieces
import YottaTest.M.Numbers

namespace YottaTest.Com

open YottaTest.Lib YottaTest.M

abbrev Text := List Char

/-! ## 1. The routines -/

/-- A piece in an arithmetic expression. -/
def number (t : Text) : Int := (readNumber t).toInt

/-- `difftime(x,y)`: the pieces are compared as texts, and subtracted as numbers. -/
def difftime (x y : Text) : Int :=
  let xpiece1 := piece ',' x 1
  let xpiece2 := piece ',' x 2
  let ypiece1 := piece ',' y 1
  let ypiece2 := piece ',' y 2
  let timediff :=
    if xpiece1 = ypiece1 then number xpiece2 - number ypiece2
    else (number xpiece1 - number ypiece1) * 24 * 60 * 60 + (number xpiece2 - number ypiece2)
  if timediff < 0 then timediff + 3600 else timediff

def maxsec : Int := 24 * 60 * 60

/-- `addtime(x,y)` -/
def addtime (x : Text) (y : Int) : Text :=
  let xpiece1 := piece ',' x 1
  let xpiece2 := number (piece ',' x 2) + y
  if xpiece2 < 0 then intText (number xpiece1 - 1) ++ ',' :: intText (xpiece2 + maxsec)
  else if xpiece2 > maxsec - 1 then intText (number xpiece1 + 1) ++ ',' :: intText (xpiece2 - maxsec)
  else xpiece1 ++ ',' :: intText xpiece2

/-! ## 2. Times -/

/-- A day and a number of seconds, in $HOROLOG format. -/
def horolog (day secs : Int) : Text := intText day ++ ',' :: intText secs

/-- The text is a valid time, `instant` seconds after the beginning of day 0. -/
def Denotes (t : Text) (instant : Int) : Prop :=
  ∃ day secs, t = horolog day secs ∧ 0 ≤ secs ∧ secs < maxsec ∧ instant = day * maxsec + secs

theorem comma_notMem_intText (z : Int) : ',' ∉ intText z := notMem_intText (by decide) (by decide) z

theorem piece_one_horolog (day secs : Int) : piece ',' (horolog day secs) 1 = intText day :=
  beforeFirst_append (comma_notMem_intText day) _

theorem piece_two_horolog (day secs : Int) : piece ',' (horolog day secs) 2 = intText secs := by
  unfold horolog
  rw [piece_append (comma_notMem_intText day)]
  exact beforeFirst_of_notMem (comma_notMem_intText secs)

theorem number_intText (z : Int) : number (intText z) = z := toInt_intText z

theorem horolog_inj {day secs day' secs' : Int} (h : horolog day secs = horolog day' secs') :
    day = day' ∧ secs = secs' := by
  have h₁ := piece_one_horolog day secs
  have h₂ := piece_two_horolog day secs
  rw [h, piece_one_horolog] at h₁
  rw [h, piece_two_horolog] at h₂
  exact ⟨(intText_inj h₁).symm, (intText_inj h₂).symm⟩

/-- A text denotes an instant only as the time it is the text of. -/
theorem denotes_horolog {day secs instant : Int} :
    Denotes (horolog day secs) instant ↔
      0 ≤ secs ∧ secs < maxsec ∧ instant = day * maxsec + secs := by
  constructor
  · intro h
    obtain ⟨day', secs', he, h₀, h₁, hi⟩ := h
    obtain ⟨rfl, rfl⟩ := horolog_inj he
    exact ⟨h₀, h₁, hi⟩
  · intro h
    exact ⟨day, secs, rfl, h⟩

/-! ## 3. What the routines give -/

/-- One day less, one day more, or the same day. -/
theorem addtime_horolog (day secs y : Int) : addtime (horolog day secs) y =
    if secs + y < 0 then horolog (day - 1) (secs + y + maxsec)
    else if secs + y > maxsec - 1 then horolog (day + 1) (secs + y - maxsec)
    else horolog day (secs + y) := by
  unfold addtime
  simp only [piece_one_horolog, piece_two_horolog, number_intText]
  rfl

/-- The seconds between two times, whether or not the days are the same. -/
theorem difftime_horolog {day secs day' secs' y : Int}
    (h : (day - day') * maxsec + (secs - secs') = y) (hy : 0 ≤ y) :
    difftime (horolog day secs) (horolog day' secs') = y := by
  unfold difftime
  simp only [piece_one_horolog, piece_two_horolog, number_intText]
  have htimediff : (if intText day = intText day' then secs - secs'
      else (day - day') * 24 * 60 * 60 + (secs - secs')) = y := by
    unfold maxsec at h
    split
    · rename_i he
      rw [intText_inj he] at h
      omega
    · omega
  rw [htimediff, if_neg (by omega)]

/-- However many days later: the difference of what comes back and the time that was given. -/
theorem difftime_addtime (day secs : Int) {y : Int} (hy : 0 ≤ y) :
    difftime (addtime (horolog day secs) y) (horolog day secs) = y := by
  rw [addtime_horolog]
  split
  · exact difftime_horolog (by unfold maxsec; omega) hy
  · split
    · exact difftime_horolog (by unfold maxsec; omega) hy
    · exact difftime_horolog (by unfold maxsec; omega) hy

/-- **The time some seconds later is valid, denotes that instant and is as many seconds away, exactly
    when it lies on the same day or on one next to it.** -/
theorem addtime_iff (day secs y : Int) (h₀ : 0 ≤ secs) (h₁ : secs < maxsec) :
    (Denotes (addtime (horolog day secs) y) (day * maxsec + secs + y) ∧
      (0 ≤ y → difftime (addtime (horolog day secs) y) (horolog day secs) = y)) ↔
      -maxsec ≤ secs + y ∧ secs + y < 2 * maxsec := by
  have hsecs : 0 ≤ secs ∧ secs < 24 * 60 * 60 := ⟨h₀, h₁⟩
  rw [and_iff_left (difftime_addtime day secs), addtime_horolog]
  unfold maxsec
  split
  · rw [denotes_horolog, maxsec]
    omega
  · split
    · rw [denotes_horolog, maxsec]
      omega
    · rw [denotes_horolog, maxsec]
      omega

/-- From the last second of a day to the first of the next one. -/
theorem addtime_iff_midnight :
    (Denotes (addtime (horolog 65000 86399) 1) (65000 * maxsec + 86399 + 1) ∧
      ((0 : Int) ≤ 1 → difftime (addtime (horolog 65000 86399) 1) (horolog 65000 86399) = 1)) ↔
      -maxsec ≤ 86399 + 1 ∧ (86399 : Int) + 1 < 2 * maxsec :=
  addtime_iff 65000 86399 1 (by decide) (by decide)

/-- Two days after the beginning of a day comes second 86400 of the day after it. -/
theorem addtime_two_days :
    ¬ Denotes (addtime (horolog 65000 0) 172800) (65000 * maxsec + 0 + 172800) := by
  rw [addtime_horolog, if_neg (by decide), if_pos (by decide), denotes_horolog]
  decide

end YottaTest.Com
