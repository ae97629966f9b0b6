/-
  File:      YottaTest/Lib/Calendar.lean
  Subject:   Dates of the Gregorian calendar and the number of days between them.

  * `leap`, `monthDays` -- leap years, and the length of a month;
  * `Date` -- a day of a month that has it; `Date.next` -- the day after it;
  * `Date.number` -- days counted from the beginning of year 0; `number_next`: the next date is one
    day later; `number_inj`: two dates with the same number are the same;
  * `next_of_number` -- **the date one day later is the next one.**
-/
import Mathlib.Tactic.Basic

namespace YottaTest.Lib

def leap (year : Nat) : Bool := year % 4 = 0 ∧ (year % 100 ≠ 0 ∨ year % 400 = 0)

/-- The length of a month, counted from 1. -/
def monthDays (year month : Nat) : Nat :=
  if month = 2 then if leap year then 29 else 28
  else if month = 4 ∨ month = 6 ∨ month = 9 ∨ month = 11 then 30 else 31

theorem monthDays_pos (year month : Nat) : 28 ≤ monthDays year month := by
  unfold monthDays
  split
  · split <;> decide
  · split <;> decide

@[ext]
structure Date where
  year : Nat
  month : Nat
  day : Nat
  month_pos : 1 ≤ month
  month_le : month ≤ 12
  day_pos : 1 ≤ day
  day_le : day ≤ monthDays year month

/-- The days of the first months of a year. -/
def firstMonths (year : Nat) : Nat → Nat
  | 0 => 0
  | month + 1 => firstMonths year month + monthDays year (month + 1)

/-- The days of all years before one. -/
def yearsBefore : Nat → Nat
  | 0 => 0
  | year + 1 => yearsBefore year + firstMonths year 12

theorem firstMonths_mono (year : Nat) {m n : Nat} (h : m ≤ n) :
    firstMonths year m ≤ firstMonths year n := by
  induction h with
  | refl => exact Nat.le_refl _
  | step _ ih => exact Nat.le_trans ih (Nat.le_add_right _ _)

theorem yearsBefore_mono {y z : Nat} (h : y ≤ z) : yearsBefore y ≤ yearsBefore z := by
  induction h with
  | refl => exact Nat.le_refl _
  | step _ ih => exact Nat.le_trans ih (Nat.le_add_right _ _)

namespace Date

/-- The number of a date, from 1 for the first of January of year 0. -/
def number (a : Date) : Nat := yearsBefore a.year + firstMonths a.year (a.month - 1) + a.day

/-- The day after a date. -/
def next (a : Date) : Date :=
  if h : a.day < monthDays a.year a.month then
    { a with day := a.day + 1, day_pos := Nat.succ_pos _, day_le := h }
  else if h : a.month < 12 then
    { year := a.year, month := a.month + 1, day := 1
      month_pos := Nat.succ_pos _, month_le := h, day_pos := Nat.one_pos
      day_le := Nat.le_trans (by decide) (monthDays_pos _ _) }
  else
    { year := a.year + 1, month := 1, day := 1
      month_pos := Nat.one_pos, month_le := by decide, day_pos := Nat.one_pos
      day_le := Nat.le_trans (by decide) (monthDays_pos _ _) }

/-- A date lies in its month. -/
theorem number_le (a : Date) : a.number ≤ yearsBefore a.year + firstMonths a.year a.month := by
  obtain ⟨m, hm⟩ : ∃ m, a.month = m + 1 := ⟨a.month - 1, by have := a.month_pos; omega⟩
  have hday := a.day_le
  unfold number
  rw [hm] at hday ⊢
  show _ ≤ yearsBefore a.year + (firstMonths a.year m + monthDays a.year (m + 1))
  rw [Nat.add_sub_cancel]
  omega

theorem number_lt_of_year {a b : Date} (h : a.year < b.year) : a.number < b.number := by
  have hle := a.number_le
  have hmonth := firstMonths_mono a.year a.month_le
  have hyear : yearsBefore a.year + firstMonths a.year 12 ≤ yearsBefore b.year :=
    yearsBefore_mono (Nat.succ_le_of_lt h)
  have hday := b.day_pos
  unfold number at hle ⊢
  omega

theorem number_lt_of_month {a b : Date} (hy : a.year = b.year) (h : a.month < b.month) :
    a.number < b.number := by
  have hle := a.number_le
  have hmonth : firstMonths a.year a.month ≤ firstMonths b.year (b.month - 1) := by
    rw [hy]
    exact firstMonths_mono _ (by omega)
  have hday := b.day_pos
  rw [hy] at hle hmonth
  unfold number at hle ⊢
  rw [hy] at hle ⊢
  omega

/-- **Two dates with the same number are the same.** -/
theorem number_inj {a b : Date} (h : a.number = b.number) : a = b := by
  have hyear : a.year = b.year := by
    rcases Nat.lt_trichotomy a.year b.year with hlt | heq | hgt
    · exact absurd h (Nat.ne_of_lt (number_lt_of_year hlt))
    · exact heq
    · exact absurd h (Nat.ne_of_gt (number_lt_of_year hgt))
  have hmonth : a.month = b.month := by
    rcases Nat.lt_trichotomy a.month b.month with hlt | heq | hgt
    · exact absurd h (Nat.ne_of_lt (number_lt_of_month hyear hlt))
    · exact heq
    · exact absurd h (Nat.ne_of_gt (number_lt_of_month hyear.symm hgt))
  unfold number at h
  rw [hyear, hmonth] at h
  exact Date.ext hyear hmonth (by omega)

theorem number_next (a : Date) : a.next.number = a.number + 1 := by
  obtain ⟨m, hm⟩ : ∃ m, a.month = m + 1 := ⟨a.month - 1, by have := a.month_pos; omega⟩
  have hday := a.day_le
  have hmonth := a.month_le
  have hdays : firstMonths a.year (m + 1) = firstMonths a.year m + monthDays a.year a.month := by
    rw [hm]
    rfl
  have hbefore : a.month - 1 = m := by omega
  unfold next
  split
  · rfl
  · split
    · show yearsBefore a.year + firstMonths a.year a.month + 1 = _
      rw [number, hbefore]
      rw [← hm] at hdays
      omega
    · have h12 : m + 1 = 12 := by omega
      show yearsBefore a.year + firstMonths a.year 12 + 0 + 1 = _
      rw [number, ← h12, hbefore]
      omega

/-- **The date one day later is the next one.** -/
theorem next_of_number {a b : Date} (h : b.number = a.number + 1) : b = a.next :=
  number_inj (by rw [h, number_next])

end Date

end YottaTest.Lib
