/-
  File:      YottaTest/Mupjnl/DiffTime.lean
  Subject:   diff_time.awk: the seconds between two times of the journal tests.

  The line has a date and a time twice, "2003-11-05 23:59:58.12 2003-11-06 00:00:03.01". Points become
  colons, the parts are taken apart, and the later time is subtracted from part to part with a borrow.
  The length of a month comes from a table in which February has 28 days.

  * `borrowLoop`, `diffTime` -- the subtraction and the script, on the text of the line;
  * `Moment`, `Moment.instant` -- a date and a time of the day; its seconds on one axis;
  * `sum_eq` -- what the borrow chain adds up to, by the days between the two dates;
  * `diffTime_iff` -- **within 24 hours the script prints the seconds between the times, unless the first
    is on February 29 and the second in March.**
-/
import Mathlib.Data.List.GetD
import Mathlib.Tactic.Ring
import YottaTest.Lib.Calendar
import YottaTest.Lib.Digits
import YottaTest.Lib.Pieces

namespace YottaTest.Mupjnl

open YottaTest.Lib

abbrev Text := List Char

/-! ## 1. The script -/

/-- The fields of a line. -/
def fields (line : Text) : List Text := (line.splitOn ' ').filter fun w => w ≠ []

/-- A text in an arithmetic expression: the digits it begins with. -/
def number (t : Text) : Int := Nat.ofDigitChars 10 (t.takeWhile Char.isDigit) 0

/-- `split("31 28 31 …",month," ")`, counted from 1. -/
def month : List Int := [31, 28, 31, 30, 31, 30, 31, 31, 30, 31, 30, 31]

/-- `split("86400 3600 60",content, " ")`, from the last one. -/
def content : List Int := [60, 3600, 86400]

/-- `gsub(/\./,":")` -/
def colons (line : Text) : Text := line.map fun ch => if ch = '.' then ':' else ch

/-- Month, day, hour, minute and second of a date and a time, from the last one. -/
def parts (date time : Text) : List Int :=
  [number (piece ':' time 3), number (piece ':' time 2), number (piece ':' time 1),
    number (piece '-' date 3), number (piece '-' date 2)]

/-- `for (i=5;i>0;i--)`: the parts from the last one, and what the turn before took off `final[i]`. -/
def borrowLoop : List Int → List Int → List Int → Int → List Int
  | f :: final, b :: begin, m :: max, taken =>
      let result := f - taken - b
      if result < 0 then (result + m) :: borrowLoop final begin max 1
      else result :: borrowLoop final begin max 0
  | _, _, _, _ => []

/-- The script on a line: the sum that is printed. -/
def diffTime (line : Text) : Text :=
  let field := fun k => (fields (colons line)).getD (k - 1) []
  let begin := parts (field 1) (field 2)
  let final := parts (field 3) (field 4)
  let mon := number (piece '-' (field 1) 2)
  let max := [60, 60, 24, month.getD (mon.toNat - 1) 0, 12]
  let result := borrowLoop final begin max 0
  intText (result.getD 3 0 * content.getD 2 0 + result.getD 2 0 * content.getD 1 0 +
    result.getD 1 0 * content.getD 0 0 + result.getD 0 0)

/-! ## 2. Times -/

/-- Two digits at least. -/
def twoDigits (n : Nat) : Text := if n < 10 then '0' :: Nat.toDigits 10 n else Nat.toDigits 10 n

/-- A time of a date, with a fraction of a second that is any text of digits. -/
structure Moment extends Date where
  hour : Nat
  minute : Nat
  second : Nat
  fraction : Text
  hour_lt : hour < 24
  minute_lt : minute < 60
  second_lt : second < 60
  isDigit_fraction : ∀ ch ∈ fraction, ch.isDigit = true

namespace Moment

variable (t : Moment)

/-- "yyyy-mm-dd" -/
def dateText : Text :=
  Nat.toDigits 10 t.year ++ '-' :: twoDigits t.month ++ '-' :: twoDigits t.day

/-- "hh:mm:ss.cc" -/
def timeText : Text :=
  twoDigits t.hour ++ ':' :: twoDigits t.minute ++ ':' :: twoDigits t.second ++ '.' :: t.fraction

/-- The seconds since midnight, without the fraction. -/
def secs : Nat := t.hour * 3600 + t.minute * 60 + t.second

/-- The seconds on one axis, without the fraction. -/
def instant : Nat := t.toDate.number * 86400 + t.secs

end Moment

/-- The line with two times. -/
def line (b f : Moment) : Text :=
  b.dateText ++ ' ' :: b.timeText ++ ' ' :: f.dateText ++ ' ' :: f.timeText

/-! ## 3. The parts of a line -/

theorem isDigit_twoDigits {n : Nat} {ch : Char} (h : ch ∈ twoDigits n) : ch.isDigit = true := by
  have hdigit : ∀ ch ∈ Nat.toDigits 10 n, ch.isDigit = true := fun _ h =>
    Nat.isDigit_of_mem_toDigits (by decide) (by decide) h
  unfold twoDigits at h
  split at h
  · rcases List.mem_cons.1 h with rfl | h
    · decide
    · exact hdigit ch h
  · exact hdigit ch h

theorem number_twoDigits (n : Nat) : number (twoDigits n) = n := by
  have htake : (twoDigits n).takeWhile Char.isDigit = twoDigits n :=
    List.takeWhile_eq_self_iff.2 fun _ => isDigit_twoDigits
  have hzero : ∀ t, Nat.ofDigitChars 10 ('0' :: t) 0 = Nat.ofDigitChars 10 t 0 := fun t => by
    rw [Nat.ofDigitChars_cons]
    rfl
  rw [number, htake]
  unfold twoDigits
  split
  · rw [hzero, Nat.ofDigitChars_ten_toDigits]
  · rw [Nat.ofDigitChars_ten_toDigits]

theorem colons_append (t u : Text) : colons (t ++ u) = colons t ++ colons u := List.map_append

/-- A text of digits stays as it is. -/
theorem colons_digits {t : Text} (h : ∀ ch ∈ t, ch.isDigit = true) : colons t = t := by
  conv_rhs => rw [← List.map_id t]
  refine List.map_congr_left fun ch hch => ?_
  have hne : ch ≠ '.' := fun he => absurd (h ch hch) (by rw [he]; decide)
  rw [if_neg hne]
  rfl

theorem notMem_of_digits {t : Text} (h : ∀ ch ∈ t, ch.isDigit = true) {c : Char}
    (hc : c.isDigit = false) : c ∉ t := fun hmem => by
  have := h c hmem
  rw [hc] at this
  exact Bool.noConfusion this

theorem notMem_intercalate {sep c : Char} (hne : c ≠ sep) {ws : List Text} (h : ∀ w ∈ ws, c ∉ w) :
    c ∉ [sep].intercalate ws := by
  induction ws with
  | nil => exact List.not_mem_nil
  | cons w ws ih =>
      obtain ⟨hw, hws⟩ := List.forall_mem_cons.1 h
      cases ws with
      | nil => simpa [List.intercalate] using hw
      | cons w' ws =>
          rw [List.intercalate_cons_cons]
          simp only [List.mem_append, List.mem_singleton, not_or]
          exact ⟨⟨hw, hne⟩, ih hws⟩

namespace Moment

variable (t : Moment)

/-- The parts of the date. -/
def dateParts : List Text := [Nat.toDigits 10 t.year, twoDigits t.month, twoDigits t.day]

/-- The parts of the time, the fraction last. -/
def timeParts : List Text := [twoDigits t.hour, twoDigits t.minute, twoDigits t.second, t.fraction]

theorem isDigit_dateParts : ∀ w ∈ t.dateParts, ∀ ch ∈ w, ch.isDigit = true := by
  have hyear : ∀ ch ∈ Nat.toDigits 10 t.year, ch.isDigit = true := fun _ h =>
    Nat.isDigit_of_mem_toDigits (by decide) (by decide) h
  simp only [dateParts, List.forall_mem_cons]
  exact ⟨hyear, fun _ => isDigit_twoDigits, fun _ => isDigit_twoDigits, fun _ h => absurd h List.not_mem_nil⟩

theorem isDigit_timeParts : ∀ w ∈ t.timeParts, ∀ ch ∈ w, ch.isDigit = true := by
  simp only [timeParts, List.forall_mem_cons]
  exact ⟨fun _ => isDigit_twoDigits, fun _ => isDigit_twoDigits, fun _ => isDigit_twoDigits,
    t.isDigit_fraction, fun _ h => absurd h List.not_mem_nil⟩

theorem colons_dateText : colons t.dateText = ['-'].intercalate t.dateParts := by
  have hd := t.isDigit_dateParts
  simp only [dateParts, List.forall_mem_cons] at hd
  obtain ⟨hyear, hmonth, hday, -⟩ := hd
  have hminus : ∀ u, colons ('-' :: u) = '-' :: colons u := fun _ => rfl
  rw [dateText, colons_append, colons_append, hminus, hminus, colons_digits hyear,
    colons_digits hmonth, colons_digits hday]
  simp [dateParts, List.intercalate]

/-- The point in front of the fraction has become a colon. -/
theorem colons_timeText : colons t.timeText = [':'].intercalate t.timeParts := by
  have hd := t.isDigit_timeParts
  simp only [timeParts, List.forall_mem_cons] at hd
  obtain ⟨hhour, hminute, hsecond, hfraction, -⟩ := hd
  have hcolon : ∀ u, colons (':' :: u) = ':' :: colons u := fun _ => rfl
  have hpoint : ∀ u, colons ('.' :: u) = ':' :: colons u := fun _ => rfl
  rw [timeText, colons_append, colons_append, colons_append, hcolon, hcolon, hpoint,
    colons_digits hhour, colons_digits hminute, colons_digits hsecond, colons_digits hfraction]
  simp [timeParts, List.intercalate]

theorem piece_dateText (k : Nat) : piece '-' (colons t.dateText) (k + 1) = t.dateParts.getD k [] := by
  rw [colons_dateText]
  exact piece_intercalate (fun w hw => notMem_of_digits (t.isDigit_dateParts w hw) (by decide))
    (List.cons_ne_nil _ _) k

theorem piece_timeText (k : Nat) : piece ':' (colons t.timeText) (k + 1) = t.timeParts.getD k [] := by
  rw [colons_timeText]
  exact piece_intercalate (fun w hw => notMem_of_digits (t.isDigit_timeParts w hw) (by decide))
    (List.cons_ne_nil _ _) k

/-- **The numbers that are subtracted.** -/
theorem parts_text : parts (colons t.dateText) (colons t.timeText) =
    [(t.second : Int), t.minute, t.hour, t.day, t.month] := by
  unfold parts
  rw [t.piece_timeText 2, t.piece_timeText 1, t.piece_timeText 0, t.piece_dateText 2,
    t.piece_dateText 1]
  show [number (twoDigits t.second), number (twoDigits t.minute), number (twoDigits t.hour),
    number (twoDigits t.day), number (twoDigits t.month)] = _
  simp only [number_twoDigits]

/-- Neither text has a blank in it, and neither is empty. -/
theorem word_dateText : ' ' ∉ colons t.dateText ∧ colons t.dateText ≠ [] := by
  rw [colons_dateText]
  refine ⟨notMem_intercalate (by decide) fun w hw =>
    notMem_of_digits (t.isDigit_dateParts w hw) (by decide), ?_⟩
  simp [dateParts, List.intercalate]

theorem word_timeText : ' ' ∉ colons t.timeText ∧ colons t.timeText ≠ [] := by
  rw [colons_timeText]
  refine ⟨notMem_intercalate (by decide) fun w hw =>
    notMem_of_digits (t.isDigit_timeParts w hw) (by decide), ?_⟩
  simp [timeParts, List.intercalate]

end Moment

/-- **The four fields.** -/
theorem fields_line (b f : Moment) : fields (colons (line b f)) =
    [colons b.dateText, colons b.timeText, colons f.dateText, colons f.timeText] := by
  have hjoined : colons (line b f) = [' '].intercalate
      [colons b.dateText, colons b.timeText, colons f.dateText, colons f.timeText] := by
    have hblank : ∀ u, colons (' ' :: u) = ' ' :: colons u := fun _ => rfl
    rw [line, colons_append, colons_append, colons_append, hblank, hblank, hblank]
    simp [List.intercalate]
  have hwords : ∀ w ∈ [colons b.dateText, colons b.timeText, colons f.dateText, colons f.timeText],
      ' ' ∉ w ∧ w ≠ [] := by
    simp only [List.forall_mem_cons]
    exact ⟨b.word_dateText, b.word_timeText, f.word_dateText, f.word_timeText,
      fun _ h => absurd h List.not_mem_nil⟩
  unfold fields
  rw [hjoined, List.splitOn_intercalate _ (fun w hw => (hwords w hw).1) (List.cons_ne_nil _ _)]
  exact List.filter_eq_self.2 fun w hw => decide_eq_true (hwords w hw).2

/-! ## 4. The borrow chain -/

/-- What a turn takes off the part in front of its own. -/
def borrow (f b taken : Int) : Int := if f - taken - b < 0 then 1 else 0

theorem borrow_eq_zero {f b taken : Int} (h : 0 ≤ f - taken - b) : borrow f b taken = 0 :=
  if_neg (by omega)

theorem borrow_eq_one {f b taken : Int} (h : f - taken - b < 0) : borrow f b taken = 1 := if_pos h

/-- Zero or one. -/
theorem borrow_cases (f b taken : Int) :
    (borrow f b taken = 0 ∧ 0 ≤ f - taken - b) ∨ (borrow f b taken = 1 ∧ f - taken - b < 0) := by
  by_cases h : f - taken - b < 0
  · exact Or.inr ⟨borrow_eq_one h, h⟩
  · exact Or.inl ⟨borrow_eq_zero (by omega), by omega⟩

theorem borrowLoop_cons (f b m taken : Int) (final begin max : List Int) :
    borrowLoop (f :: final) (b :: begin) (m :: max) taken =
      (f - taken - b + m * borrow f b taken) :: borrowLoop final begin max (borrow f b taken) := by
  rw [borrowLoop, borrow]
  split <;> simp

/-- **The sum**: the borrows between the parts cancel, and the one of the day adds a month. -/
theorem sum_eq (b f : Moment) (days : Int) :
    let result := borrowLoop [f.second, f.minute, f.hour, f.day, f.month]
      [b.second, b.minute, b.hour, b.day, b.month] [60, 60, 24, days, 12] 0
    let hours := borrow f.hour b.hour (borrow f.minute b.minute (borrow f.second b.second 0))
    result.getD 3 0 * 86400 + result.getD 2 0 * 3600 + result.getD 1 0 * 60 + result.getD 0 0 =
      (f.day - b.day + days * borrow f.day b.day hours) * 86400 + (f.secs - b.secs) := by
  simp only [borrowLoop_cons, Moment.secs, List.getD_cons_zero, List.getD_cons_succ]
  push_cast
  ring

/-- The borrow out of the time of the day. -/
theorem hours_borrow (b f : Moment) :
    borrow f.hour b.hour (borrow f.minute b.minute (borrow f.second b.second 0)) =
      if f.secs < b.secs then 1 else 0 := by
  have hf := f.minute_lt
  have hb := b.minute_lt
  have hf' := f.second_lt
  have hb' := b.second_lt
  unfold Moment.secs
  obtain ⟨hs, hs'⟩ | ⟨hs, hs'⟩ := borrow_cases f.second b.second 0
  · rw [hs]
    obtain ⟨hm, hm'⟩ | ⟨hm, hm'⟩ := borrow_cases f.minute b.minute 0
    · rw [hm, borrow]
      exact if_congr (by omega) rfl rfl
    · rw [hm, borrow]
      exact if_congr (by omega) rfl rfl
  · rw [hs]
    obtain ⟨hm, hm'⟩ | ⟨hm, hm'⟩ := borrow_cases f.minute b.minute 1
    · rw [hm, borrow]
      exact if_congr (by omega) rfl rfl
    · rw [hm, borrow]
      exact if_congr (by omega) rfl rfl

/-- The table of the script has 28 days for every February. -/
theorem month_eq {year m : Nat} (h₁ : 1 ≤ m) (h₁₂ : m ≤ 12) :
    month.getD (m - 1) 0 = if m = 2 then 28 else (monthDays year m : Int) := by
  have hm : m = 1 ∨ m = 2 ∨ m = 3 ∨ m = 4 ∨ m = 5 ∨ m = 6 ∨ m = 7 ∨ m = 8 ∨ m = 9 ∨ m = 10 ∨
      m = 11 ∨ m = 12 := by omega
  rcases hm with rfl | rfl | rfl | rfl | rfl | rfl | rfl | rfl | rfl | rfl | rfl | rfl <;> rfl

/-- What the script prints for two times. -/
theorem diffTime_line (b f : Moment) : diffTime (line b f) =
    let hours := if f.secs < b.secs then 1 else 0
    intText ((f.day - b.day + month.getD (b.month - 1) 0 * borrow f.day b.day hours) * 86400 +
      (f.secs - b.secs)) := by
  have hmon : number (piece '-' (colons b.dateText) 2) = b.month := by
    rw [b.piece_dateText 1]
    exact number_twoDigits b.month
  simp only [← hours_borrow, ← sum_eq]
  unfold diffTime
  rw [fields_line]
  show intText _ = _
  simp only [List.getD_cons_zero, List.getD_cons_succ, Nat.sub_self, Moment.parts_text, hmon]
  rfl

/-! ## 5. Within 24 hours -/

theorem secs_lt (t : Moment) : t.secs < 86400 := by
  have h₁ := t.hour_lt
  have h₂ := t.minute_lt
  have h₃ := t.second_lt
  unfold Moment.secs
  omega

/-- Two times within 24 hours are on one date, or on a date and the next one. -/
theorem same_or_next {b f : Moment} (h₀ : b.instant ≤ f.instant) (h₁ : f.instant ≤ b.instant + 86400) :
    f.toDate = b.toDate ∧ b.secs ≤ f.secs ∨ f.toDate = b.toDate.next := by
  have hb := secs_lt b
  have hf := secs_lt f
  unfold Moment.instant at h₀ h₁
  have hcases : f.toDate.number = b.toDate.number ∧ b.secs ≤ f.secs ∨
      f.toDate.number = b.toDate.number + 1 := by omega
  rcases hcases with ⟨hnum, hle⟩ | hnum
  · exact Or.inl ⟨Date.number_inj hnum, hle⟩
  · exact Or.inr (Date.next_of_number hnum)

/-- The day after a date: in the same month, or the first of another one. -/
theorem next_cases (a : Date) :
    (a.next.month = a.month ∧ a.next.day = a.day + 1) ∨
      (a.next.month ≠ a.month ∧ a.next.day = 1 ∧ a.day = monthDays a.year a.month ∧
        (a.month = 2 → a.next.month = 3)) := by
  have hday := a.day_le
  have hmonth := a.month_le
  unfold Date.next
  split
  · exact Or.inl ⟨rfl, rfl⟩
  · split
    · exact Or.inr ⟨Nat.succ_ne_self _, rfl, by omega, fun h => congrArg (· + 1) h⟩
    · refine Or.inr ⟨fun h => ?_, rfl, by omega, fun h => by omega⟩
      have hone : 1 = a.month := h
      omega

/-- **Within 24 hours the seconds from the first time to the second are printed**, fractions dropped from
    both, unless the first is on February 29 and the second in March. -/
theorem diffTime_iff (b f : Moment) (h₀ : b.instant ≤ f.instant)
    (h₁ : f.instant ≤ b.instant + 86400) :
    diffTime (line b f) = intText (f.instant - b.instant) ↔
      ¬ (b.month = 2 ∧ b.day = 29 ∧ f.month = 3) := by
  have hinj : ∀ y z : Int, intText y = intText z ↔ y = z := fun _ _ =>
    ⟨intText_inj, fun h => congrArg intText h⟩
  rw [diffTime_line, hinj]
  have hsecs : ∀ t : Moment, (t.instant : Int) = t.toDate.number * 86400 + t.secs := fun t => by
    unfold Moment.instant
    push_cast
    rfl
  rw [hsecs, hsecs]
  rcases same_or_next h₀ h₁ with ⟨hdate, hle⟩ | hdate
  · -- one date: nothing is borrowed from the day
    have hnum : f.toDate.number = b.toDate.number := by rw [hdate]
    have hday : f.day = b.day := congrArg Date.day hdate
    have hmonth : f.month = b.month := congrArg Date.month hdate
    rw [if_neg (Nat.not_lt.2 hle), hday, borrow_eq_zero (by omega), hnum]
    exact iff_of_true (by ring) (by omega)
  · have hnum : (f.toDate.number : Int) = b.toDate.number + 1 := by
      rw [hdate, Date.number_next]
      rfl
    have hhours : ∀ hours : Int, hours = (if f.secs < b.secs then 1 else 0) → 0 ≤ hours ∧ hours ≤ 1 := by
      intro hours h
      split at h <;> omega
    generalize hgen : (if f.secs < b.secs then (1 : Int) else 0) = hours
    obtain ⟨hpos, hone⟩ := hhours hours hgen.symm
    rw [hnum]
    rcases next_cases b.toDate with ⟨hmonth, hday⟩ | ⟨hmonth, hday, hlast, hmarch⟩
    · -- the next day of the month
      have hday : f.day = b.day + 1 := by rw [← hday, ← hdate]
      have hmonth : f.month = b.month := by rw [← hmonth, ← hdate]
      rw [hday, borrow_eq_zero (by push_cast; omega)]
      refine iff_of_true ?_ (by omega)
      push_cast
      ring
    · -- the first of a month: the length of the month before is borrowed
      have hday : f.day = 1 := by rw [← hday, ← hdate]
      have hmarch : b.month = 2 → f.month = 3 := fun h => by rw [← hmarch h, ← hdate]
      have hlen := monthDays_pos b.year b.month
      have htable : month.getD (b.month - 1) 0 =
          if b.month = 2 then 28 else (monthDays b.year b.month : Int) :=
        month_eq b.month_pos b.month_le
      rw [hday, borrow_eq_one (by rw [hlast]; omega), hlast, htable]
      by_cases hfeb : b.month = 2
      · have hleap : monthDays b.year 2 = 28 ∨ monthDays b.year 2 = 29 := by
          unfold monthDays
          rw [if_pos rfl]
          split <;> simp
        rw [if_pos hfeb, hfeb, hmarch hfeb]
        rcases hleap with hleap | hleap
        · rw [hleap]
          exact iff_of_true (by push_cast; ring) (by decide)
        · rw [hleap]
          exact iff_of_false (by push_cast; omega) (by decide)
      · rw [if_neg hfeb]
        exact iff_of_true (by push_cast; ring) fun h => hfeb h.1

end YottaTest.Mupjnl
