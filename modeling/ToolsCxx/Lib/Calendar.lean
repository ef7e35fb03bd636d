import Mathlib.Data.Prod.Lex
import Mathlib.Order.Monotone.Basic

/-! # The Gregorian calendar

The date of a day is found from the date of the day before (`Date.next`), so that the order of the
dates is that of the days.

* `Date.Valid`: the month and the day of a date are in their ranges.
* `date_strictMono`: a later day has a later date. -/

namespace ToolsCxx.Lib.Calendar

structure Date where
  year : ℕ
  month : ℕ
  day : ℕ
  deriving DecidableEq

/-- Dates are compared by the year, the month and the day. -/
def Date.key (d : Date) : ℕ ×ₗ ℕ ×ₗ ℕ := toLex (d.year, toLex (d.month, d.day))

instance : LinearOrder Date :=
  LinearOrder.lift' Date.key fun a b h => by
    cases a; cases b; cases h; rfl

def Leap (year : ℕ) : Prop := year % 4 = 0 ∧ year % 100 ≠ 0 ∨ year % 400 = 0

instance (year : ℕ) : Decidable (Leap year) := inferInstanceAs (Decidable (_ ∨ _))

/-- The number of the days of a month. -/
def daysIn (year month : ℕ) : ℕ :=
  if month = 2 then if Leap year then 29 else 28
  else if month = 4 ∨ month = 6 ∨ month = 9 ∨ month = 11 then 30
  else 31

/-- The next day. -/
def Date.next (d : Date) : Date :=
  if d.day < daysIn d.year d.month then { d with day := d.day + 1 }
  else if d.month < 12 then { d with month := d.month + 1, day := 1 }
  else { year := d.year + 1, month := 1, day := 1 }

/-- The date of the day `n`, the day 0 being the first of January 1970. -/
def date : ℕ → Date
  | 0 => ⟨1970, 1, 1⟩
  | n + 1 => (date n).next

/-- The month and the day exist. -/
structure Date.Valid (d : Date) : Prop where
  month : 1 ≤ d.month ∧ d.month ≤ 12
  day : 1 ≤ d.day ∧ d.day ≤ daysIn d.year d.month

theorem daysIn_pos (year month : ℕ) : 1 ≤ daysIn year month := by
  unfold daysIn
  split_ifs <;> decide

theorem daysIn_le (year month : ℕ) : daysIn year month ≤ 31 := by
  unfold daysIn
  split_ifs <;> decide

theorem Date.Valid.next {d : Date} (h : d.Valid) : d.next.Valid := by
  obtain ⟨⟨hm, hm'⟩, hd, hd'⟩ := h
  unfold Date.next
  split_ifs with hday hmonth
  · exact ⟨⟨hm, hm'⟩, Nat.le_add_left 1 _, hday⟩
  · exact ⟨⟨Nat.le_add_left 1 _, hmonth⟩, le_rfl, daysIn_pos _ _⟩
  · exact ⟨⟨le_rfl, show 1 ≤ 12 by decide⟩, le_rfl, daysIn_pos _ _⟩

theorem valid_date (n : ℕ) : (date n).Valid := by
  induction n with
  | zero => exact ⟨by decide, by decide⟩
  | succ n ih => exact ih.next

theorem Date.lt_iff {a b : Date} : a < b ↔ a.year < b.year ∨ a.year = b.year ∧
    (a.month < b.month ∨ a.month = b.month ∧ a.day < b.day) := by
  show a.key < b.key ↔ _
  unfold Date.key
  rw [Prod.Lex.toLex_lt_toLex, Prod.Lex.toLex_lt_toLex]

theorem Date.lt_next (d : Date) : d < d.next := by
  rw [Date.lt_iff]
  unfold Date.next
  split_ifs
  · exact .inr ⟨rfl, .inr ⟨rfl, Nat.lt_succ_self _⟩⟩
  · exact .inr ⟨rfl, .inl (Nat.lt_succ_self _)⟩
  · exact .inl (Nat.lt_succ_self _)

/-- **A later day has a later date.** -/
theorem date_strictMono : StrictMono date := strictMono_nat_of_lt_succ fun n => (date n).lt_next

theorem year_date (n : ℕ) : 1970 ≤ (date n).year := by
  induction n with
  | zero => exact le_rfl
  | succ n ih =>
    refine ih.trans ?_
    rcases Date.lt_iff.mp (date n).lt_next with hlt | ⟨heq, -⟩
    · exact hlt.le
    · exact heq.le

/-- The last day of a leap February, and the next one. -/
example : date 789 = ⟨1972, 2, 29⟩ ∧ date 790 = ⟨1972, 3, 1⟩ := by decide +kernel

end ToolsCxx.Lib.Calendar
