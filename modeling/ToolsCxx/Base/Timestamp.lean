import ToolsCxx.Base.Integers
import ToolsCxx.Lib.Numerals
import Mathlib.Data.Rat.Defs
import Mathlib.Tactic.Linarith

/-! # Timestamps

A `Timestamp` is its number of microseconds since the epoch, an `int64_t`. The sums and differences
the code forms are reduced to 64 bits (`int64`); they are the exact ones as long as these fit
(`int64_of_mem`). The `double` arguments are taken as exact rationals. -/

namespace ToolsCxx.Base

open ToolsCxx.Lib.Numerals

/-- `Timestamp`: microseconds since the epoch. -/
abbrev Timestamp := ℤ

namespace Timestamp

/-- `Timestamp::kmicrosecondsPerSecond`. -/
def kmicrosecondsPerSecond : ℤ := 1000 * 1000

/-- `Timestamp::ksecondsPerDay`. -/
def ksecondsPerDay : ℤ := 60 * 60 * 24

/-- `Timestamp::get_seconds_since_epoch`. -/
def getSecondsSinceEpoch (t : Timestamp) : ℤ := t.tdiv kmicrosecondsPerSecond

/-- `Timestamp::get_period`. -/
def getPeriod (t : Timestamp) : ℤ := (t.tdiv kmicrosecondsPerSecond).tdiv ksecondsPerDay

/-- `Timestamp::invalid`. -/
def invalid : Timestamp := 0

/-- `Timestamp::is_valid`. -/
def isValid (t : Timestamp) : Bool := t > 0

/-- The conversion of a `double` to an integer, towards zero. -/
def truncate (x : ℚ) : ℤ := x.num.tdiv x.den

/-- A number of seconds in whole microseconds. -/
def microseconds (second : ℚ) : ℤ := truncate (second * kmicrosecondsPerSecond)

/-- `Timestamp::add_time`. -/
def addTime (t : Timestamp) (second : ℚ) : Timestamp :=
  int64 (t + int64 (microseconds second))

/-- `Timestamp::get_difference`. -/
def getDifference (t other : Timestamp) : ℤ := int64 (t - other)

/-- The sum `add_time` forms does not overflow. -/
def SumFits (t : Timestamp) (second : ℚ) : Prop :=
  InInt64 (microseconds second) ∧ InInt64 (t + microseconds second)

instance (t : Timestamp) (second : ℚ) : Decidable (SumFits t second) :=
  inferInstanceAs (Decidable (_ ∧ _))

theorem addTime_of_fits {t : Timestamp} {second : ℚ} (h : SumFits t second) :
    addTime t second = t + microseconds second := by
  unfold addTime
  rw [int64_of_mem h.1, int64_of_mem h.2]

theorem getDifference_of_mem {t other : Timestamp} (h : InInt64 (t - other)) :
    getDifference t other = t - other := int64_of_mem h

/-! ### The text of a time -/

/-- `struct tm`. -/
structure Tm where
  year : ℤ
  mon : ℤ
  mday : ℤ
  hour : ℤ
  min : ℤ
  sec : ℤ

/-- A number in a field of width `w`: `%0wd` of `snprintf` if it is padded with zeros, else
`%wd`. -/
def field (zero : Bool) (w : ℕ) (x : ℤ) : List Char :=
  let sign := if x < 0 then ['-'] else []
  let digits := numeral 10 Nat.digitChar x.natAbs
  if zero then sign ++ padLeft (w - sign.length) '0' digits else padLeft w ' ' (sign ++ digits)

/-- `Timestamp::to_formatted_string(false)`, with the function that `localtime_r` computes. -/
def toFormattedString (localtime : ℤ → Tm) (t : Timestamp) : List Char :=
  let tm := localtime t.getSecondsSinceEpoch
  field false 4 (tm.year + 1900) ++ field true 2 (tm.mon + 1) ++ field true 2 tm.mday ++ ['-'] ++
    field true 2 tm.hour ++ field true 2 tm.min ++ field true 2 tm.sec

end Timestamp

end ToolsCxx.Base
