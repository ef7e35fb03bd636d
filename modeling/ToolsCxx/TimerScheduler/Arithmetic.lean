import ToolsCxx.TimerScheduler.Alarm
import Mathlib.Data.Rat.Floor

/-! # `TimerScheduler`: from a delay to an alarm

A delay is scaled to microseconds, converted to an `int64_t` and added to a reading of the clock;
the difference of the sum to a later reading is clamped and becomes the `it_value` of the alarm.
`exact_iff`: none of this overflows if and only if the sum and the difference are in the range of
`int64_t`, which for delays of a few hundred thousand years they are not. -/

namespace ToolsCxx.TimerScheduler.Arithmetic

open ToolsCxx.Base ToolsCxx.TimerScheduler.Model ToolsCxx.TimerScheduler.Alarm

variable {d d' : ℚ} {when now later : Timestamp}

/-! ### The property -/

/-- **An alarm is exact**: it is set for the expiration `when` of a timer that was created at `now`
with the delay `d`, the clock showing `later`. -/
structure ExactAlarm (d : ℚ) (now later when : Timestamp) : Prop where
  expiration : when = now + Timestamp.microseconds d
  notBefore : now ≤ when
  difference : InInt64 (when - later)
  nonzero : getTimeFromNow when later ≠ ⟨0, 0⟩
  nsec : 0 ≤ (getTimeFromNow when later).tvNsec ∧ (getTimeFromNow when later).tvNsec < 10 ^ 9
  value : (getTimeFromNow when later).tvSec * 10 ^ 9 + (getTimeFromNow when later).tvNsec =
    1000 * max 100 (when - later)

/-- **The arithmetic of timers is exact**, and a timer with a shorter delay does not expire
later. -/
structure ExactTimers (d : ℚ) (now later : Timestamp) : Prop where
  conversion : InInt64 (Timestamp.microseconds d)
  after : ExactAlarm d now later (Request.runAfter now d).when
  every : ExactAlarm d now later (Request.runEvery now d).when
  restart : ∀ t : Timer, t.repeated = true → t.interval = d →
    ExactAlarm d now later (t.restart now).expiration
  mono : ∀ d', 0 < d' → d' ≤ d → (Request.runAfter now d').when ≤ (Request.runAfter now d).when

/-- The delay is in the range of the time, and the time that shows so much later is not too far
away. -/
def Fits (d : ℚ) (now later : Timestamp) : Prop :=
  d * 10 ^ 6 < 2 ^ 63 ∧ now + d * 10 ^ 6 < 2 ^ 63 ∧ later - now ≤ 2 ^ 63 + d * 10 ^ 6

/-! ### Whole microseconds -/

theorem microseconds_eq (hd : 0 < d) : Timestamp.microseconds d = ⌊d * 10 ^ 6⌋ := by
  have hx : 0 ≤ d * (Timestamp.kmicrosecondsPerSecond : ℚ) := by
    unfold Timestamp.kmicrosecondsPerSecond
    positivity
  unfold Timestamp.microseconds Timestamp.truncate
  rw [Int.tdiv_eq_ediv_of_nonneg (Rat.num_nonneg.mpr hx), ← Rat.floor_def']
  unfold Timestamp.kmicrosecondsPerSecond
  norm_num

theorem microseconds_nonneg (hd : 0 < d) : 0 ≤ Timestamp.microseconds d := by
  rw [microseconds_eq hd]
  exact Int.floor_nonneg.mpr (by positivity)

theorem microseconds_mono (hd' : 0 < d') (hle : d' ≤ d) :
    Timestamp.microseconds d' ≤ Timestamp.microseconds d := by
  rw [microseconds_eq hd', microseconds_eq (hd'.trans_le hle)]
  exact Int.floor_mono (by gcongr)

theorem microseconds_lt_iff (hd : 0 < d) (z : ℤ) :
    Timestamp.microseconds d < z ↔ d * 10 ^ 6 < z := by
  rw [microseconds_eq hd]
  exact Int.floor_lt

theorem le_microseconds_iff (hd : 0 < d) (z : ℤ) :
    z ≤ Timestamp.microseconds d ↔ z ≤ d * 10 ^ 6 := by
  rw [microseconds_eq hd]
  exact Int.le_floor

/-- `Fits`, in whole microseconds. -/
theorem fits_iff (hd : 0 < d) : Fits d now later ↔
    Timestamp.microseconds d < 2 ^ 63 ∧ now + Timestamp.microseconds d < 2 ^ 63 ∧
      -2 ^ 63 ≤ now + Timestamp.microseconds d - later := by
  have hcast : ((2 ^ 63 : ℤ) : ℚ) = 2 ^ 63 := by norm_num
  have h1 : Timestamp.microseconds d < 2 ^ 63 ↔ d * 10 ^ 6 < 2 ^ 63 := by
    rw [microseconds_lt_iff hd, hcast]
  have h2 : now + Timestamp.microseconds d < 2 ^ 63 ↔ now + d * 10 ^ 6 < 2 ^ 63 := by
    rw [← lt_sub_iff_add_lt', ← lt_sub_iff_add_lt', microseconds_lt_iff hd, Int.cast_sub, hcast]
  have h3 : later - now ≤ 2 ^ 63 + Timestamp.microseconds d ↔
      (later : ℚ) - now ≤ 2 ^ 63 + d * 10 ^ 6 := by
    rw [← sub_le_iff_le_add', ← sub_le_iff_le_add', le_microseconds_iff hd, Int.cast_sub,
      Int.cast_sub, hcast]
  unfold Fits
  rw [← h1, ← h2, ← h3]
  refine and_congr_right fun _ => and_congr_right fun _ => ?_
  constructor <;> intro h <;> linarith

/-! ### The alarm -/

/-- `get_time_from_now`, if the difference does not overflow. -/
theorem getTimeFromNow_of_mem (h : InInt64 (when - later)) :
    0 ≤ (getTimeFromNow when later).tvNsec ∧ (getTimeFromNow when later).tvNsec < 10 ^ 9 ∧
      (getTimeFromNow when later).tvSec * 10 ^ 9 + (getTimeFromNow when later).tvNsec =
        1000 * max 100 (when - later) := by
  rw [getTimeFromNow_eq, Timestamp.getDifference_of_mem h]
  have hpos : 0 ≤ max 100 (when - later) := le_max_of_le_left (by decide)
  dsimp only
  generalize max 100 (when - later) = m at *
  rw [Int.tmod_eq_emod_of_nonneg hpos, Int.tdiv_eq_ediv_of_nonneg hpos]
  unfold Timestamp.kmicrosecondsPerSecond
  omega

/-- The alarm of a timer that was created with the delay `d`. -/
theorem exactAlarm_addTime (hd : 0 < d) (hnow : InInt64 now) (hle : now ≤ later)
    (h : Fits d now later) : ExactAlarm d now later (now.addTime d) := by
  obtain ⟨h1, h2, h3⟩ := (fits_iff hd).mp h
  have h0 := microseconds_nonneg hd
  have hadd : now.addTime d = now + Timestamp.microseconds d :=
    Timestamp.addTime_of_fits ⟨⟨by omega, h1⟩, ⟨by have := hnow.1; omega, h2⟩⟩
  have hlater := Int.sub_nonneg_of_le hle
  have hdiff : InInt64 (now + Timestamp.microseconds d - later) := ⟨h3, by omega⟩
  rw [hadd]
  obtain ⟨hnonneg, hlt, hvalue⟩ := getTimeFromNow_of_mem hdiff
  refine ⟨rfl, Int.le_add_of_nonneg_right h0, hdiff, fun hzero => ?_, ⟨hnonneg, hlt⟩, hvalue⟩
  have hmax : (100 : ℤ) ≤ max 100 (now + Timestamp.microseconds d - later) := le_max_left _ _
  rw [hzero] at hvalue
  simp only [zero_mul, add_zero] at hvalue
  omega

theorem Fits.of_le (h : Fits d now later) (hd' : 0 < d') (hd : d' ≤ d) : Fits d' now now := by
  obtain ⟨h1, h2, -⟩ := h
  have hscale : d' * 10 ^ 6 ≤ d * 10 ^ 6 := by gcongr
  have hpos : 0 < d' * 10 ^ 6 := by positivity
  exact ⟨by linarith, by linarith, by linarith⟩

/-- **The arithmetic of timers is exact** if and only if the delay fits. -/
theorem exact_iff (hd : 0 < d) (hnow : InInt64 now) (hle : now ≤ later) :
    ExactTimers d now later ↔ Fits d now later := by
  constructor
  · intro h
    have hwhen : (Request.runAfter now d).when = now + Timestamp.microseconds d :=
      h.after.expiration
    have hsum : InInt64 (now + Timestamp.microseconds d) := by
      rw [← hwhen]
      exact inInt64_int64 _
    have hdiff := h.after.difference
    rw [hwhen] at hdiff
    exact (fits_iff hd).mpr ⟨h.conversion.2, hsum.2, hdiff.1⟩
  · intro h
    have halarm := exactAlarm_addTime hd hnow hle h
    have h0 := microseconds_nonneg hd
    refine ⟨⟨by omega, ((fits_iff hd).mp h).1⟩, halarm, halarm, ?_, fun d' hd' hle' => ?_⟩
    · intro t hrepeated hinterval
      rw [Timer.restart_of_repeated hrepeated, hinterval]
      exact halarm
    · have halarm' := exactAlarm_addTime hd' hnow le_rfl (h.of_le hd' hle')
      show now.addTime d' ≤ now.addTime d
      rw [halarm.expiration, halarm'.expiration]
      exact Int.add_le_add_left (microseconds_mono hd' hle') now

/-- A delay of one and a half seconds; the alarm is set 10 microseconds later. -/
theorem exact_iff_short : ExactTimers (3 / 2) 1700000000000000 1700000000000010 :=
  (exact_iff (by norm_num) (by decide) (by decide)).mpr
    ⟨by norm_num, by norm_num, by norm_num⟩

/-- A delay of 9223372036000 seconds is in the range of `int64_t`, but the sum with a clock of the
year 2023 is not: it wraps to an expiration before now. The difference that the alarm is set to
wraps back to the delay, so the timer does not fire, and being first in the store it keeps the other
ones from their alarms. -/
theorem not_exact_long : ¬ ExactTimers 9223372036000 1700000000000000 1700000000000000 := by
  intro h
  exact absurd h.after.notBefore (by decide +kernel)

end ToolsCxx.TimerScheduler.Arithmetic
