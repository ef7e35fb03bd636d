import ToolsCxx.Base.Timestamp
import ToolsCxx.Lib.Calendar
import ToolsCxx.Lib.FixedWidth
import Mathlib.Data.Char

/-! # The texts of the times

`to_formatted_string` writes a time in fields of fixed widths, the year first. In a time zone
without daylight saving the texts are therefore ordered as the times are, up to the year 9999.

* `localtime`: what `localtime_r` computes when the local time is always `offset` seconds ahead.
* `formatted_order`: the texts of the records are ordered to the microsecond, those in the names of
  the files to the second. -/

namespace ToolsCxx.Base.TimeText

open ToolsCxx.Base ToolsCxx.Base.Timestamp ToolsCxx.Lib.Numerals ToolsCxx.Lib.Calendar
open ToolsCxx.Lib.FixedWidth

/-! ### The functions -/

/-- The seconds of a day. -/
def daySeconds : ℕ := 86400

/-- The seconds since the epoch, on a local clock. -/
def localSeconds (offset seconds : ℤ) : ℕ := (seconds + offset).toNat

/-- `localtime_r`, from the epoch on. -/
def localtime (offset seconds : ℤ) : Tm :=
  let d := date (localSeconds offset seconds / daySeconds)
  let s := localSeconds offset seconds % daySeconds
  { year := d.year - 1900
    mon := d.month - 1
    mday := d.day
    hour := (s / 3600 : ℕ)
    min := (s % 3600 / 60 : ℕ)
    sec := (s % 60 : ℕ) }

/-- `Timestamp::to_formatted_string(true)`. -/
def toFormattedStringMicro (localtime : ℤ → Tm) (t : Timestamp) : List Char :=
  let tm := localtime t.getSecondsSinceEpoch
  field false 4 (tm.year + 1900) ++ field true 2 (tm.mon + 1) ++ field true 2 tm.mday ++ [' '] ++
    field true 2 tm.hour ++ [':'] ++ field true 2 tm.min ++ [':'] ++ field true 2 tm.sec ++
    ['.'] ++ field true 6 (t.tmod kmicrosecondsPerSecond)

/-! ### Fields of fixed widths -/

/-- The last `w` digits of a number. -/
abbrev digits (w n : ℕ) : List Char := fixed 10 Nat.digitChar w n

theorem digitChar_lt : ∀ i j, i < j → j < 10 → Nat.digitChar i < Nat.digitChar j := by
  have h : ∀ j < 10, ∀ i < j, Nat.digitChar i < Nat.digitChar j := by decide
  exact fun i j hij hj => h j hj i hij

theorem digits_lt {w n m : ℕ} (hlt : n < m) (hm : m < 10 ^ w) : digits w n < digits w m :=
  fixed_lt digitChar_lt hlt hm

theorem field_zero {w n : ℕ} (hw : 0 < w) (h : n < 10 ^ w) : field true w n = digits w n :=
  fixed_eq_padLeft (by decide) hw h

/-- A year of four digits is not padded. -/
theorem field_year {n : ℕ} (h : 1000 ≤ n) (h' : n < 10 ^ 4) : field false 4 n = digits 4 n := by
  have hlen : 4 ≤ (numeral 10 Nat.digitChar n).length := by
    unfold numeral
    rw [if_neg (by omega), List.length_reverse, List.length_map]
    by_contra hlt
    have := (Nat.digits_length_le_iff (by decide) n).mp (Nat.lt_succ_iff.mp (not_le.mp hlt))
    omega
  have hfixed : padLeft 4 '0' (numeral 10 Nat.digitChar n) = digits 4 n :=
    fixed_eq_padLeft (by decide) (by decide) h'
  rw [← hfixed, padLeft_of_le hlen]
  exact padLeft_of_le hlen ' '

theorem append_lt_append {l l' r r' : List Char} (hlen : l.length = l'.length)
    (h : l < l' ∨ l = l' ∧ r < r') : l ++ r < l' ++ r' := by
  rcases h with h | ⟨rfl, h⟩
  · exact append_lt hlen h
  · exact append_lt_left h

/-! ### The date and the time of the day -/

def dateText (d : Date) : List Char := digits 4 d.year ++ (digits 2 d.month ++ digits 2 d.day)

def timeText (sep : List Char) (s : ℕ) : List Char :=
  digits 2 (s / 3600) ++ (sep ++ (digits 2 (s % 3600 / 60) ++ (sep ++ digits 2 (s % 60))))

theorem length_dateText (d : Date) : (dateText d).length = 8 := by
  unfold dateText
  simp only [List.length_append, length_fixed]

theorem length_timeText (sep : List Char) (s s' : ℕ) :
    (timeText sep s).length = (timeText sep s').length := by
  unfold timeText
  simp only [List.length_append, length_fixed]

theorem dateText_lt {d e : Date} (h : d < e) (he : e.Valid) (hyear : e.year < 10 ^ 4) :
    dateText d < dateText e := by
  have hday : e.day < 10 ^ 2 := (he.day.2.trans (daysIn_le _ _)).trans_lt (by decide)
  have hmonth : e.month < 10 ^ 2 := he.month.2.trans_lt (by decide)
  have hlen : ∀ w n m, (digits w n).length = (digits w m).length := fun w n m => by
    rw [length_fixed, length_fixed]
  refine append_lt_append (hlen _ _ _) ?_
  rcases Date.lt_iff.mp h with hlt | ⟨heq, hlt | ⟨heq', hlt⟩⟩
  · exact .inl (digits_lt hlt hyear)
  · exact .inr ⟨by rw [heq], append_lt_append (hlen _ _ _) (.inl (digits_lt hlt hmonth))⟩
  · exact .inr ⟨by rw [heq],
      append_lt_append (hlen _ _ _) (.inr ⟨by rw [heq'], digits_lt hlt hday⟩)⟩

theorem timeText_lt {sep : List Char} {s s' : ℕ} (h : s < s') (h' : s' < daySeconds) :
    timeText sep s < timeText sep s' := by
  have hlen : ∀ n m, (digits 2 n).length = (digits 2 m).length := fun n m => by
    rw [length_fixed, length_fixed]
  unfold daySeconds at h'
  refine append_lt_append (hlen _ _) ?_
  rcases lt_or_eq_of_le (Nat.div_le_div_right (c := 3600) h.le) with hlt | heq
  · exact .inl (digits_lt hlt (by omega))
  refine .inr ⟨by rw [heq], append_lt_left (append_lt_append (hlen _ _) ?_)⟩
  have hmod : s % 3600 < s' % 3600 := by omega
  rcases lt_or_eq_of_le (Nat.div_le_div_right (c := 60) hmod.le) with hlt | heq'
  · exact .inl (digits_lt hlt (by omega))
  refine .inr ⟨by rw [heq'], append_lt_left (digits_lt ?_ (by omega))⟩
  omega

/-! ### The order of the texts -/

/-- A local time from the epoch on, in a year of four digits. -/
structure InRange (offset : ℤ) (t : Timestamp) : Prop where
  valid : 0 ≤ t
  since : 0 ≤ t.getSecondsSinceEpoch + offset
  year : (date (localSeconds offset t.getSecondsSinceEpoch / daySeconds)).year < 10 ^ 4

/-- The seconds of the local clock, and the text without the microseconds. -/
def clock (offset : ℤ) (t : Timestamp) : ℕ := localSeconds offset t.getSecondsSinceEpoch

def clockText (mid sep : List Char) (n : ℕ) : List Char :=
  dateText (date (n / daySeconds)) ++ (mid ++ timeText sep (n % daySeconds))

theorem clockText_lt {mid sep : List Char} {n m : ℕ} (h : n < m)
    (hyear : (date (m / daySeconds)).year < 10 ^ 4) :
    clockText mid sep n < clockText mid sep m := by
  refine append_lt_append (by rw [length_dateText, length_dateText]) ?_
  rcases lt_or_eq_of_le (Nat.div_le_div_right (c := daySeconds) h.le) with hlt | heq
  · exact .inl (dateText_lt (date_strictMono hlt) (valid_date _) hyear)
  · refine .inr ⟨by rw [heq], append_lt_left (timeText_lt ?_ (Nat.mod_lt _ (by decide)))⟩
    have hn := Nat.div_add_mod n daySeconds
    have hm := Nat.div_add_mod m daySeconds
    rw [heq] at hn
    omega

theorem length_clockText (mid sep : List Char) (n m : ℕ) :
    (clockText mid sep n).length = (clockText mid sep m).length := by
  unfold clockText
  rw [List.length_append, List.length_append, List.length_append, List.length_append,
    length_dateText, length_dateText, length_timeText]

section
variable {offset : ℤ} {t u : Timestamp}

/-- The fields that `localtime_r` computes, as they are printed. -/
theorem fields_localtime (h : InRange offset t) :
    let tm := localtime offset t.getSecondsSinceEpoch
    let n := clock offset t
    field false 4 (tm.year + 1900) ++ field true 2 (tm.mon + 1) ++ field true 2 tm.mday =
        dateText (date (n / daySeconds)) ∧
      field true 2 tm.hour = digits 2 (n % daySeconds / 3600) ∧
      field true 2 tm.min = digits 2 (n % daySeconds % 3600 / 60) ∧
      field true 2 tm.sec = digits 2 (n % daySeconds % 60) := by
  have hvalid := valid_date (clock offset t / daySeconds)
  have hyear := year_date (clock offset t / daySeconds)
  have hyear' : (date (clock offset t / daySeconds)).year < 10 ^ 4 := h.year
  have hmod : clock offset t % daySeconds < 86400 := Nat.mod_lt _ (by decide)
  have hday := hvalid.day.2.trans (daysIn_le _ _)
  have hhour : clock offset t % daySeconds / 3600 < 10 ^ 2 := by omega
  have hmin : clock offset t % daySeconds % 3600 / 60 < 10 ^ 2 := by omega
  have hsec : clock offset t % daySeconds % 60 < 10 ^ 2 := by omega
  refine ⟨?_, field_zero (by decide) hhour, field_zero (by decide) hmin,
    field_zero (by decide) hsec⟩
  have hy : field false 4 ((localtime offset t.getSecondsSinceEpoch).year + 1900) =
      digits 4 (date (clock offset t / daySeconds)).year := by
    rw [← field_year (by omega) hyear']
    exact congrArg _ (Int.sub_add_cancel _ _)
  have hm : field true 2 ((localtime offset t.getSecondsSinceEpoch).mon + 1) =
      digits 2 (date (clock offset t / daySeconds)).month := by
    rw [← field_zero (by decide) (hvalid.month.2.trans_lt (by decide))]
    exact congrArg _ (Int.sub_add_cancel _ _)
  have hd : field true 2 (localtime offset t.getSecondsSinceEpoch).mday =
      digits 2 (date (clock offset t / daySeconds)).day :=
    field_zero (by decide) (hday.trans_lt (by decide))
  rw [hy, hm, hd, List.append_assoc]
  rfl

/-- **`to_formatted_string(false)`**. -/
theorem toFormattedString_eq (h : InRange offset t) :
    toFormattedString (localtime offset) t = clockText ['-'] [] (clock offset t) := by
  obtain ⟨hdate, hhour, hmin, hsec⟩ := fields_localtime h
  unfold toFormattedString clockText timeText
  dsimp only
  rw [hdate, hhour, hmin, hsec]
  simp only [List.append_assoc, List.nil_append]

/-- **`to_formatted_string(true)`**. -/
theorem toFormattedStringMicro_eq (h : InRange offset t) :
    toFormattedStringMicro (localtime offset) t =
      clockText [' '] [':'] (clock offset t) ++ (['.'] ++ digits 6 (t.toNat % 1000000)) := by
  obtain ⟨hdate, hhour, hmin, hsec⟩ := fields_localtime h
  have hmicro : field true 6 (t.tmod kmicrosecondsPerSecond) = digits 6 (t.toNat % 1000000) := by
    have hlt : t.toNat % 1000000 < 10 ^ 6 := Nat.mod_lt _ (by decide)
    rw [← field_zero (by decide) hlt]
    congr 1
    rw [Int.tmod_eq_emod_of_nonneg h.valid]
    have := Int.toNat_of_nonneg h.valid
    unfold kmicrosecondsPerSecond
    omega
  unfold toFormattedStringMicro clockText timeText
  dsimp only
  rw [hdate, hhour, hmin, hsec, hmicro]
  simp only [List.append_assoc]

/-- A local clock goes with the time. -/
theorem clock_le (h : InRange offset t) (hlt : t ≤ u) : clock offset t ≤ clock offset u := by
  have hs : t.getSecondsSinceEpoch ≤ u.getSecondsSinceEpoch := by
    unfold getSecondsSinceEpoch
    rw [Int.tdiv_eq_ediv_of_nonneg h.valid, Int.tdiv_eq_ediv_of_nonneg (h.valid.trans hlt)]
    exact Int.ediv_le_ediv (by decide) hlt
  exact Int.toNat_le_toNat (Int.add_le_add_right hs offset)

theorem clock_lt_iff (h : InRange offset t) (h' : InRange offset u) :
    clock offset t < clock offset u ↔ t.getSecondsSinceEpoch < u.getSecondsSinceEpoch := by
  have h1 := h.since
  have h2 := h'.since
  unfold clock localSeconds
  omega

theorem formatted_seconds_lt (h' : InRange offset u) (h : InRange offset t)
    (hlt : t.getSecondsSinceEpoch < u.getSecondsSinceEpoch) :
    toFormattedString (localtime offset) t < toFormattedString (localtime offset) u := by
  rw [toFormattedString_eq h, toFormattedString_eq h']
  exact clockText_lt ((clock_lt_iff h h').mpr hlt) h'.year

theorem formatted_seconds_eq (h : InRange offset t) (h' : InRange offset u)
    (heq : t.getSecondsSinceEpoch = u.getSecondsSinceEpoch) :
    toFormattedString (localtime offset) t = toFormattedString (localtime offset) u := by
  rw [toFormattedString_eq h, toFormattedString_eq h']
  unfold clock
  rw [heq]

theorem formatted_seconds_lt_iff (h : InRange offset t) (h' : InRange offset u) :
    toFormattedString (localtime offset) t < toFormattedString (localtime offset) u ↔
      t.getSecondsSinceEpoch < u.getSecondsSinceEpoch := by
  refine ⟨fun hlt => ?_, formatted_seconds_lt h' h⟩
  by_contra hge
  rcases lt_or_eq_of_le (not_lt.mp hge) with hgt | heq
  · exact lt_asymm hlt (formatted_seconds_lt h h' hgt)
  · rw [formatted_seconds_eq h h' heq.symm] at hlt
    exact lt_irrefl _ hlt

/-- Two times in one second. -/
theorem micro_lt {t u : ℤ} (hv : 0 ≤ t) (hs : t / 1000000 = u / 1000000) (hlt : t < u) :
    t.toNat % 1000000 < u.toNat % 1000000 := by
  omega

theorem formatted_lt (h : InRange offset t) (h' : InRange offset u) (hlt : t < u) :
    toFormattedStringMicro (localtime offset) t < toFormattedStringMicro (localtime offset) u := by
  rw [toFormattedStringMicro_eq h, toFormattedStringMicro_eq h']
  refine append_lt_append (length_clockText _ _ _ _) ?_
  rcases lt_or_eq_of_le (clock_le h hlt.le) with hclock | hclock
  · exact .inl (clockText_lt hclock h'.year)
  · refine .inr ⟨by rw [hclock], append_lt_left (digits_lt ?_ (Nat.mod_lt _ (by decide)))⟩
    -- the same second
    have hs : t.getSecondsSinceEpoch = u.getSecondsSinceEpoch := by
      have h1 := h.since
      have h2 := h'.since
      unfold clock localSeconds at hclock
      omega
    unfold getSecondsSinceEpoch kmicrosecondsPerSecond at hs
    rw [Int.tdiv_eq_ediv_of_nonneg h.valid, Int.tdiv_eq_ediv_of_nonneg h'.valid] at hs
    exact micro_lt h.valid hs hlt

theorem formatted_lt_iff (h : InRange offset t) (h' : InRange offset u) :
    toFormattedStringMicro (localtime offset) t < toFormattedStringMicro (localtime offset) u ↔
      t < u := by
  refine ⟨fun hlt => ?_, formatted_lt h h'⟩
  by_contra hge
  rcases lt_or_eq_of_le (not_lt.mp hge) with hgt | rfl
  · exact lt_asymm hlt (formatted_lt h' h hgt)
  · exact lt_irrefl _ hlt

/-- **The texts are ordered as the times are**, in a time zone without daylight saving and up to the
year 9999: those of the records to the microsecond, those of the file names to the second. -/
theorem formatted_order (h : InRange offset t) (h' : InRange offset u) :
    (toFormattedStringMicro (localtime offset) t < toFormattedStringMicro (localtime offset) u ↔
      t < u) ∧
    (toFormattedString (localtime offset) t < toFormattedString (localtime offset) u ↔
      t.getSecondsSinceEpoch < u.getSecondsSinceEpoch) :=
  ⟨formatted_lt_iff h h', formatted_seconds_lt_iff h h'⟩

end

/-- Midnight of the second of January 1970 in China, and the microsecond before. -/
theorem formatted_order_midnight :
    (toFormattedStringMicro (localtime 28800) 57599999999 <
      toFormattedStringMicro (localtime 28800) 57600000000 ↔
        (57599999999 : Timestamp) < 57600000000) ∧
    (toFormattedString (localtime 28800) 57599999999 <
      toFormattedString (localtime 28800) 57600000000 ↔
        getSecondsSinceEpoch 57599999999 < getSecondsSinceEpoch 57600000000) :=
  formatted_order ⟨by decide, by decide, by decide +kernel⟩
    ⟨by decide, by decide, by decide +kernel⟩

end ToolsCxx.Base.TimeText
