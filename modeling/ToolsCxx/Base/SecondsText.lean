import ToolsCxx.Base.Timestamp
import Mathlib.Tactic.FieldSimp
import Mathlib.Tactic.Ring
import Mathlib.Algebra.Order.Field.Rat

/-! # A time in seconds

`to_string` prints the seconds and the microseconds with a dot between them. The division is towards
zero, so before the epoch each of the two numbers has a sign of its own.

* `readTime_toString`: the two numbers are read back, whatever the time.
* `toString_ok`: with that, the buffer is never too short; and the text is the decimal number of the
  seconds, unless there are negative microseconds, when it is no decimal number at all. -/

namespace ToolsCxx.Base.SecondsText

open ToolsCxx.Base ToolsCxx.Base.Timestamp ToolsCxx.Lib.Numerals

/-! ### The function -/

/-- What `"%" PRId64 ".%06" PRId64` prints. -/
def printed (t : Timestamp) : List Char :=
  field true 0 (t.tdiv kmicrosecondsPerSecond) ++
    '.' :: field true 6 (t.tmod kmicrosecondsPerSecond)

/-- `Timestamp::to_string`: `snprintf` is given 31 of the bytes of the buffer, the last one for the
zero. -/
def toString (t : Timestamp) : List Char := (printed t).take 30

/-! ### Reading -/

def digitValue (c : Char) : Option ℕ := if c.isDigit then some (c.toNat - '0'.toNat) else none

/-- A numeral with nothing but digits. -/
def readNat : List Char → Option ℕ := read 10 digitValue

/-- What may have a sign. -/
def readSigned {α : Type} [Neg α] (read : List Char → Option α) : List Char → Option α
  | '-' :: text => (read text).map Neg.neg
  | text => read text

/-- A numeral that may have a sign. -/
def readInt : List Char → Option ℤ := readSigned fun text => (readNat text).map Nat.cast

/-- The text before the dot, and after it. -/
def whole (text : List Char) : List Char := text.takeWhile (· ≠ '.')

def fraction (text : List Char) : List Char := (text.dropWhile (· ≠ '.')).tail

/-- The time of a number of seconds and one of microseconds. -/
def readTime (text : List Char) : Option Timestamp := do
  let seconds ← readInt (whole text)
  let microseconds ← readInt (fraction text)
  return seconds * kmicrosecondsPerSecond + microseconds

/-- A decimal number with nothing but digits and the dot. -/
def readMagnitude (text : List Char) : Option ℚ := do
  let n ← readNat (whole text)
  let m ← readNat (fraction text)
  return n + m / 10 ^ (fraction text).length

/-- A decimal number that may have a sign. -/
def readDecimal : List Char → Option ℚ := readSigned readMagnitude

/-! ### The two numbers -/

/-- A numeral in a field of zeros. -/
def padded (w n : ℕ) : List Char := padLeft w '0' (numeral 10 Nat.digitChar n)

theorem field_of_nonneg {w : ℕ} {x : ℤ} (h : 0 ≤ x) : field true w x = padded w x.natAbs := by
  unfold field
  rw [if_neg (not_lt.mpr h)]
  rfl

theorem field_of_neg {w : ℕ} {x : ℤ} (h : x < 0) :
    field true w x = '-' :: padded (w - 1) x.natAbs := by
  unfold field
  rw [if_pos h]
  rfl

theorem isDigit_of_mem_padded {w n : ℕ} {c : Char} (h : c ∈ padded w n) : c.isDigit = true := by
  have hdigit : ∀ k < 10, (Nat.digitChar k).isDigit = true := by decide
  rcases List.mem_append.mp h with h | h
  · rw [(List.mem_replicate.mp h).2]
    rfl
  · obtain ⟨k, hk, rfl⟩ := mem_numeral (by decide) h
    exact hdigit k hk

theorem readNat_padded (w n : ℕ) : readNat (padded w n) = some n := by
  have hvalue : ∀ k < 10, digitValue (Nat.digitChar k) = some k := by decide
  exact read_padLeft (by decide) hvalue w n

theorem length_padded_pos (w n : ℕ) : 0 < (padded w n).length := by
  unfold padded
  rw [length_padLeft]
  exact lt_max_of_lt_right length_numeral_pos

theorem isDigit_ne {c : Char} (h : c.isDigit = true) : c ≠ '-' ∧ c ≠ '.' := by
  constructor <;> rintro rfl <;> exact absurd h (by decide)

section
variable {α : Type} [Neg α] {read : List Char → Option α}

theorem readSigned_of_ne {c : Char} {text : List Char} (h : c ≠ '-') :
    readSigned read (c :: text) = read (c :: text) := by
  unfold readSigned
  split
  · rename_i heq
    exact absurd (List.cons.inj heq).1 h
  · rfl

/-- A text that begins with a numeral has no sign. -/
theorem readSigned_padded (w n : ℕ) (text : List Char) :
    readSigned read (padded w n ++ text) = read (padded w n ++ text) := by
  obtain ⟨c, rest, hc⟩ := List.exists_cons_of_length_pos (length_padded_pos w n)
  have hmem : c ∈ padded w n := by
    rw [hc]
    exact List.mem_cons_self
  rw [hc]
  exact readSigned_of_ne (isDigit_ne (isDigit_of_mem_padded hmem)).1

end

theorem readInt_field (w : ℕ) (x : ℤ) : readInt (field true w x) = some x := by
  unfold readInt
  rcases lt_or_ge x 0 with h | h
  · rw [field_of_neg h]
    show ((readNat (padded (w - 1) x.natAbs)).map Nat.cast).map Neg.neg = some x
    rw [readNat_padded]
    exact congrArg some (by omega)
  · rw [field_of_nonneg h, ← List.append_nil (padded w x.natAbs), readSigned_padded,
      List.append_nil, readNat_padded]
    exact congrArg some (Int.natAbs_of_nonneg h)

/-! ### The dot -/

theorem whole_append {l r : List Char} (h : ∀ c ∈ l, c ≠ '.') : whole (l ++ '.' :: r) = l := by
  unfold whole
  rw [List.takeWhile_append_of_pos fun c hc => decide_eq_true (h c hc)]
  exact List.append_nil l

theorem fraction_append {l r : List Char} (h : ∀ c ∈ l, c ≠ '.') :
    fraction (l ++ '.' :: r) = r := by
  unfold fraction
  rw [List.dropWhile_append_of_pos fun c hc => decide_eq_true (h c hc)]
  rfl

theorem field_ne_dot {w : ℕ} {x : ℤ} : ∀ c ∈ field true w x, c ≠ '.' := by
  intro c hc
  rcases lt_or_ge x 0 with h | h
  · rw [field_of_neg h] at hc
    rcases List.mem_cons.mp hc with rfl | hc
    · decide
    · exact (isDigit_ne (isDigit_of_mem_padded hc)).2
  · rw [field_of_nonneg h] at hc
    exact (isDigit_ne (isDigit_of_mem_padded hc)).2

/-- **The two numbers are read back.** -/
theorem readTime_printed (t : Timestamp) : readTime (printed t) = some t := by
  unfold readTime printed
  rw [whole_append field_ne_dot, fraction_append field_ne_dot, readInt_field, readInt_field]
  exact congrArg some (Int.tdiv_mul_add_tmod t _)

/-! ### The buffer -/

theorem length_padded_le {w n k : ℕ} (h : n < 10 ^ (k + 1)) :
    (padded w n).length ≤ max w (k + 1) := by
  unfold padded
  rw [length_padLeft]
  exact max_le_max_left w (length_numeral_le (by decide) h)

theorem length_field_le {w k : ℕ} {x : ℤ} (h : x.natAbs < 10 ^ (k + 1)) :
    (field true w x).length ≤ max w (k + 2) := by
  rcases lt_or_ge x 0 with hx | hx
  · have hlen := length_padded_le (w := w - 1) h
    rw [field_of_neg hx, List.length_cons]
    omega
  · have hlen := length_padded_le (w := w) h
    rw [field_of_nonneg hx]
    omega

/-- The sizes of the two numbers. -/
theorem natAbs_lt {t : Timestamp} (h : InInt64 t) :
    (t.tdiv kmicrosecondsPerSecond).natAbs < 10 ^ 13 ∧
      (t.tmod kmicrosecondsPerSecond).natAbs < 10 ^ 6 := by
  obtain ⟨hlo, hhi⟩ := h
  rw [Int.natAbs_tdiv, Int.natAbs_tmod]
  show t.natAbs / 1000000 < _ ∧ t.natAbs % 1000000 < _
  omega

theorem toString_eq {t : Timestamp} (h : InInt64 t) : toString t = printed t := by
  obtain ⟨hs, hu⟩ := natAbs_lt h
  have hseconds := length_field_le (w := 0) hs
  have hmicro := length_field_le (w := 6) hu
  refine List.take_of_length_le ?_
  unfold printed
  rw [List.length_append, List.length_cons]
  omega

/-! ### Decimal numbers -/

theorem length_micro {m : ℕ} (h : m < 10 ^ 6) : (padded 6 m).length = 6 := by
  have hle := length_padded_le (w := 6) h
  have hge : 6 ≤ (padded 6 m).length := by
    unfold padded
    rw [length_padLeft]
    exact le_max_left _ _
  omega

theorem padded_ne_dot {w n : ℕ} : ∀ c ∈ padded w n, c ≠ '.' := fun _ hc =>
  (isDigit_ne (isDigit_of_mem_padded hc)).2

theorem readMagnitude_padded {w n m : ℕ} (h : m < 10 ^ 6) :
    readMagnitude (padded w n ++ '.' :: padded 6 m) = some ((n : ℚ) + m / 10 ^ 6) := by
  unfold readMagnitude
  rw [whole_append padded_ne_dot, fraction_append padded_ne_dot, readNat_padded, readNat_padded,
    length_micro h]
  rfl

/-- A fraction with a sign is none. -/
theorem readMagnitude_minus {w n : ℕ} {text : List Char} :
    readMagnitude (padded w n ++ '.' :: '-' :: text) = none := by
  unfold readMagnitude
  rw [whole_append padded_ne_dot, fraction_append padded_ne_dot, readNat_padded]
  rfl

/-- The number of the seconds, in whole seconds and millionths. -/
theorem seconds_eq (t : Timestamp) : ((t.tdiv kmicrosecondsPerSecond : ℤ) : ℚ) +
    (t.tmod kmicrosecondsPerSecond : ℤ) / 10 ^ 6 = (t : ℚ) / 10 ^ 6 := by
  have h : ((t.tdiv kmicrosecondsPerSecond : ℤ) : ℚ) * 10 ^ 6 +
      (t.tmod kmicrosecondsPerSecond : ℤ) = t := by
    exact_mod_cast Int.tdiv_mul_add_tmod t kmicrosecondsPerSecond
  rw [← h]
  field_simp

theorem cast_natAbs {x : ℤ} (h : 0 ≤ x) : (x.natAbs : ℚ) = x := by
  rw [Nat.cast_natAbs, abs_of_nonneg h]

theorem readDecimal_of_nonneg {t : Timestamp} (h : InInt64 t) (ht : 0 ≤ t) :
    readDecimal (printed t) = some ((t : ℚ) / 10 ^ 6) := by
  have hs : 0 ≤ t.tdiv kmicrosecondsPerSecond := Int.tdiv_nonneg ht (by decide)
  have hu : 0 ≤ t.tmod kmicrosecondsPerSecond := Int.tmod_nonneg _ ht
  unfold readDecimal printed
  rw [field_of_nonneg hs, field_of_nonneg hu, readSigned_padded,
    readMagnitude_padded (natAbs_lt h).2, cast_natAbs hs, cast_natAbs hu, seconds_eq]

/-- Whole seconds before the epoch. -/
theorem readDecimal_of_tmod_eq_zero {t : ℤ} (ht : t < 0)
    (hu : t.tmod kmicrosecondsPerSecond = 0) :
    readDecimal (printed t) = some ((t : ℚ) / 10 ^ 6) := by
  have hsum := Int.tdiv_mul_add_tmod t kmicrosecondsPerSecond
  have hs : t.tdiv kmicrosecondsPerSecond < 0 := by
    rw [hu] at hsum
    unfold kmicrosecondsPerSecond at hsum ⊢
    omega
  have hneg : ((t.tdiv kmicrosecondsPerSecond).natAbs : ℚ) =
      -(t.tdiv kmicrosecondsPerSecond : ℤ) := by
    rw [Nat.cast_natAbs, abs_of_neg hs, Int.cast_neg]
  have hdecimal := seconds_eq t
  rw [hu] at hdecimal
  unfold readDecimal printed
  rw [field_of_neg hs, field_of_nonneg hu.ge, hu]
  show (readMagnitude (padded _ _ ++ '.' :: padded 6 0)).map Neg.neg = _
  rw [readMagnitude_padded (by decide), hneg, ← hdecimal]
  exact congrArg some (by ring)

theorem tmod_nonpos {t : ℤ} (ht : t < 0) : t.tmod kmicrosecondsPerSecond ≤ 0 := by
  have h : 0 ≤ (-t).tmod kmicrosecondsPerSecond := Int.tmod_nonneg _ (neg_nonneg.mpr ht.le)
  rwa [Int.neg_tmod, neg_nonneg] at h

/-- Parts of a second before the epoch. -/
theorem readDecimal_of_tmod_neg {t : Timestamp} (hu : t.tmod kmicrosecondsPerSecond < 0) :
    readDecimal (printed t) = none := by
  unfold readDecimal printed
  rw [field_of_neg hu]
  rcases lt_or_ge (t.tdiv kmicrosecondsPerSecond) 0 with hs | hs
  · rw [field_of_neg hs]
    exact congrArg (Option.map Neg.neg) readMagnitude_minus
  · rw [field_of_nonneg hs, readSigned_padded]
    exact readMagnitude_minus

/-- **`to_string`** is never cut off, and the time is read back from it; it is the decimal number of
the seconds from the epoch on, and for whole seconds, else it is none. -/
theorem toString_ok (t : Timestamp) (h : InInt64 t) :
    toString t = printed t ∧ readTime (toString t) = some t ∧
      readDecimal (toString t) =
        if 0 ≤ t ∨ t.tmod kmicrosecondsPerSecond = 0 then some ((t : ℚ) / 10 ^ 6) else none := by
  rw [toString_eq h]
  refine ⟨rfl, readTime_printed t, ?_⟩
  split_ifs with hcase
  · rcases lt_or_ge t 0 with ht | ht
    · exact readDecimal_of_tmod_eq_zero ht (hcase.resolve_left (not_le.mpr ht))
    · exact readDecimal_of_nonneg h ht
  · obtain ⟨ht, hu⟩ := not_or.mp hcase
    exact readDecimal_of_tmod_neg (lt_of_le_of_ne (tmod_nonpos (not_le.mp ht)) hu)

/-- Half a second before the epoch. -/
theorem toString_ok_half : toString (-500000) = printed (-500000) ∧
    readTime (toString (-500000)) = some (-500000) ∧
      readDecimal (toString (-500000)) =
        if 0 ≤ (-500000 : ℤ) ∨ Int.tmod (-500000) kmicrosecondsPerSecond = 0 then
          some (((-500000 : ℤ) : ℚ) / 10 ^ 6) else none :=
  toString_ok (-500000) (by decide)

example : toString (-500000) = "0.-500000".toList ∧ toString 1500000 = "1.500000".toList := by
  decide +kernel

end ToolsCxx.Base.SecondsText
