import Mathlib.Algebra.Order.Round
import Mathlib.Tactic.FieldSimp
import Mathlib.Tactic.Linarith
import Mathlib.Tactic.Positivity
import Mathlib.Tactic.Ring

/-! # Rounding in two parts

A number is rounded to a multiple of `1 / B`, half away from zero (`roundTo`). This can be done in
two parts: the whole part stays, the fraction is scaled and rounded (`scaledFract`), and may be a
whole one, which is carried (`carried`). `roundTo_eq` and `carried_value`: the two parts together
are the rounded number. -/

namespace ToolsCxx.Lib.Rounding

variable {K : Type*} [Field K] [LinearOrder K] [IsStrictOrderedRing K] [FloorRing K]

/-- The nearest integer, and of two the one farther from zero. -/
def roundAway (x : K) : ℤ := if x < 0 then -round (-x) else round x

/-- The nearest multiple of `1 / B`. -/
def roundTo (B : ℕ) (x : K) : K := roundAway (x * B) / B

/-- The fraction, in multiples of `1 / B`. -/
def scaledFract (B : ℕ) (x : K) : ℤ := ⌊Int.fract x * B + 1 / 2⌋

/-- A whole part and multiples of `1 / B`, with the carry. -/
def carried (B : ℕ) (q r : ℤ) : ℤ × ℤ := if r = B then (q + 1, 0) else (q, r)

variable {B : ℕ} {x : K}

theorem roundTo_of_neg (hB : 0 < B) (hx : x < 0) : roundTo B x = -roundTo B (-x) := by
  have hcast : (0 : K) < B := Nat.cast_pos.mpr hB
  have hneg : x * B < 0 := mul_neg_of_neg_of_pos hx hcast
  have hpos : ¬ -x * B < 0 := not_lt.mpr (mul_nonneg (neg_nonneg.mpr hx.le) hcast.le)
  unfold roundTo roundAway
  rw [if_pos hneg, if_neg hpos, neg_mul, Int.cast_neg, neg_div]

/-- A fraction is less than one, but it may be rounded to one. -/
theorem scaledFract_le (B : ℕ) (x : K) : scaledFract B x ≤ B := by
  have hlt : Int.fract x * B ≤ B :=
    mul_le_of_le_one_left (Nat.cast_nonneg B) (Int.fract_lt_one x).le
  refine Int.lt_add_one_iff.mp (Int.floor_lt.mpr ?_)
  push_cast
  linarith

/-- **The two parts**. -/
theorem roundTo_eq (hx : 0 ≤ x) :
    roundTo B x = ((⌊x⌋ * B + scaledFract B x : ℤ) : K) / B := by
  have hpos : ¬ x * B < 0 := not_lt.mpr (mul_nonneg hx (Nat.cast_nonneg B))
  have hsplit : x * B + 1 / 2 = ((⌊x⌋ * B : ℤ) : K) + (Int.fract x * B + 1 / 2) :=
    calc x * B + 1 / 2 = (⌊x⌋ + Int.fract x) * B + 1 / 2 := by rw [Int.floor_add_fract]
      _ = ((⌊x⌋ * B : ℤ) : K) + (Int.fract x * B + 1 / 2) := by
        push_cast
        ring
  unfold roundTo roundAway scaledFract
  rw [if_neg hpos, round_eq, hsplit, Int.floor_intCast_add]

omit [FloorRing K] in
theorem carried_value (hB : 0 < B) (q r : ℤ) :
    ((carried B q r).1 : K) + (carried B q r).2 / B = ((q * B + r : ℤ) : K) / B := by
  have hcast : (B : K) ≠ 0 := (Nat.cast_pos.mpr hB).ne'
  unfold carried
  split_ifs with hr
  · rw [hr]
    push_cast
    field_simp
    ring
  · push_cast
    field_simp

theorem carried_lt (hB : 0 < B) {q r : ℤ} (hr : r ≤ B) : (carried B q r).2 < B := by
  unfold carried
  split_ifs with heq
  · exact Int.natCast_pos.mpr hB
  · exact lt_of_le_of_ne hr heq

end ToolsCxx.Lib.Rounding
