import ToolsCxx.Lib.Rounding
import ToolsCxx.Logging.Integers
import Mathlib.Data.Rat.Floor

/-! # `LogPrint`: fractions

`%f` with a width and a precision, for exact rationals. `vprintf` prints the whole part, and the
fraction times a power of ten as an integer of 64 bits, with the carry of the rounding: the text is
the number rounded half away from zero (`rounded_iff`), as long as the scaled fraction has 64 bits.
With up to 19 places it always has (`scales_of_le`), but the parser takes a precision of 255. -/

namespace ToolsCxx.Logging.Fractions

open ToolsCxx.Lib.Sinks ToolsCxx.Lib.Numerals ToolsCxx.Lib.Rounding
open ToolsCxx.Base
open ToolsCxx.Logging.Buffer ToolsCxx.Logging.Print ToolsCxx.Logging.Format ToolsCxx.Logging.Steps
open ToolsCxx.Logging.Fields ToolsCxx.Logging.Integers

/-! ### Conversions -/

section
variable {y : ℚ}

theorem truncate_eq_floor (hy : 0 ≤ y) : Timestamp.truncate y = ⌊y⌋ := by
  unfold Timestamp.truncate
  rw [Int.tdiv_eq_ediv_of_nonneg (Rat.num_nonneg.mpr hy), ← Rat.floor_def']

theorem inRange_iff (hy : 0 ≤ y) : Double.inRange y = true ↔ y < 2 ^ 64 := by
  have hcast : ((2 ^ 64 : ℤ) : ℚ) = 2 ^ 64 := by norm_num
  show decide (0 ≤ Timestamp.truncate y ∧ Timestamp.truncate y < 2 ^ 64) = true ↔ y < 2 ^ 64
  rw [decide_eq_true_iff, truncate_eq_floor hy, Int.floor_lt, hcast]
  exact and_iff_right (Int.floor_nonneg.mpr hy)

/-- The conversion of a number that is in range. -/
theorem toNat_toUint64 (hy : 0 ≤ y) (hlt : y < 2 ^ 64) :
    ((Double.toUint64 y).toNat : ℤ) = ⌊y⌋ := by
  have hfloor : 0 ≤ ⌊y⌋ := Int.floor_nonneg.mpr hy
  have hbound : ⌊y⌋ < 2 ^ 64 := Int.floor_lt.mpr (by norm_num; exact hlt)
  show ((BitVec.ofInt 64 (Timestamp.truncate y)).toNat : ℤ) = ⌊y⌋
  rw [truncate_eq_floor hy, BitVec.toNat_ofInt, Int.toNat_of_nonneg (Int.emod_nonneg _ (by decide))]
  exact Int.emod_eq_of_lt hfloor hbound

theorem ofUint64_toUint64 (hy : 0 ≤ y) (hlt : y < 2 ^ 64) :
    (Double.ofUint64 (Double.toUint64 y) : ℚ) = ⌊y⌋ := by
  show (((Double.toUint64 y).toNat : ℕ) : ℚ) = ⌊y⌋
  rw [← toNat_toUint64 hy hlt]
  norm_cast

/-- What is converted for the fraction. -/
theorem scaled_eq (hy : 0 ≤ y) (hlt : y < 2 ^ 64) (w : BitVec 8) :
    scaled y w = Int.fract y * 10 ^ w.toNat + 1 / 2 := by
  show (y - Double.ofUint64 (Double.toUint64 y)) * 10 ^ w.toNat + 1 / 2 = _
  rw [ofUint64_toUint64 hy hlt]
  rfl

/-- The scaled fraction is in range. -/
def Scales (w : ℕ) (y : ℚ) : Prop := Int.fract y * 10 ^ w + 1 / 2 < 2 ^ 64

instance (w : ℕ) (y : ℚ) : Decidable (Scales w y) := inferInstanceAs (Decidable (_ < _))

theorem scales_of_le {w : ℕ} (hw : w ≤ 19) (y : ℚ) : Scales w y := by
  have hfract : Int.fract y < 1 := Int.fract_lt_one y
  have hpow : (10 : ℚ) ^ w ≤ 10 ^ 19 := pow_le_pow_right₀ (by norm_num) hw
  have hmul : Int.fract y * 10 ^ w ≤ 1 * 10 ^ 19 :=
    mul_le_mul hfract.le hpow (by positivity) zero_le_one
  unfold Scales
  linarith

/-- The integers that are printed: the two parts of the rounded number. -/
theorem splitDouble_eq {w : BitVec 8} (hy : 0 ≤ y) (hlt : y + 1 < 2 ^ 64)
    (hscales : Scales w.toNat y) :
    ((splitDouble y w).1.toNat : ℤ) =
        (carried (10 ^ w.toNat) ⌊y⌋ (scaledFract (10 ^ w.toNat) y)).1 ∧
      ((splitDouble y w).2.toNat : ℤ) =
        (carried (10 ^ w.toNat) ⌊y⌋ (scaledFract (10 ^ w.toNat) y)).2 := by
  have hyrange : y < 2 ^ 64 := by linarith
  have hscaled : scaled y w = Int.fract y * ((10 ^ w.toNat : ℕ) : ℚ) + 1 / 2 := by
    rw [scaled_eq hy hyrange]
    push_cast
    rfl
  have hnonneg : 0 ≤ scaled y w := by
    have hfract : 0 ≤ Int.fract y := Int.fract_nonneg y
    rw [hscaled]
    positivity
  have hrange : scaled y w < 2 ^ 64 := by
    rw [scaled_eq hy hyrange]
    exact hscales
  have hwhole : ((Double.toUint64 y).toNat : ℤ) = ⌊y⌋ := toNat_toUint64 hy hyrange
  have hfrac : ((Double.toUint64 (scaled y w)).toNat : ℤ) = scaledFract (10 ^ w.toNat) y := by
    rw [toNat_toUint64 hnonneg hrange, hscaled]
    rfl
  -- the test for the carry
  have hcarry : Double.eq (Double.ofUint64 (Double.toUint64 (scaled y w)) : ℚ) (Double.pow10 w) =
      true ↔ scaledFract (10 ^ w.toNat) y = ((10 ^ w.toNat : ℕ) : ℤ) := by
    show decide (((Double.toUint64 (scaled y w)).toNat : ℚ) = 10 ^ w.toNat) = true ↔ _
    rw [decide_eq_true_iff, ← hfrac]
    norm_cast
  unfold splitDouble carried
  by_cases h : scaledFract (10 ^ w.toNat) y = ((10 ^ w.toNat : ℕ) : ℤ)
  · have hsucc : (Double.toUint64 y + 1).toNat = (Double.toUint64 y).toNat + 1 := by
      have hfloor : ⌊y⌋ + 1 < 2 ^ 64 := by
        have hle : (⌊y⌋ : ℚ) ≤ y := Int.floor_le y
        have hcast : ((⌊y⌋ + 1 : ℤ) : ℚ) < ((2 ^ 64 : ℤ) : ℚ) := by
          push_cast
          linarith
        exact Int.cast_lt.mp hcast
      have hsum : (Double.toUint64 y).toNat + 1 < 2 ^ 64 := by omega
      exact BitVec.toNat_add_of_lt hsum
    simp only [if_pos (hcarry.mpr h), if_pos h, hsucc]
    exact ⟨by push_cast; rw [hwhole], rfl⟩
  · simp only [if_neg (mt hcarry.mp h), if_neg h]
    exact ⟨hwhole, hfrac⟩

end

/-! ### The directive -/

/-- The precision that is written after a point, if any. -/
def precisionOf (p : Option (List Char)) : ℕ := p.elim 6 widthOf

/-- The directive: a width, a precision and the conversion. -/
def floatFormat (ds : List Char) (p : Option (List Char)) : List Char :=
  '%' :: (ds ++ (p.elim [] fun es => '.' :: es) ++ ['f'])

/-- The variables of `vprintf`. -/
def floatDirective (ds : List Char) (p : Option (List Char)) : Directive :=
  { directiveOf ds with fracWidth := BitVec.ofNat 8 (precisionOf p) }

section
variable {ds : List Char} {p : Option (List Char)} (hds : ∀ c ∈ ds, IsDigit c)
  (hp : ∀ c ∈ p.getD [], IsDigit c)
include hds hp

theorem scan_float : scan ([] : List Char) (ds ++ (p.elim [] fun es => '.' :: es) ++ ['f']) =
    (floatDirective ds p, [], ['f']) := by
  have hother : ∀ d : Directive, flags d ([] : List Char) ['f'] = (d, [], ['f']) := fun d =>
    flags_other d [] [] (by decide) (by decide) (by decide) (by decide)
  have hpadding : ∀ c rest, c ≠ '0' →
      (if deref (ds ++ c :: rest) = '0' then '0' else ' ') = paddingOf ds := by
    intro c rest hc
    cases ds with
    | nil => exact if_neg hc
    | cons a ds => rfl
  unfold scan
  cases p with
  | none =>
    rw [Option.elim_none, List.append_nil, hpadding 'f' [] (by decide),
      show (0 : BitVec 8) = BitVec.ofNat 8 0 from rfl, digits_eq hds (by decide) 0]
    exact hother _
  | some es =>
    have hes : ∀ c ∈ es, IsDigit c := hp
    rw [Option.elim_some, List.append_assoc, List.cons_append, hpadding '.' _ (by decide),
      show (0 : BitVec 8) = BitVec.ofNat 8 0 from rfl, digits_eq hds (by decide) 0, flags_dot,
      show (0 : BitVec 8) = BitVec.ofNat 8 0 from rfl, digits_eq hes (by decide) 0]
    exact hother _

end

/-- What is written for a number, its two parts given. -/
def floatText (ds : List Char) (p : Option (List Char)) (x : ℚ) : List Char :=
  (if x < 0 then ['-'] else []) ++ fixed (floatDirective ds p)
    (splitDouble |x| (BitVec.ofNat 8 (precisionOf p)))

section
variable {ds : List Char} {p : Option (List Char)}

theorem valueText_float (x : ℚ) :
    valueText (floatDirective ds p) 'f' (.double x) = floatText ds p x := by
  unfold floatText
  simp only [valueText]
  by_cases hx : x < 0
  · have hneg : Double.isNeg x = true := decide_eq_true hx
    rw [if_pos hneg, if_pos hx, abs_of_neg hx]
    rfl
  · have hpos : ¬ Double.isNeg x = true := fun h => hx (of_decide_eq_true h)
    rw [if_neg hpos, if_neg hx, abs_of_nonneg (not_lt.mp hx)]
    rfl

theorem toNat_precision (hw : precisionOf p ≤ 255) :
    (BitVec.ofNat 8 (precisionOf p)).toNat = precisionOf p :=
  (BitVec.toNat_ofNat ..).trans (Nat.mod_eq_of_lt (by omega))

theorem noResult_float {x : ℚ} (hw : precisionOf p ≤ 255) (hx : |x| + 1 < 2 ^ 64) :
    noResult (floatDirective ds p) (.double x) = decide (¬ Scales (precisionOf p) |x|) := by
  have habs : (if Double.isNeg x then Double.neg x else x) = |x| := by
    by_cases hneg : x < 0
    · rw [abs_of_neg hneg]
      exact if_pos (decide_eq_true hneg)
    · rw [abs_of_nonneg (not_lt.mp hneg)]
      exact if_neg fun h => hneg (of_decide_eq_true h)
  have hlt : |x| < 2 ^ 64 := by linarith
  have hscaled : scaled |x| (BitVec.ofNat 8 (precisionOf p)) =
      Int.fract |x| * 10 ^ precisionOf p + 1 / 2 := by
    rw [scaled_eq (abs_nonneg x) hlt, toNat_precision hw]
  have hnonneg : 0 ≤ scaled |x| (BitVec.ofNat 8 (precisionOf p)) := by
    have hfract : 0 ≤ Int.fract |x| := Int.fract_nonneg _
    rw [hscaled]
    positivity
  show (!Double.inRange (if Double.isNeg x then Double.neg x else x) ||
    !Double.inRange (scaled (if Double.isNeg x then Double.neg x else x) _)) = _
  rw [habs, (inRange_iff (abs_nonneg x)).mpr hlt, Bool.not_true, Bool.false_or,
    Bool.eq_iff_iff, decide_eq_true_iff, Bool.not_eq_true', ← Bool.not_eq_true]
  refine not_congr ((inRange_iff hnonneg).trans ?_)
  rw [hscaled]
  rfl

end

/-! ### The text -/

/-- The text of `x`, rounded half away from zero to `w` places: a sign, padding, a whole part, a
point and a fraction. -/
def Denotes (padding : Char) (w : ℕ) (x : ℚ) (t : List Char) : Prop :=
  ∃ k ids fds, ∃ i f : ℕ,
    t = (if x < 0 then ['-'] else []) ++ List.replicate k padding ++ ids ++ '.' :: fds ∧
    read 10 (digitValue .no) ids = some i ∧ read 10 (digitValue .no) fds = some f ∧
    fds.length = max w 1 ∧
    (if x < 0 then -1 else 1) * ((i : ℚ) + f / 10 ^ fds.length) = roundTo (10 ^ w) x

section
variable {ds : List Char} {p : Option (List Char)} {x : ℚ}

/-- The digits of the fraction, with the zeros before them. -/
theorem length_fraction {w f : ℕ} (hf : f < 10 ^ w) :
    (padLeft w '0' (numeral 10 (digit .no) f)).length = max w 1 := by
  have hpos : 0 < (numeral 10 (digit .no) f).length := length_numeral_pos
  rw [length_padLeft]
  cases w with
  | zero =>
    have hzero : f = 0 := by omega
    rw [hzero]
    rfl
  | succ w =>
    have hle : (numeral 10 (digit .no) f).length ≤ w + 1 := length_numeral_le (by decide) hf
    omega

/-- Without places the fraction is a single zero. -/
theorem fraction_value {w f : ℕ} (hf : f < 10 ^ w) :
    (f : ℚ) / 10 ^ max w 1 = f / ((10 ^ w : ℕ) : ℚ) := by
  cases w with
  | zero =>
    have hzero : f = 0 := by omega
    rw [hzero, Nat.cast_zero, zero_div, zero_div]
  | succ w =>
    rw [max_eq_left (by omega), Nat.cast_pow]
    rfl

theorem floatText_eq (hw : precisionOf p ≤ 255) {parts : BitVec 64 × BitVec 64}
    (hparts : splitDouble |x| (BitVec.ofNat 8 (precisionOf p)) = parts) :
    floatText ds p x = (if x < 0 then ['-'] else []) ++
      List.replicate ((directiveOf ds).width.toNat -
        (numeral 10 (digit .no) parts.1.toNat).length) (paddingOf ds) ++
      numeral 10 (digit .no) parts.1.toNat ++
      '.' :: padLeft (precisionOf p) '0' (numeral 10 (digit .no) parts.2.toNat) := by
  have hfixed : fixed (floatDirective ds p) parts =
      List.replicate ((directiveOf ds).width.toNat -
        (numeral 10 (digit .no) parts.1.toNat).length) (paddingOf ds) ++
      numeral 10 (digit .no) parts.1.toNat ++ ['.'] ++
      padLeft (BitVec.ofNat 8 (precisionOf p)).toNat '0'
        (numeral 10 (digit .no) parts.2.toNat) := rfl
  unfold floatText
  rw [hparts, hfixed, toNat_precision hw]
  simp only [List.append_assoc, List.singleton_append]

theorem denotes_floatText (hw : precisionOf p ≤ 255) (hx : |x| + 1 < 2 ^ 64)
    (hscales : Scales (precisionOf p) |x|) :
    Denotes (paddingOf ds) (precisionOf p) x (floatText ds p x) := by
  obtain ⟨parts, hparts⟩ : ∃ parts, splitDouble |x| (BitVec.ofNat 8 (precisionOf p)) = parts :=
    ⟨_, rfl⟩
  have htext : floatText ds p x = _ := floatText_eq hw hparts
  obtain ⟨hi, hf⟩ := splitDouble_eq (abs_nonneg x) hx ((toNat_precision hw).symm ▸ hscales)
  rw [toNat_precision hw, hparts] at hi hf
  have hpow : 0 < 10 ^ precisionOf p := by positivity
  have hlt : parts.2.toNat < 10 ^ precisionOf p := by
    refine Int.ofNat_lt.mp ?_
    rw [hf]
    exact carried_lt hpow (scaledFract_le _ _)
  have hlen := length_fraction hlt
  refine ⟨_, _, _, parts.1.toNat, parts.2.toNat, htext, read_digits .no _,
    read_padLeft (by decide) (digitValue_digit .no) _ _, hlen, ?_⟩
  have hvalue : (parts.1.toNat : ℚ) + parts.2.toNat / ((10 ^ precisionOf p : ℕ) : ℚ) =
      roundTo (10 ^ precisionOf p) |x| := by
    rw [roundTo_eq (abs_nonneg x), ← carried_value hpow, ← hi, ← hf]
    rfl
  rw [hlen, fraction_value hlt, hvalue]
  split_ifs with hneg
  · rw [roundTo_of_neg hpow hneg, abs_of_neg hneg, neg_one_mul]
  · rw [abs_of_nonneg (not_lt.mp hneg), one_mul]

theorem length_floatText_pos : 0 < (floatText ds p x).length := by
  unfold floatText fixed
  simp only [List.length_append, List.length_singleton]
  omega

end

/-! ### The property -/

/-- No conversion is out of range, and the text is that of the rounded number. -/
def Rounded {capacity : ℕ} (ds : List Char) (p : Option (List Char)) (x : ℚ)
    (b : LogBuffer capacity) (A : List (Arg ℚ)) : Prop :=
  ∃ s t, vprintf (.at (floatFormat ds p)) { buffer := b, args := .double x :: A } =
      .ok (.at [], s) ∧
    s.undefined = false ∧ s.args = A ∧ s.buffer.text = b.text ++ t ∧
    Denotes (paddingOf ds) (precisionOf p) x t

section
variable {capacity : ℕ} {ds : List Char} {p : Option (List Char)} {x : ℚ} {b : LogBuffer capacity}
  (hds : ∀ c ∈ ds, IsDigit c) (hp : ∀ c ∈ p.getD [], IsDigit c) (hw : precisionOf p ≤ 255)
  (hx : |x| + 1 < 2 ^ 64)
  (hroom : b.text.length + (floatText ds p x).length ≤ capacity - 1) (A : List (Arg ℚ))
include hds hp hw hx hroom

theorem vprintf_float :
    vprintf (.at (floatFormat ds p)) { buffer := b, args := .double x :: A } =
      .ok (.at [], { buffer := write (floatText ds p x) b, args := A,
                     undefined := decide (¬ Scales (precisionOf p) |x|) }) := by
  have hb : hasRoom b = true := by
    have hpos : 0 < (floatText ds p x).length := length_floatText_pos
    exact LogBuffer.available_iff.mpr (by omega)
  have hexpand : (Item.directive (floatDirective ds p) [] 'f').expand (.double x :: A) =
      some (floatText ds p x, A) := by
    rw [← valueText_float]
    rfl
  have hnoResult : (Item.directive (floatDirective ds p) [] 'f').noResult
      (.double x :: A : List (Arg ℚ)) = decide (¬ Scales (precisionOf p) |x|) :=
    noResult_float hw hx
  rw [floatFormat, vprintf_item (item_directive (scan_float hds hp)) hb hexpand, vprintf_nil,
    hnoResult]
  rfl

/-- **Fractions are rounded correctly** if and only if the scaled fraction is in range. -/
theorem rounded_iff : Rounded ds p x b A ↔ Scales (precisionOf p) |x| := by
  constructor
  · rintro ⟨s, t, hs, hundefined, -⟩
    rw [vprintf_float hds hp hw hx hroom A] at hs
    cases hs
    exact not_not.mp (of_decide_eq_false hundefined)
  · intro hscales
    exact ⟨_, floatText ds p x, vprintf_float hds hp hw hx hroom A,
      decide_eq_false (not_not.mpr hscales), rfl, LogBuffer.text_write_of_room hroom,
      denotes_floatText hw hx hscales⟩

end

/-- `printf("%.2f", 0.995)`. -/
theorem rounded_iff_995 :
    let b : LogBuffer smallBuffer := newBuffer
    Rounded [] (some ['2']) (995 / 1000) b [] ↔ Scales (precisionOf (some ['2'])) |995 / 1000| :=
  rounded_iff (List.forall_mem_nil _) (List.forall_mem_singleton.mpr (by decide)) (by decide)
    (by norm_num) (by decide +kernel) []

/-- `printf("%.20f", 0.5)`. -/
theorem not_always_rounded : ¬ ∀ (ds : List Char) (p : Option (List Char)) (x : ℚ)
    (b : LogBuffer smallBuffer) (A : List (Arg ℚ)), (∀ c ∈ ds, IsDigit c) →
    (∀ c ∈ p.getD [], IsDigit c) → precisionOf p ≤ 255 → |x| + 1 < 2 ^ 64 →
    b.text.length + (floatText ds p x).length ≤ smallBuffer - 1 → Rounded ds p x b A := by
  intro h
  have hp : ∀ c ∈ (some ['2', '0']).getD [], IsDigit c :=
    List.forall_mem_cons.mpr ⟨by decide, List.forall_mem_singleton.mpr (by decide)⟩
  have hds : ∀ c ∈ ([] : List Char), IsDigit c := List.forall_mem_nil _
  have hroom : (newBuffer : LogBuffer smallBuffer).text.length +
      (floatText [] (some ['2', '0']) (1 / 2)).length ≤ smallBuffer - 1 := by
    decide +kernel
  obtain ⟨s, t, hs, hundefined, -⟩ :=
    h [] (some ['2', '0']) (1 / 2) newBuffer [] hds hp (by decide) (by norm_num) hroom
  rw [vprintf_float hds hp (by decide) (by norm_num) hroom []] at hs
  cases hs
  have hscales : Scales (precisionOf (some ['2', '0'])) |1 / 2| :=
    not_not.mp (of_decide_eq_false hundefined)
  exact absurd hscales (by decide +kernel)

end ToolsCxx.Logging.Fractions
