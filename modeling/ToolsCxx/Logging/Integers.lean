import ToolsCxx.Logging.Fields

/-! # `LogPrint`: integers

What `printf_num` appends is the one canonical numeral of its argument, in its field
(`printfNum_canonical`). So the integer directives without a width, `%d`, `%ud`, `%xd`, `%Xd`, `%l`,
`%ul`, `%xl` and `%Xl`, can be read back (`roundTrips_iff`): except that `%l` negates the least
number of 64 bits. -/

namespace ToolsCxx.Logging.Integers

open ToolsCxx.Lib.Sinks ToolsCxx.Lib.Numerals
open ToolsCxx.Logging.Buffer ToolsCxx.Logging.Print ToolsCxx.Logging.Format ToolsCxx.Logging.Steps
open ToolsCxx.Logging.Fields

/-! ### Digits -/

/-- The value of a character as a digit. -/
def digitValue (hex : HexFlag) (c : Char) : Option ℕ :=
  if '0' ≤ c ∧ c ≤ '9' then some (c.toNat - '0'.toNat)
  else
    match hex with
    | .no => none
    | .lower => if 'a' ≤ c ∧ c ≤ 'f' then some (c.toNat - 'a'.toNat + 10) else none
    | .upper => if 'A' ≤ c ∧ c ≤ 'F' then some (c.toNat - 'A'.toNat + 10) else none

theorem digitValue_digit (hex : HexFlag) :
    ∀ k < base hex, digitValue hex (digit hex k) = some k := by
  cases hex <;> decide

theorem read_digits (hex : HexFlag) (n : ℕ) :
    read (base hex) (digitValue hex) (numeral (base hex) (digit hex) n) = some n :=
  read_numeral (base_pos hex) (digitValue_digit hex) n

/-- A minus sign is no digit. -/
theorem head?_ne_minus (n : ℕ) : (numeral 10 (digit .no) n).head? ≠ some '-' := by
  intro h
  obtain ⟨k, hk, hminus⟩ := mem_numeral (by decide) (List.mem_of_mem_head? h)
  exact absurd hminus.symm ((by decide : ∀ k < 10, digit .no k ≠ '-') k hk)

/-- The text is padding, and the digits of `n`, with no zero before them. -/
def Canonical (hex : HexFlag) (padding : Char) (width n : ℕ) (t : List Char) : Prop :=
  ∃ ds, t = List.replicate (width - ds.length) padding ++ ds ∧ 1 ≤ ds.length ∧
    read (base hex) (digitValue hex) ds = some n ∧ (ds.head? = some '0' → n = 0 ∧ ds = ['0'])

theorem canonical_padLeft (hex : HexFlag) (padding : Char) (width n : ℕ) :
    Canonical hex padding width n
      (padLeft width padding (numeral (base hex) (digit hex) n)) := by
  refine ⟨_, rfl, length_numeral_pos, read_digits hex n, fun hzero => ?_⟩
  by_cases hn : n = 0
  · subst hn
    have hpos : 0 < base hex := (Nat.zero_lt_two).trans_le (base_pos hex)
    rw [numeral_of_lt hpos]
    cases hex <;> exact ⟨rfl, rfl⟩
  · obtain ⟨k, hk, hlt, hhead⟩ : ∃ k, 0 < k ∧ k < base hex ∧
        (numeral (base hex) (digit hex) n).head? = some (digit hex k) :=
      head?_numeral (base_pos hex) hn
    have hsame : digit hex k = '0' := Option.some.inj (hhead.symm.trans hzero)
    have hvalue := digitValue_digit hex k hlt
    rw [hsame] at hvalue
    cases hvalue
    exact absurd hk (lt_irrefl _)

/-- **`printf_num`** stays inside its array, comes to an end, and appends the canonical numeral in
a field of the width. -/
theorem printfNum_canonical {capacity : ℕ} (n : BitVec 64) (hex : HexFlag) (padding : Char)
    (width : BitVec 8) (b : LogBuffer capacity) :
    ∃ t b', Canonical hex padding width.toNat n.toNat t ∧
      printfNum n hex padding width b = .ok b' ∧
      (b.text.length + t.length ≤ capacity - 1 → b'.text = b.text ++ t) := by
  exact ⟨_, _, canonical_padLeft hex padding width.toNat n.toNat, printfNum_eq ..,
    fun hroom => LogBuffer.text_write_of_room hroom⟩

/-- `printf_num(255, Lower, '0', 4)`. -/
theorem printfNum_canonical_255 :
    let b : LogBuffer smallBuffer := newBuffer
    ∃ t b', Canonical .lower '0' (4 : BitVec 8).toNat (255 : BitVec 64).toNat t ∧
      printfNum 255 .lower '0' 4 b = .ok b' ∧
      (b.text.length + t.length ≤ smallBuffer - 1 → b'.text = b.text ++ t) :=
  printfNum_canonical 255 .lower '0' 4 newBuffer

/-! ### Directives -/

/-- What stands between `%` and the conversion. -/
inductive Flag where
  | signed
  | unsigned
  | lower
  | upper
  deriving DecidableEq

namespace Flag

def chars : Flag → List Char
  | .signed => []
  | .unsigned => ['u']
  | .lower => ['x']
  | .upper => ['X']

/-- What is written before the number. -/
def marks : Flag → List Char
  | .signed => []
  | .unsigned => []
  | .lower => ['0', 'x']
  | .upper => ['0', 'X']

/-- The variables of `vprintf`. -/
def directive : Flag → Directive
  | .signed => plain
  | .unsigned => { plain with sign := false }
  | .lower => { plain with sign := false, hex := .lower }
  | .upper => { plain with sign := false, hex := .upper }

end Flag

/-- The number that is passed, for a directive without a sign. -/
def bits : Signed → ℕ
  | .int v => v.toNat
  | .long v => v.toNat

/-- The number that is passed. -/
def denoted (flag : Flag) (x : Signed) : ℤ := if flag = .signed then x.value else bits x

def readDigits (hex : HexFlag) (ds : List Char) : Option ℤ :=
  (read (base hex) (digitValue hex) ds).map Int.ofNat

/-- A reader of the texts of a directive: with their sign, or in their base after their prefix. -/
def readText : Flag → List Char → Option ℤ
  | .signed, '-' :: ds => (readDigits .no ds).map Int.neg
  | .signed, ds => readDigits .no ds
  | .unsigned, ds => readDigits .no ds
  | .lower, '0' :: 'x' :: ds => readDigits .lower ds
  | .upper, '0' :: 'X' :: ds => readDigits .upper ds
  | _, _ => none

theorem readDigits_numeral (hex : HexFlag) (n : ℕ) :
    readDigits hex (numeral (base hex) (digit hex) n) = some (n : ℤ) := by
  unfold readDigits
  rw [read_digits]
  rfl

def integerOf (d : Directive) : Signed → List Char
  | .int v => integer d v
  | .long v => integer d v

theorem integerOf_unsigned {d : Directive} (hsign : d.sign = false) (hw : d.width = 0)
    (x : Signed) : integerOf d x = numeral (base d.hex) (digit d.hex) (bits x) := by
  have hint : ∀ {w : ℕ} (v : BitVec w),
      integer d v = numeral (base d.hex) (digit d.hex) v.toNat := by
    intro w v
    rw [integer, hsign, field, hw]
    exact padLeft_of_le (Nat.zero_le _) _
  cases x with
  | int v => exact hint v
  | long v => exact hint v

theorem integerOf_signed (x : Signed) : integerOf plain x = decimal x.value := by
  cases x with
  | int v => exact integer_plain v
  | long v => exact integer_plain v

/-- The text that the directive appends. -/
def textOf (flag : Flag) (x : Signed) : List Char := flag.marks ++ integerOf flag.directive x

theorem readText_decimal (v : ℤ) : readText .signed (decimal v) = some v := by
  have hread : readDigits .no (numeral 10 (digit .no) v.natAbs) = some (v.natAbs : ℤ) :=
    readDigits_numeral .no v.natAbs
  unfold decimal
  split_ifs with hv
  · have hneg : readText .signed (['-'] ++ numeral 10 (digit .no) v.natAbs) =
        (readDigits .no (numeral 10 (digit .no) v.natAbs)).map Int.neg := rfl
    have habs : -(v.natAbs : ℤ) = v := by omega
    rw [hneg, hread]
    exact congrArg some habs
  · have habs : (v.natAbs : ℤ) = v := by omega
    rw [List.nil_append]
    unfold readText
    split
    · next ds hds => exact absurd (congrArg List.head? hds) (head?_ne_minus _)
    · rw [hread, habs]
    all_goals simp_all

/-- **The texts can be read**. -/
theorem readText_textOf (flag : Flag) (x : Signed) :
    readText flag (textOf flag x) = some (denoted flag x) := by
  cases flag with
  | signed => exact (congrArg _ (integerOf_signed x)).trans (readText_decimal x.value)
  | unsigned =>
    exact (congrArg _ (integerOf_unsigned rfl rfl x)).trans (readDigits_numeral .no (bits x))
  | lower =>
    have htext : textOf .lower x = '0' :: 'x' :: numeral 16 (digit .lower) (bits x) :=
      congrArg _ (integerOf_unsigned rfl rfl x)
    rw [htext]
    exact readDigits_numeral .lower (bits x)
  | upper =>
    have htext : textOf .upper x = '0' :: 'X' :: numeral 16 (digit .upper) (bits x) :=
      congrArg _ (integerOf_unsigned rfl rfl x)
    rw [htext]
    exact readDigits_numeral .upper (bits x)

/-- Numbers of one type are the same if they denote the same. -/
theorem eq_of_denoted {flag : Flag} {x y : Signed} (htype : y.conversion = x.conversion)
    (h : denoted flag y = denoted flag x) : y = x := by
  have hbits : ∀ {w : ℕ} {v v' : BitVec w}, (if flag = .signed then v'.toInt else v'.toNat) =
      (if flag = .signed then v.toInt else v.toNat) → v' = v := by
    intro w v v' h
    split_ifs at h
    · exact BitVec.eq_of_toInt_eq h
    · exact BitVec.eq_of_toNat_eq (Int.ofNat.inj h)
  cases x with
  | int v =>
    cases y with
    | long v' => exact absurd htype (by decide : 'l' ≠ 'd')
    | int v' => exact congrArg Signed.int (hbits h)
  | long v =>
    cases y with
    | int v' => exact absurd htype (by decide : 'd' ≠ 'l')
    | long v' => exact congrArg Signed.long (hbits h)

/-! ### The conversions -/

variable {D : Type} [Double D] {capacity : ℕ}

/-- The directive. -/
def format (flag : Flag) (x : Signed) : List Char := '%' :: (flag.chars ++ [x.conversion])

theorem scan_chars (flag : Flag) (x : Signed) :
    scan ([] : List Char) (flag.chars ++ [x.conversion]) =
      (flag.directive, flag.marks, [x.conversion]) := by
  rcases x.conversion_cases with h | h <;> rw [h] <;> cases flag <;> decide +kernel

/-- There is room for the text of the number. -/
def Room (flag : Flag) (x : Signed) (b : LogBuffer capacity) : Prop :=
  b.text.length + (textOf flag x).length ≤ capacity - 1

instance (flag : Flag) (x : Signed) (b : LogBuffer capacity) : Decidable (Room flag x b) :=
  inferInstanceAs (Decidable (_ ≤ _))

theorem hasRoom_of_room {flag : Flag} {x : Signed} {b : LogBuffer capacity}
    (h : Room flag x b) : hasRoom b = true := by
  have hpos : 0 < (textOf flag x).length := by
    rw [List.length_pos_iff]
    intro hnil
    have hread := readText_textOf flag x
    rw [hnil] at hread
    cases flag <;> cases hread
  have hle : b.text.length + (textOf flag x).length ≤ capacity - 1 := h
  exact LogBuffer.available_iff.mpr (by omega)

/-- The negation of a number that has no opposite. -/
def Overflows (flag : Flag) (x : Signed) : Prop :=
  flag = .signed ∧ x = .long (BitVec.intMin 64)

instance (flag : Flag) (x : Signed) : Decidable (Overflows flag x) :=
  inferInstanceAs (Decidable (_ ∧ _))

theorem vprintf_integer {flag : Flag} {x : Signed} {b : LogBuffer capacity} (h : Room flag x b)
    (A : List (Arg D)) : vprintf (.at (format flag x)) { buffer := b, args := x.arg :: A } =
      .ok (.at [], { buffer := write (textOf flag x) b, args := A,
                     undefined := decide (Overflows flag x) }) := by
  have hexpand : (Item.directive flag.directive flag.marks x.conversion).expand (x.arg :: A) =
      some (textOf flag x, A) := by
    cases x <;> rfl
  have hnoResult : (Item.directive flag.directive flag.marks x.conversion).noResult
      (x.arg :: A : List (Arg D)) = decide (Overflows flag x) := by
    cases x with
    | int v => exact (decide_eq_false fun h => by cases h.2).symm
    | long v =>
      have hsign : (flag.directive.sign = true) ↔ flag = .signed := by cases flag <;> decide
      rw [Bool.eq_iff_iff, decide_eq_true_iff, Overflows, Signed.long.injEq, ← hsign,
        ← beq_iff_eq (a := v), ← Bool.and_eq_true]
      rfl
  rw [format, vprintf_item (item_directive (scan_chars flag x)) (hasRoom_of_room h) hexpand,
    vprintf_nil, hnoResult]
  rfl

/-- The directive has a defined result, and appends a text which is read as the number; any other
number of its type for which the buffer is the same is the same number. -/
def RoundTrips (flag : Flag) (x : Signed) (b : LogBuffer capacity) (A : List (Arg D)) : Prop :=
  ∃ s t, vprintf (.at (format flag x)) { buffer := b, args := x.arg :: A } = .ok (.at [], s) ∧
    s.undefined = false ∧ s.args = A ∧ s.buffer.text = b.text ++ t ∧
    readText flag t = some (denoted flag x) ∧
    ∀ y : Signed, y.conversion = x.conversion → Room flag y b → ∀ s',
      vprintf (.at (format flag y)) { buffer := b, args := y.arg :: A } = .ok (.at [], s') →
      s'.buffer.text = s.buffer.text → y = x

theorem eq_of_text {flag : Flag} {x y : Signed} {b : LogBuffer capacity} (hx : Room flag x b)
    (hy : Room flag y b) (htype : y.conversion = x.conversion)
    (h : (write (textOf flag y) b).text = (write (textOf flag x) b).text) : y = x := by
  rw [LogBuffer.text_write_of_room hx, LogBuffer.text_write_of_room hy] at h
  have hread := readText_textOf flag y
  rw [List.append_cancel_left h, readText_textOf flag x] at hread
  exact eq_of_denoted htype (Option.some.inj hread).symm

/-- **Integers round-trip**, with the one exception. -/
theorem roundTrips_iff {flag : Flag} {x : Signed} {b : LogBuffer capacity} (h : Room flag x b)
    (A : List (Arg D)) : RoundTrips flag x b A ↔ ¬ Overflows flag x := by
  constructor
  · rintro ⟨s, t, hs, hundefined, -⟩
    rw [vprintf_integer h] at hs
    cases hs
    exact of_decide_eq_false hundefined
  · intro hfits
    refine ⟨_, textOf flag x, vprintf_integer h A, decide_eq_false hfits, rfl,
      LogBuffer.text_write_of_room h, readText_textOf flag x, fun y htype hy s' hs' htext => ?_⟩
    rw [vprintf_integer hy] at hs'
    cases hs'
    exact eq_of_text h hy htype htext

/-- `printf("%Xl", 31)`. -/
theorem roundTrips_iff_31 :
    let b : LogBuffer smallBuffer := newBuffer
    RoundTrips .upper (.long 31) b ([] : List (Arg ℚ)) ↔ ¬ Overflows .upper (.long 31) :=
  roundTrips_iff (by decide +kernel) []

/-- `printf("%l", INT64_MIN)`. -/
theorem not_always_roundTrips : ¬ ∀ (flag : Flag) (x : Signed) (b : LogBuffer smallBuffer)
    (A : List (Arg ℚ)), Room flag x b → RoundTrips flag x b A := by
  intro h
  have hroom : Room .signed (.long (BitVec.intMin 64)) (newBuffer : LogBuffer smallBuffer) := by
    decide +kernel
  obtain ⟨s, t, hs, hundefined, -⟩ := h .signed (.long (BitVec.intMin 64)) newBuffer [] hroom
  rw [vprintf_integer hroom] at hs
  cases hs
  have hfits : ¬ Overflows .signed (.long (BitVec.intMin 64)) := of_decide_eq_false hundefined
  exact hfits ⟨rfl, rfl⟩

end ToolsCxx.Logging.Integers
