import ToolsCxx.Logging.Steps

/-! # `LogPrint`: signed fields

`%d` and `%l` with a width. `vprintf` writes the sign, and then `printf_num` a field of the whole
width: so a negative number with padding is one character too long (`printed_iff`). -/

namespace ToolsCxx.Logging.Fields

open ToolsCxx.Lib.Sinks ToolsCxx.Lib.Numerals
open ToolsCxx.Logging.Buffer ToolsCxx.Logging.Print ToolsCxx.Logging.Format ToolsCxx.Logging.Steps

variable {D : Type} [Double D]

/-- What is printed by `%d` or `%l`. -/
inductive Signed where
  | int (v : BitVec 32)
  | long (v : BitVec 64)
  deriving DecidableEq

namespace Signed

def conversion : Signed → Char
  | .int _ => 'd'
  | .long _ => 'l'

def arg : Signed → Arg D
  | .int v => .int v
  | .long v => .long v

def value : Signed → ℤ
  | .int v => v.toInt
  | .long v => v.toInt

theorem conversion_cases (x : Signed) : x.conversion = 'd' ∨ x.conversion = 'l' := by
  cases x with
  | int v => exact .inl rfl
  | long v => exact .inr rfl

end Signed

/-! ### The directive -/

def IsDigit (c : Char) : Prop := '0' ≤ c ∧ c ≤ '9'

instance (c : Char) : Decidable (IsDigit c) := inferInstanceAs (Decidable (_ ∧ _))

/-- The width that is written between `%` and the conversion. -/
def widthOf (ds : List Char) : ℕ := Nat.ofDigitChars 10 ds 0

def paddingOf (ds : List Char) : Char := if ds.headD ' ' = '0' then '0' else ' '

theorem digits_eq {ds rest : List Char} {c : Char} (hds : ∀ c ∈ ds, IsDigit c) (hc : ¬ IsDigit c)
    (n : ℕ) : digits (BitVec.ofNat 8 n) (ds ++ c :: rest) =
      (BitVec.ofNat 8 (Nat.ofDigitChars 10 ds n), c :: rest) := by
  induction ds generalizing n with
  | nil => exact if_neg hc
  | cons a ds ih =>
    have hstep : BitVec.ofNat 8 n * 10 + BitVec.ofNat 8 (a.toNat - '0'.toNat) =
        BitVec.ofNat 8 (10 * n + (a.toNat - '0'.toNat)) := by
      rw [BitVec.ofNat_add, BitVec.ofNat_mul, BitVec.mul_comm]
      rfl
    have hdigit : '0' ≤ a ∧ a ≤ '9' := hds a List.mem_cons_self
    rw [List.cons_append, digits, if_pos hdigit, hstep,
      ih (fun c hc => hds c (List.mem_cons_of_mem a hc)), Nat.ofDigitChars_cons]

/-- The variables of `vprintf` for the directive. -/
def directiveOf (ds : List Char) : Directive :=
  { plain with padding := paddingOf ds, width := BitVec.ofNat 8 (widthOf ds) }

theorem scan_eq_width {ds : List Char} (hds : ∀ c ∈ ds, IsDigit c) (x : Signed) :
    scan ([] : List Char) (ds ++ [x.conversion]) =
      (directiveOf ds, [], [x.conversion]) := by
  have hne : ∀ c, c ≠ 'd' → c ≠ 'l' → x.conversion ≠ c := fun c hd hl hc =>
    x.conversion_cases.elim (fun h => hd (hc.symm.trans h)) (fun h => hl (hc.symm.trans h))
  have hc : ¬ IsDigit x.conversion := by
    unfold IsDigit
    rcases x.conversion_cases with h | h <;> rw [h] <;> decide
  have hpadding : (if deref (ds ++ [x.conversion]) = '0' then '0' else ' ') = paddingOf ds := by
    cases ds with
    | nil => exact if_neg (hne '0' (by decide) (by decide))
    | cons a ds => rfl
  unfold scan
  rw [hpadding, show (0 : BitVec 8) = BitVec.ofNat 8 0 from rfl, digits_eq hds hc 0]
  exact flags_other _ _ _ (hne _ (by decide) (by decide)) (hne _ (by decide) (by decide))
    (hne _ (by decide) (by decide)) (hne _ (by decide) (by decide))

section
variable {capacity : ℕ} {ds : List Char} (x : Signed) (b : LogBuffer capacity) (A : List (Arg D))

/-- The directive with its digits. -/
def fieldFormat (ds : List Char) (x : Signed) : List Char := '%' :: (ds ++ [x.conversion])

/-- What the directive does. -/
theorem vprintf_field (hds : ∀ c ∈ ds, IsDigit c) (hroom : hasRoom b = true) :
    vprintf (.at (fieldFormat ds x)) { buffer := b, args := x.arg :: A } =
      .ok (.at [], { buffer := write (signedField (directiveOf ds) x.value) b, args := A,
                     undefined := decide (x = .long (BitVec.intMin 64)) }) := by
  have hexpand : (Item.directive (directiveOf ds) [] x.conversion).expand (x.arg :: A) =
      some (signedField (directiveOf ds) x.value, A) := by
    cases x <;> rfl
  have hundefined : (Item.directive (directiveOf ds) [] x.conversion).noResult
      (x.arg :: A : List (Arg D)) = decide (x = .long (BitVec.intMin 64)) := by
    cases x with
    | int v => rfl
    | long v =>
      rw [Bool.eq_iff_iff, decide_eq_true_iff, Signed.long.injEq]
      exact beq_iff_eq
  rw [fieldFormat, vprintf_item (item_directive (scan_eq_width hds x)) hroom hexpand, vprintf_nil,
    hundefined]
  rfl

end

/-! ### The field -/

/-- A reader of decimal texts. -/
def readInt : List Char → ℤ
  | '-' :: ds => -(Nat.ofDigitChars 10 ds 0 : ℤ)
  | ds => Nat.ofDigitChars 10 ds 0

theorem ofDigitChars_numeral (n : ℕ) : Nat.ofDigitChars 10 (numeral 10 (digit .no) n) 0 = n := by
  have hdigit : ∀ k < 10, (digit .no k).toNat - '0'.toNat = k := by decide
  induction n using Nat.strong_induction_on with
  | _ n ih =>
    by_cases hn : n < 10
    · rw [numeral_of_lt hn, Nat.ofDigitChars_cons, Nat.ofDigitChars_nil, hdigit n hn, Nat.mul_zero,
        Nat.zero_add]
    · rw [numeral_of_le (by decide) (by omega), Nat.ofDigitChars_append, ih (n / 10) (by omega),
        Nat.ofDigitChars_cons, Nat.ofDigitChars_nil, hdigit (n % 10) (by omega)]
      omega

theorem readInt_decimal (v : ℤ) : readInt (decimal v) = v := by
  unfold decimal
  split_ifs with hv
  · have hneg : readInt (['-'] ++ numeral 10 (digit .no) v.natAbs) =
        -(Nat.ofDigitChars 10 (numeral 10 (digit .no) v.natAbs) 0 : ℤ) := rfl
    rw [hneg, ofDigitChars_numeral]
    omega
  · rw [List.nil_append]
    unfold readInt
    split
    · next ds hds =>
      -- the minus sign is no digit
      obtain ⟨k, hk, hminus⟩ := mem_numeral (by decide) (hds.symm ▸ List.mem_cons_self)
      exact absurd hminus.symm ((by decide : ∀ k < 10, digit .no k ≠ '-') k hk)
    · rw [ofDigitChars_numeral]
      omega

/-- The text of a number, with padding before it, or between its sign and its digits. -/
def Padded (padding : Char) (v : ℤ) (t : List Char) : Prop :=
  ∃ k, t = List.replicate k padding ++ decimal v ∨
    t = (if v < 0 then ['-'] else []) ++ List.replicate k padding ++
      numeral 10 (digit .no) v.natAbs

section
variable {ds : List Char} {v : ℤ}

theorem length_decimal_pos (v : ℤ) : 0 < (decimal v).length := by
  unfold decimal
  rw [List.length_append]
  exact Nat.add_pos_right _ length_numeral_pos

theorem signedField_eq (hw : widthOf ds ≤ 255) (v : ℤ) : signedField (directiveOf ds) v =
    (if v < 0 then ['-'] else []) ++
      padLeft (widthOf ds) (paddingOf ds) (numeral 10 (digit .no) v.natAbs) := by
  have hwidth : (directiveOf ds).width.toNat = widthOf ds :=
    (BitVec.toNat_ofNat ..).trans (Nat.mod_eq_of_lt (by omega))
  unfold signedField field
  rw [hwidth]
  rfl

/-- Without a sign, or without padding. -/
theorem signedField_padded (hw : widthOf ds ≤ 255) (h : 0 ≤ v ∨ widthOf ds < (decimal v).length) :
    (signedField (directiveOf ds) v).length = max (widthOf ds) (decimal v).length ∧
      Padded (paddingOf ds) v (signedField (directiveOf ds) v) := by
  rw [signedField_eq hw]
  by_cases hv : v < 0
  · have hlt := h.resolve_left (by omega)
    unfold decimal at hlt ⊢
    rw [if_pos hv, List.length_append, List.length_singleton] at hlt
    rw [padLeft_of_le (by omega), if_pos hv, List.length_append, List.length_singleton]
    refine ⟨by omega, 0, .inl ?_⟩
    unfold decimal
    rw [if_pos hv]
    rfl
  · unfold decimal
    rw [if_neg hv, List.nil_append, length_padLeft]
    refine ⟨rfl, widthOf ds - (numeral 10 (digit .no) v.natAbs).length, .inl ?_⟩
    unfold decimal
    rw [if_neg hv]
    rfl

/-- The leading digit is no padding. -/
theorem head?_ne_padding (hv : v ≠ 0) :
    (numeral 10 (digit .no) v.natAbs).head? ≠ some (paddingOf ds) := by
  obtain ⟨k, hk, hlt, hhead⟩ : ∃ k, 0 < k ∧ k < 10 ∧
      (numeral 10 (digit .no) v.natAbs).head? = some (digit .no k) :=
    head?_numeral (by decide) (Int.natAbs_ne_zero.mpr hv)
  have hdigit : digit .no k ≠ '0' ∧ digit .no k ≠ ' ' :=
    (by decide : ∀ k < 10, 0 < k → digit .no k ≠ '0' ∧ digit .no k ≠ ' ') k hlt hk
  rw [hhead]
  intro h
  have hsame := Option.some.inj h
  unfold paddingOf at hsame
  split_ifs at hsame
  · exact hdigit.1 hsame
  · exact hdigit.2 hsame

/-- With both, there is padding in the place of the leading digit. -/
theorem not_padded (hw : widthOf ds ≤ 255) (hv : v < 0) (h : (decimal v).length ≤ widthOf ds)
    {t : List Char} (hpre : t <+: signedField (directiveOf ds) v)
    (ht : t.length = widthOf ds) : ¬ Padded (paddingOf ds) v t := by
  intro hpadded
  rw [signedField_eq hw, if_pos hv, padLeft] at hpre
  unfold decimal at h
  rw [if_pos hv, List.length_append, List.length_singleton] at h
  set N := numeral 10 (digit .no) v.natAbs with hN
  have hpos : 0 < N.length := length_numeral_pos
  -- the digits are at the end
  obtain ⟨l, rfl⟩ : ∃ l, t = l ++ N := by
    obtain ⟨k, rfl | rfl⟩ := hpadded
    · exact ⟨_, (List.append_assoc ..).symm⟩
    · exact ⟨_, rfl⟩
  rw [List.length_append] at ht
  obtain ⟨j, hj⟩ : ∃ j, l.length = j + 1 := ⟨l.length - 1, by omega⟩
  obtain ⟨r, hr⟩ := hpre
  have hleft : (l ++ N ++ r)[l.length]? = N.head? := by
    rw [List.append_assoc, List.getElem?_append_right le_rfl, Nat.sub_self,
      List.getElem?_append_left hpos, List.head?_eq_getElem?]
  have hright : (['-'] ++ (List.replicate (widthOf ds - N.length) (paddingOf ds) ++ N))[l.length]? =
      some (paddingOf ds) := by
    rw [hj, List.singleton_append, List.getElem?_cons_succ,
      List.getElem?_append_left (by rw [List.length_replicate]; omega),
      List.getElem?_replicate, if_pos (by omega)]
  have hhead : N.head? = some (paddingOf ds) := by rw [← hleft, hr, hright]
  exact head?_ne_padding hv.ne hhead

end

/-- The directive has a defined result, and appends a field of the width, or as long as the number
if that is longer, which reads as the number without its padding. -/
def Printed {capacity : ℕ} (ds : List Char) (x : Signed) (b : LogBuffer capacity)
    (A : List (Arg D)) : Prop :=
  ∃ s t, vprintf (.at (fieldFormat ds x)) { buffer := b, args := x.arg :: A } = .ok (.at [], s) ∧
    s.undefined = false ∧ s.args = A ∧ s.buffer.text = b.text ++ t ∧
    t.length = max (widthOf ds) (decimal x.value).length ∧ Padded (paddingOf ds) x.value t

section
variable {capacity : ℕ} {ds : List Char} (hds : ∀ c ∈ ds, IsDigit c) (hw : widthOf ds ≤ 255)
  {x : Signed} {b : LogBuffer capacity}
  (hroom : b.text.length + max (widthOf ds) (decimal x.value).length ≤ capacity - 1)
  (A : List (Arg D))
include hds hroom

theorem vprintf_of_room :
    vprintf (.at (fieldFormat ds x)) { buffer := b, args := x.arg :: A } =
      .ok (.at [], { buffer := write (signedField (directiveOf ds) x.value) b, args := A,
                     undefined := decide (x = .long (BitVec.intMin 64)) }) := by
  have hpos := length_decimal_pos x.value
  exact vprintf_field x b A hds (LogBuffer.available_iff.mpr (by omega))

include hw

theorem not_printed (hv : x.value < 0) (h : (decimal x.value).length ≤ widthOf ds) :
    ¬ Printed ds x b A := by
  rintro ⟨s, t, hs, -, -, htext, hlen, hpadded⟩
  rw [vprintf_of_room hds hroom] at hs
  cases hs
  have hpre : t <+: signedField (directiveOf ds) x.value := by
    rw [LogBuffer.text_write, clip, List.take_append,
      List.take_of_length_le b.length_text_le] at htext
    exact List.append_cancel_left htext ▸ List.take_prefix _ _
  exact not_padded hw hv h hpre (by omega) hpadded

/-- **A signed field** is as it should be if and only if the number is not negative or longer than
the width, and not the least one of 64 bits. -/
theorem printed_iff : Printed ds x b A ↔
    (0 ≤ x.value ∨ widthOf ds < (decimal x.value).length) ∧ x ≠ .long (BitVec.intMin 64) := by
  constructor
  · intro h
    refine ⟨?_, ?_⟩
    · by_contra hnot
      obtain ⟨hv, hlen⟩ := not_or.mp hnot
      exact not_printed hds hw hroom A (not_le.mp hv) (not_lt.mp hlen) h
    · obtain ⟨s, t, hs, hundefined, -⟩ := h
      rw [vprintf_of_room hds hroom] at hs
      cases hs
      exact of_decide_eq_false hundefined
  · rintro ⟨hcase, hne⟩
    obtain ⟨hlen, hpadded⟩ := signedField_padded hw hcase
    refine ⟨_, signedField (directiveOf ds) x.value, vprintf_of_room hds hroom A,
      decide_eq_false hne, rfl, ?_, hlen, hpadded⟩
    exact LogBuffer.text_write_of_room (by rw [hlen]; exact hroom)

end

/-- `printf("%05d", 42)`. -/
theorem printed_iff_42 :
    let b : LogBuffer smallBuffer := newBuffer
    let x : Signed := .int 42
    Printed ['0', '5'] x b ([] : List (Arg ℚ)) ↔
      (0 ≤ x.value ∨ widthOf ['0', '5'] < (decimal x.value).length) ∧
        x ≠ .long (BitVec.intMin 64) :=
  printed_iff (List.forall_mem_cons.mpr ⟨by decide, List.forall_mem_singleton.mpr (by decide)⟩)
    (by decide) (by decide) []

/-- `printf("%5d", -7)`. -/
theorem not_always_printed : ¬ ∀ (ds : List Char) (x : Signed) (b : LogBuffer smallBuffer)
    (A : List (Arg ℚ)), (∀ c ∈ ds, IsDigit c) → widthOf ds ≤ 255 →
    b.text.length + max (widthOf ds) (decimal x.value).length ≤ smallBuffer - 1 →
    Printed ds x b A := by
  intro h
  have hds : ∀ c ∈ ['5'], IsDigit c := List.forall_mem_singleton.mpr (by decide)
  have hprinted := h ['5'] (.int (-7)) newBuffer [] hds (by decide) (by decide)
  exact not_printed hds (by decide) (by decide) [] (by decide) (by decide) hprinted

end ToolsCxx.Logging.Fields
