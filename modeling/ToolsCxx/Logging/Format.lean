import ToolsCxx.Logging.Print
import ToolsCxx.Lib.Numerals

/-! # Format strings

What a format means, apart from how `vprintf` goes through it. A format is a sequence of items,
literal characters and directives, and a rest, an unfinished directive (`parse`): the format is
`Complete` if there is none. The items take the arguments, whose types they prescribe (`signature`),
and expand to a text (`expand`). -/

namespace ToolsCxx.Logging.Format

open ToolsCxx.Lib.Sinks ToolsCxx.Lib.Numerals
open ToolsCxx.Logging.Print

/-! ### The text of a directive -/

def base : HexFlag → ℕ
  | .no => 10
  | .lower => 16
  | .upper => 16

def digit : HexFlag → ℕ → Char
  | .no, n => Char.ofNat (n + 48)
  | .lower, n => hexArray.getD n '\x00'
  | .upper, n => HEXArray.getD n '\x00'

variable {D : Type}

/-- A number in a field. -/
def field (d : Directive) (n : ℕ) : List Char :=
  padLeft d.width.toNat d.padding (numeral (base d.hex) (digit d.hex) n)

/-- A number with a sign: the sign is before the field. -/
def signedField (d : Directive) (v : ℤ) : List Char :=
  (if v < 0 then ['-'] else []) ++ field d v.natAbs

/-- An integer argument of 32 or 64 bits. -/
def integer {w : ℕ} (d : Directive) (v : BitVec w) : List Char :=
  if d.sign then signedField d v.toInt else field d v.toNat

/-- The directive with no width, no precision and no flags. -/
def plain : Directive := { sign := true, hex := .no, padding := ' ', width := 0, fracWidth := 6 }

/-- An integer in decimal. -/
def decimal (v : ℤ) : List Char :=
  (if v < 0 then ['-'] else []) ++ numeral 10 (digit .no) v.natAbs

theorem integer_plain {w : ℕ} (v : BitVec w) : integer plain v = decimal v.toInt := by
  show signedField plain v.toInt = decimal v.toInt
  unfold signedField decimal field padLeft
  rw [show plain.width.toNat = 0 from rfl, Nat.zero_sub]
  rfl

/-- An integer part, a point and a fraction. -/
def fixed (d : Directive) (parts : BitVec 64 × BitVec 64) : List Char :=
  field d parts.1.toNat ++ ['.'] ++
    field { d with hex := .no, padding := '0', width := d.fracWidth } parts.2.toNat

/-- What the directive makes of its argument. -/
def valueText [Double D] (d : Directive) (c : Char) : Arg D → List Char
  | .int v =>
    if c = 'b' then if v = 0 then ['f', 'a', 'l', 's', 'e'] else ['t', 'r', 'u', 'e']
    else if c = 'c' then [Char.ofNat (v.toNat % 256)]
    else integer d v
  | .long v => integer d v
  | .double fn =>
    if Double.isNeg fn then '-' :: fixed d (splitDouble (Double.neg fn) d.fracWidth)
    else fixed d (splitDouble fn d.fracWidth)
  | .pointer p => field { d with hex := .upper, padding := '0', width := 16 } p.toNat
  | .string s => s.text

/-- The directive performs an operation that has no defined result. -/
def noResult [Double D] (d : Directive) : Arg D → Bool
  | .long v => d.sign && v == BitVec.intMin 64
  | .double fn =>
    let fn := if Double.isNeg fn then Double.neg fn else fn
    !Double.inRange fn || !Double.inRange (scaled fn d.fracWidth)
  | _ => false

/-- The type of the argument of a conversion; the other conversions stand for themselves. -/
def argType (c : Char) : Option ArgType :=
  match c with
  | 'b' | 'c' | 'd' => some .int
  | 'f' => some .double
  | 'l' => some .long
  | 'p' => some .pointer
  | 's' => some .string
  | _ => none

/-! ### Items -/

inductive Item where
  | literal (c : Char)
  /-- The marks are the texts of the flags `x` and `X`. -/
  | directive (d : Directive) (marks : List Char) (c : Char)
  deriving DecidableEq

/-- The first item of a format, and what is after it. -/
def item : List Char → Option (Item × List Char)
  | [] => none
  | c :: fmt =>
    if c = '\x00' then none
    else if c ≠ '%' then some (.literal c, fmt)
    else
      match scan ([] : List Char) fmt with
      | (_, _, []) => none
      | (d, marks, c :: rest) => some (.directive d marks c, rest)

theorem item_some {F rest : List Char} {it : Item} (h : item F = some (it, rest)) :
    (∃ c, F = c :: rest ∧ c ≠ '\x00' ∧ c ≠ '%' ∧ it = .literal c) ∨
      ∃ fmt d marks c, F = '%' :: fmt ∧ scan ([] : List Char) fmt = (d, marks, c :: rest) ∧
        it = .directive d marks c := by
  cases F with
  | nil => cases h
  | cons c fmt =>
    simp only [item] at h
    split_ifs at h with hnul hc
    · cases h
      exact .inl ⟨c, rfl, hnul, hc, rfl⟩
    · obtain rfl := not_not.mp hc
      split at h
      · cases h
      · next d marks c' rest' hscan =>
        cases h
        exact .inr ⟨fmt, d, marks, c', rfl, hscan, rfl⟩

theorem item_none {F : List Char} (h : item F = none) :
    F = [] ∨ (∃ fmt, F = '\x00' :: fmt) ∨
      ∃ fmt d marks, F = '%' :: fmt ∧ scan ([] : List Char) fmt = (d, marks, []) := by
  cases F with
  | nil => exact .inl rfl
  | cons c fmt =>
    simp only [item] at h
    split_ifs at h with hnul hc
    · exact .inr (.inl ⟨fmt, hnul ▸ rfl⟩)
    · obtain rfl := not_not.mp hc
      split at h
      · next d marks hscan => exact .inr (.inr ⟨fmt, d, marks, rfl, hscan⟩)
      · cases h

theorem item_literal {c : Char} (hnul : c ≠ '\x00') (hc : c ≠ '%') (fmt : List Char) :
    item (c :: fmt) = some (.literal c, fmt) := by
  simp only [item]
  rw [if_neg hnul, if_pos hc]

theorem item_directive {fmt marks rest : List Char} {d : Directive} {c : Char}
    (h : scan ([] : List Char) fmt = (d, marks, c :: rest)) :
    item ('%' :: fmt) = some (.directive d marks c, rest) := by
  simp only [item]
  rw [if_neg (by decide), if_neg (not_not.mpr rfl), h]

theorem item_suffix {F rest : List Char} {it : Item} (h : item F = some (it, rest)) :
    ∃ c, (c :: rest) <:+ F := by
  rcases item_some h with ⟨c, rfl, -⟩ | ⟨fmt, d, marks, c, rfl, hscan, -⟩
  · exact ⟨c, List.suffix_rfl⟩
  · have hsuffix := scan_suffix ([] : List Char) fmt
    rw [hscan] at hsuffix
    exact ⟨c, hsuffix.trans (List.suffix_cons _ _)⟩

/-- The items of a format, and the rest after them. -/
def parse (F : List Char) : List Item × List Char :=
  match _h : item F with
  | none => ([], F)
  | some (it, rest) => (it :: (parse rest).1, (parse rest).2)
termination_by F.length
decreasing_by
  obtain ⟨c, hc⟩ := item_suffix _h
  exact hc.length_le

theorem parse_of_none {F : List Char} (h : item F = none) : parse F = ([], F) := by
  unfold parse
  split
  · rfl
  · next it rest h' => rw [h] at h'; cases h'

theorem parse_of_some {F rest : List Char} {it : Item} (h : item F = some (it, rest)) :
    parse F = (it :: (parse rest).1, (parse rest).2) := by
  conv_lhs => unfold parse
  split
  · next h' => rw [h] at h'; cases h'
  · next it' rest' h' => rw [h] at h'; cases h'; rfl

/-- **Induction along a format**, item by item. -/
theorem parse_induction {P : List Char → Prop} (hnone : ∀ F, item F = none → P F)
    (hsome : ∀ F it rest, item F = some (it, rest) → P rest → P F) (F : List Char) : P F := by
  induction F using parse.induct with
  | case1 F h => exact hnone F h
  | case2 F it rest h ih => exact hsome F it rest h ih

theorem item_rest (F : List Char) : item (parse F).2 = none := by
  induction F using parse_induction with
  | hnone F h => rw [parse_of_none h]; exact h
  | hsome F it rest h ih => rw [parse_of_some h]; exact ih

theorem rest_suffix (F : List Char) : (parse F).2 <:+ F := by
  induction F using parse_induction with
  | hnone F h => rw [parse_of_none h]
  | hsome F it rest h ih =>
    obtain ⟨c, hc⟩ := item_suffix h
    rw [parse_of_some h]
    exact ih.trans ((List.suffix_cons c rest).trans hc)

/-- The rest of a string is an unfinished directive. -/
theorem rest_cases (F : CString) : (parse F.text).2 = [] ∨
    ∃ fmt d marks, (parse F.text).2 = '%' :: fmt ∧ scan ([] : List Char) fmt = (d, marks, []) := by
  rcases item_none (item_rest F.text) with h | ⟨fmt, h⟩ | h
  · exact .inl h
  · have hmem : '\x00' ∈ (parse F.text).2 := h ▸ List.mem_cons_self
    exact absurd ((rest_suffix F.text).mem hmem) F.noNul
  · exact .inr h

/-- The format ends with its last item. -/
def Complete (F : CString) : Prop := (parse F.text).2 = []

instance (F : CString) : Decidable (Complete F) := inferInstanceAs (Decidable (_ = _))

/-! ### Expansion -/

def Item.type : Item → Option ArgType
  | .literal _ => none
  | .directive _ _ c => argType c

/-- The types of the arguments of a format. -/
def signature (F : CString) : List ArgType := (parse F.text).1.filterMap Item.type

variable [Double D]

/-- The text of an item, and the arguments after it. -/
def Item.expand : Item → List (Arg D) → Option (List Char × List (Arg D))
  | .literal c, args => some ([c], args)
  | .directive d marks c, args =>
    match argType c with
    | none => some (marks ++ [c], args)
    | some t =>
      match args with
      | [] => none
      | a :: args => if a.type = t then some (marks ++ valueText d c a, args) else none

/-- The item performs an operation that has no defined result. -/
def Item.noResult : Item → List (Arg D) → Bool
  | .literal _, _ => false
  | .directive d _ c, args =>
    match argType c, args with
    | some _, a :: _ => Format.noResult d a
    | _, _ => false

/-- The text of a sequence of items. -/
def expand : List Item → List (Arg D) → Option (List Char × List (Arg D))
  | [], args => some ([], args)
  | it :: its, args =>
    match it.expand args with
    | none => none
    | some (t, args') => (expand its args').map fun r => (t ++ r.1, r.2)

omit [Double D] in
theorem map_eq_cons {A : List (Arg D)} {t : ArgType} {ts : List ArgType}
    (h : A.map Arg.type = t :: ts) : ∃ a A', A = a :: A' ∧ a.type = t ∧ A'.map Arg.type = ts := by
  cases A with
  | nil => cases h
  | cons a A' =>
    obtain ⟨ha, hA⟩ := List.cons.inj h
    exact ⟨a, A', rfl, ha, hA⟩

/-- Arguments of the right types are all taken. -/
theorem exists_expand {its : List Item} {A : List (Arg D)}
    (h : A.map Arg.type = its.filterMap Item.type) : ∃ R, expand its A = some (R, []) := by
  induction its generalizing A with
  | nil =>
    obtain rfl := List.map_eq_nil_iff.mp h
    exact ⟨[], rfl⟩
  | cons it its ih =>
    -- one item
    have hone : ∃ t A', it.expand A = some (t, A') ∧
        A'.map Arg.type = its.filterMap Item.type := by
      cases it with
      | literal c => exact ⟨[c], A, rfl, h⟩
      | directive d marks c =>
        cases hc : argType c with
        | none =>
          have hty : (Item.directive d marks c).type = none := hc
          rw [List.filterMap_cons_none hty] at h
          exact ⟨marks ++ [c], A, by simp only [Item.expand, hc], h⟩
        | some t =>
          have hty : (Item.directive d marks c).type = some t := hc
          rw [List.filterMap_cons_some hty] at h
          obtain ⟨a, A', rfl, ha, hA⟩ := map_eq_cons h
          exact ⟨marks ++ valueText d c a, A', by simp only [Item.expand, hc, if_pos ha], hA⟩
    obtain ⟨t, A', ht, hA'⟩ := hone
    obtain ⟨R, hR⟩ := ih hA'
    exact ⟨t ++ R, by simp only [expand, ht, hR, Option.map_some]⟩

/-! ### Concatenation -/

theorem Item.expand_append {it : Item} {A A' : List (Arg D)} {t : List Char}
    (h : it.expand A = some (t, A')) (B : List (Arg D)) :
    it.expand (A ++ B) = some (t, A' ++ B) := by
  cases it with
  | literal c =>
    cases h
    rfl
  | directive d marks c =>
    simp only [Item.expand] at h ⊢
    cases hc : argType c with
    | none =>
      rw [hc] at h
      cases h
      rfl
    | some ty =>
      rw [hc] at h
      cases A with
      | nil => cases h
      | cons a A =>
        simp only [List.cons_append] at h ⊢
        split_ifs at h ⊢ with ha
        cases h
        rfl

theorem expand_append {its its' : List Item} {A A' B B' : List (Arg D)} {R R' : List Char}
    (h : expand its A = some (R, A')) (h' : expand its' (A' ++ B) = some (R', B')) :
    expand (its ++ its') (A ++ B) = some (R ++ R', B') := by
  induction its generalizing A R with
  | nil =>
    cases h
    exact h'
  | cons it its ih =>
    simp only [expand, List.cons_append] at h ⊢
    cases hit : it.expand A with
    | none =>
      rw [hit] at h
      cases h
    | some r =>
      rw [hit] at h
      obtain ⟨⟨R₀, A₀⟩, hR₀, heq⟩ := Option.map_eq_some_iff.mp h
      obtain ⟨rfl, rfl⟩ := Prod.mk.inj heq
      rw [Item.expand_append hit B]
      simp only [ih hR₀, Option.map_some, List.append_assoc]

section
variable {fmt rest G : List Char} {c : Char}

theorem digits_append {width : BitVec 8} (h : (digits width fmt).2 = c :: rest) :
    digits width (fmt ++ G) = ((digits width fmt).1, c :: rest ++ G) := by
  induction fmt generalizing width with
  | nil => cases h
  | cons a fmt ih =>
    simp only [digits, List.cons_append] at h ⊢
    split_ifs at h ⊢ with ha
    · exact ih h
    · cases h
      rfl

theorem flags_append {d : Directive} {marks : List Char} (h : (flags d marks fmt).2.2 = c :: rest) :
    flags d marks (fmt ++ G) =
      ((flags d marks fmt).1, (flags d marks fmt).2.1, c :: rest ++ G) := by
  induction d, marks, fmt using flags.induct with
  | case1 d marks =>
    rw [flags_nil] at h
    cases h
  | case2 d marks fmt ih =>
    rw [flags_u] at h
    rw [List.cons_append, flags_u, flags_u]
    exact ih h
  | case3 d marks fmt _ ih =>
    rw [flags_x] at h
    rw [List.cons_append, flags_x, flags_x]
    exact ih h
  | case4 d marks fmt _ _ ih =>
    rw [flags_X] at h
    rw [List.cons_append, flags_X, flags_X]
    exact ih h
  | case5 d marks fmt _ _ _ ih =>
    rw [flags_dot] at h
    rw [List.cons_append, flags_dot, flags_dot]
    cases hdig : (digits 0 fmt).2 with
    | nil =>
      rw [hdig, flags_nil] at h
      cases h
    | cons c' rest' =>
      have hih := ih h
      rw [digits_append hdig]
      rw [hdig] at hih
      exact hih
  | case6 d marks c' fmt hu hx hX hdot =>
    rw [flags_other _ _ _ hu hx hX hdot] at h
    rw [List.cons_append, flags_other _ _ _ hu hx hX hdot, flags_other _ _ _ hu hx hX hdot]
    cases h
    rfl

theorem scan_append {d : Directive} {marks : List Char}
    (h : scan ([] : List Char) fmt = (d, marks, c :: rest)) (G : List Char) :
    scan ([] : List Char) (fmt ++ G) = (d, marks, c :: rest ++ G) := by
  unfold scan at h ⊢
  cases hdig : (digits 0 fmt).2 with
  | nil =>
    rw [hdig, flags_nil] at h
    cases h
  | cons c' rest' =>
    have hne : fmt ≠ [] := fun hnil => by rw [hnil] at hdig; cases hdig
    have hderef : deref (fmt ++ G) = deref fmt := by
      cases fmt with
      | nil => exact absurd rfl hne
      | cons a fmt => rfl
    rw [digits_append hdig, hderef, ← hdig]
    exact (flags_append (congrArg (·.2.2) h)).trans (by rw [h])

theorem item_append {F : List Char} {it : Item} (h : item F = some (it, rest)) (G : List Char) :
    item (F ++ G) = some (it, rest ++ G) := by
  rcases item_some h with ⟨c, rfl, hnul, hc, rfl⟩ | ⟨fmt, d, marks, c, rfl, hscan, rfl⟩
  · exact item_literal hnul hc _
  · exact item_directive (scan_append hscan G)

theorem parse_append {F : List Char} (h : (parse F).2 = []) (G : List Char) :
    parse (F ++ G) = ((parse F).1 ++ (parse G).1, (parse G).2) := by
  induction F using parse_induction with
  | hnone F hF =>
    rw [parse_of_none hF] at h ⊢
    obtain rfl : F = [] := h
    rfl
  | hsome F it rest hF ih =>
    rw [parse_of_some hF] at h
    rw [parse_of_some (item_append hF G), parse_of_some hF, ih h]
    rfl

end

end ToolsCxx.Logging.Format
