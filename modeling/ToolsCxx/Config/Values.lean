import ToolsCxx.Base.Integers
import ToolsCxx.Config.Load
import ToolsCxx.Lib.Numerals

/-! # `ConfigFile`: the values of the items

`get` reads the value of an item from its content, with the `operator>>` of the type that is asked
for, in the classic locale. A string is read up to the first white space. A number that is too large
for an `int` gives the largest one, and a text that is no number gives 0; but if there is nothing to
read, the `int` or `bool` that is returned has never been assigned.

* `get_written`: what is read of a written file. -/

namespace ToolsCxx.Config.Values

open ToolsCxx.Base ToolsCxx.Lib.Numerals ToolsCxx.Lib.OrderedMap ToolsCxx.Config.Model
open ToolsCxx.Config.Format ToolsCxx.Config.Load

/-! ### `operator>>` -/

def isSpace (c : Char) : Bool := c ∈ [' ', '\t', '\n', '\x0b', '\x0c', '\r']

/-- The sign of a number, and what comes after it. -/
def sign : List Char → Bool × List Char
  | '-' :: text => (true, text)
  | '+' :: text => (false, text)
  | text => (false, text)

def intMin : ℤ := -2147483648

/-- The nearest `int`. -/
def saturate (v : ℤ) : ℤ := max intMin (min intMax v)

/-- `num_get` for an `int`. -/
def numGet (text : List Char) : ℤ :=
  let (negative, rest) := sign text
  let n : ℤ := Nat.ofDigitChars 10 (rest.takeWhile Char.isDigit) 0
  saturate (if negative then -n else n)

/-- `num_get` for a `bool` with `boolalpha`. The text that is read is the longest one with which
`true` or `false` begins. -/
def boolGet (text : List Char) : Bool := text.take 4 = ['t', 'r', 'u', 'e']

/-- The types of the items. -/
inductive ItemType where
  | string
  | int
  | bool
  deriving DecidableEq

def ItemType.Value : ItemType → Type
  | .string => List Char
  | .int => ℤ
  | .bool => Bool

/-- The `sentry` skips white space, and fails if there is nothing else. -/
def afterSpace {α : Type} (read : List Char → α) (content : List Char) : Option α :=
  match content.dropWhile isSpace with
  | [] => none
  | c :: text => some (read (c :: text))

/-- `std::stringstream(content) >> retVal`; nothing, if `retVal` keeps what it was made with and
that is not determined. -/
def extract : (T : ItemType) → List Char → Option T.Value
  | .string => fun content =>
    let word : List Char := (content.dropWhile isSpace).takeWhile fun c => !isSpace c
    some word
  | .int => afterSpace numGet
  | .bool => afterSpace boolGet

/-- `ConfigFile::get`. -/
def get (T : ItemType) (itemName : List Char) (store : Store) :
    Except Exception (Option T.Value) :=
  Model.get (extract T) itemName store

/-! ### Texts of values -/

/-- An integer in decimal. -/
def decimal (v : ℤ) : List Char :=
  (if v < 0 then ['-'] else []) ++ numeral 10 Nat.digitChar v.natAbs

def boolText : Bool → List Char
  | true => ['t', 'r', 'u', 'e']
  | false => ['f', 'a', 'l', 's', 'e']

theorem digitChar_cases {c : Char} {n : ℕ} (h : c ∈ numeral 10 Nat.digitChar n) :
    c.isDigit = true ∧ isSpace c = false ∧ c ≠ '-' ∧ c ≠ '+' := by
  obtain ⟨k, hk, rfl⟩ := mem_numeral (by decide) h
  have hall : ∀ k < 10, (Nat.digitChar k).isDigit = true ∧ isSpace (Nat.digitChar k) = false ∧
      Nat.digitChar k ≠ '-' ∧ Nat.digitChar k ≠ '+' := by decide
  exact hall k hk

theorem ofDigitChars_numeral (n : ℕ) :
    Nat.ofDigitChars 10 (numeral 10 Nat.digitChar n) 0 = n := by
  have hdigit : ∀ k < 10, (Nat.digitChar k).toNat - '0'.toNat = k := by decide
  induction n using Nat.strong_induction_on with
  | _ n ih =>
    by_cases hn : n < 10
    · rw [numeral_of_lt hn, Nat.ofDigitChars_cons, Nat.ofDigitChars_nil, hdigit n hn, Nat.mul_zero,
        Nat.zero_add]
    · rw [numeral_of_le (by decide) (by omega), Nat.ofDigitChars_append, ih (n / 10) (by omega),
        Nat.ofDigitChars_cons, Nat.ofDigitChars_nil, hdigit (n % 10) (by omega)]
      omega

/-- The sign of a numeral. -/
theorem sign_decimal (v : ℤ) :
    sign (decimal v) = (decide (v < 0), numeral 10 Nat.digitChar v.natAbs) := by
  unfold decimal
  split_ifs with hv
  · rw [decide_eq_true hv]
    rfl
  · rw [decide_eq_false hv, List.nil_append]
    unfold sign
    split
    · next h => exact absurd rfl (digitChar_cases (h.symm ▸ List.mem_cons_self)).2.2.1
    · next h => exact absurd rfl (digitChar_cases (h.symm ▸ List.mem_cons_self)).2.2.2
    · rfl

theorem numGet_decimal (v : ℤ) : numGet (decimal v) = saturate v := by
  have htake : (numeral 10 Nat.digitChar v.natAbs).takeWhile Char.isDigit =
      numeral 10 Nat.digitChar v.natAbs :=
    List.takeWhile_eq_self_iff.mpr fun c hc => (digitChar_cases hc).1
  unfold numGet
  rw [sign_decimal]
  dsimp only
  rw [htake, ofDigitChars_numeral]
  congr 1
  simp only [decide_eq_true_eq]
  split_ifs with hv
  · omega
  · omega

/-- A text that begins with no white space. -/
theorem dropWhile_of_head {c : Char} {text : List Char} (h : isSpace c = false) :
    (c :: text).dropWhile isSpace = c :: text :=
  List.dropWhile_cons_of_neg (by rw [h]; exact Bool.false_ne_true)

theorem decimal_cons (v : ℤ) : ∃ c text, decimal v = c :: text ∧ isSpace c = false := by
  unfold decimal
  split_ifs with hv
  · exact ⟨'-', _, rfl, rfl⟩
  · have hpos : 0 < (numeral 10 Nat.digitChar v.natAbs).length := length_numeral_pos
    obtain ⟨c, text, h⟩ := List.exists_cons_of_length_pos hpos
    refine ⟨c, text, h, ?_⟩
    exact (digitChar_cases (h.symm ▸ List.mem_cons_self)).2.1

theorem extract_decimal (v : ℤ) : extract .int (decimal v) = some (saturate v) := by
  obtain ⟨c, text, h, hc⟩ := decimal_cons v
  have hget := numGet_decimal v
  show afterSpace numGet (decimal v) = some (saturate v)
  unfold afterSpace
  rw [h] at hget ⊢
  rw [dropWhile_of_head hc]
  exact congrArg some hget

theorem extract_boolText (b : Bool) : extract .bool (boolText b) = some b := by
  cases b <;> rfl

/-- A string is read whole if and only if it has no white space. -/
theorem extract_string_iff (content : List Char) :
    extract .string content = some content ↔ ∀ c ∈ content, isSpace c = false := by
  show some _ = some content ↔ _
  rw [Option.some.injEq]
  constructor
  · intro h c hc
    rw [← h] at hc
    have := List.mem_takeWhile_imp hc
    simpa using this
  · intro h
    have hdrop : content.dropWhile isSpace = content := by
      cases content with
      | nil => rfl
      | cons c text => exact dropWhile_of_head (h c List.mem_cons_self)
    rw [hdrop, List.takeWhile_eq_self_iff]
    intro c hc
    rw [h c hc]
    rfl

theorem afterSpace_eq_none {α : Type} {read : List Char → α} {content : List Char} :
    afterSpace read content = none ↔ ∀ c ∈ content, isSpace c = true := by
  rw [← List.dropWhile_eq_nil_iff]
  unfold afterSpace
  cases content.dropWhile isSpace with
  | nil => exact iff_of_true rfl rfl
  | cons c text => exact iff_of_false nofun nofun

/-- There is nothing to read. -/
theorem extract_eq_none {T : ItemType} (hT : T ≠ .string) (content : List Char) :
    extract T content = none ↔ ∀ c ∈ content, isSpace c = true := by
  cases T with
  | string => exact absurd rfl hT
  | int => exact afterSpace_eq_none
  | bool => exact afterSpace_eq_none

/-! ### Reading a written file -/

theorem get_of_find {T : ItemType} {name content : List Char} {store : Store}
    (h : store.find name = some content) : get T name store = .ok (extract T content) := by
  unfold get Model.get
  rw [h]

/-- **The values of a written file.** Of an item of the file `get` reads the integer or the truth
value that was written, the integer as the nearest `int`; a string exactly if it has no white space;
and neither an integer nor a truth value exactly if there is nothing but white space. For a name
that no item has it throws. -/
theorem get_written {lines : List Line}
    (hnodup : ((lines.filterMap Line.item?).map Item.name).Nodup) (final : Bool) :
    ∃ store, load (some (render lines final)) ∅ = .ok store ∧
      (∀ i ∈ lines.filterMap Line.item?,
        (∀ v, i.content = decimal v → get .int i.name store = .ok (some (saturate v))) ∧
        (∀ b, i.content = boolText b → get .bool i.name store = .ok (some b)) ∧
        (get .string i.name store = .ok (some i.content) ↔ ∀ c ∈ i.content, isSpace c = false) ∧
        ∀ T, T ≠ .string →
          (get T i.name store = .ok none ↔ ∀ c ∈ i.content, isSpace c = true)) ∧
      ∀ T name, name ∉ (lines.filterMap Line.item?).map Item.name →
        get T name store = .error .cantFind := by
  have hitems : (items (render lines final)).map Prod.fst =
      (lines.filterMap Line.item?).map Item.name := by
    rw [items_render, List.map_map]
    rfl
  refine ⟨_, load_eq _ _, fun i hi => ?_, fun T name hname => ?_⟩
  · have hfind : OrdMap.find (items (render lines final) |>.foldl
        (fun m p => m.insertNew p.1 p.2) ∅) i.name = some i.content := by
      rw [OrdMap.find_insertAll, OrdMap.find_empty, Option.none_or,
        OrdMap.lookup_eq_some_of_nodup (hitems ▸ hnodup), items_render, List.mem_map]
      exact ⟨i, hi, rfl⟩
    have hget : ∀ T, get T i.name _ = .ok (extract T i.content) := fun T => get_of_find hfind
    refine ⟨fun v hv => ?_, fun b hb => ?_, ?_, fun T hT => ?_⟩
    · rw [hget, hv, extract_decimal]
      rfl
    · rw [hget, hb, extract_boolText]
      rfl
    · rw [hget, ← extract_string_iff]
      exact ⟨Except.ok.inj, congrArg _⟩
    · rw [hget, ← extract_eq_none hT]
      exact ⟨Except.ok.inj, congrArg _⟩
  · have hnone : (items (render lines final)).lookup name = none := by
      rw [List.lookup_eq_none_iff]
      intro p hp
      rw [bne_iff_ne]
      rintro rfl
      exact hname (hitems ▸ List.mem_map_of_mem hp)
    unfold get Model.get
    rw [OrdMap.find_insertAll, OrdMap.find_empty, Option.none_or, hnone]

/-- A negative number. -/
def width : Item where
  name := ['w']
  content := ['-', '1', '2']
  name_ne_nil := by decide
  noEquals := by decide
  noNewline := by decide
  start := by rintro c ⟨⟩; decide
  nameEnd := by decide
  contentStart := by decide
  contentEnd := by decide

theorem get_written_width :
    ∃ store, load (some (render [.item width 1 1 0, .item host 0 0 0] true)) ∅ = .ok store ∧
      (∀ i ∈ [width, host],
        (∀ v, i.content = decimal v → get .int i.name store = .ok (some (saturate v))) ∧
        (∀ b, i.content = boolText b → get .bool i.name store = .ok (some b)) ∧
        (get .string i.name store = .ok (some i.content) ↔ ∀ c ∈ i.content, isSpace c = false) ∧
        ∀ T, T ≠ .string →
          (get T i.name store = .ok none ↔ ∀ c ∈ i.content, isSpace c = true)) ∧
      ∀ T name, name ∉ [['w'], ['h', ' ', 'o']] → get T name store = .error .cantFind :=
  @get_written [.item width 1 1 0, .item host 0 0 0] (by decide) true

end ToolsCxx.Config.Values
