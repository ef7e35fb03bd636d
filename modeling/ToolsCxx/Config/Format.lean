import ToolsCxx.Config.Model
import Mathlib.Data.List.DropRight

/-! # The format of configuration files

`items` are the items of a text: those of its lines, without the blanks around names and contents.
`load` inserts them in turn (`load_eq`), so that afterwards a name has the content that it had
before, or else the one of its first item (`find_load`). -/

namespace ToolsCxx.Config.Format

open ToolsCxx.Lib.OrderedMap ToolsCxx.Config.Model

/-! ### Items -/

/-- A text without the blanks at its ends. -/
def strip (text : List Char) : List Char := (text.dropWhile (· = ' ')).rdropWhile (· = ' ')

/-- The item of a line: its name and its content. -/
def item : List Char → Option (List Char × List Char)
  | [] => none
  | c :: line =>
    if c ∈ ['#', '[', '\t', '\r', '\n'] then none
    else
      match (c :: line).dropWhile (· ≠ '=') with
      | [] => none
      | _ :: content => some (strip ((c :: line).takeWhile (· ≠ '=')), strip content)

/-- The items of a text, in order. -/
def items (text : List Char) : List (List Char × List Char) := (text.splitOn '\n').filterMap item

/-! ### Strings -/

/-- The first place where `p` holds, and the two parts of the list there. -/
theorem findIdx?_cases {α : Type} {p q : α → Bool} (hq : ∀ x, q x = !p x) (l : List α) :
    (l.findIdx? p = none ∧ l.dropWhile q = []) ∨
      ∃ i < l.length, l.findIdx? p = some i ∧ l.take i = l.takeWhile q ∧
        l.drop i = l.dropWhile q := by
  have hp : (fun x => !q x) = p := funext fun x => by rw [hq, Bool.not_not]
  have htake : l.takeWhile q = l.take (l.findIdx p) := by
    rw [List.takeWhile_eq_take_findIdx_not, hp]
  have hdrop : l.dropWhile q = l.drop (l.findIdx p) := by
    rw [List.dropWhile_eq_drop_findIdx_not, hp]
  cases h : l.findIdx? p with
  | none =>
    rw [List.findIdx?_eq_none_iff_findIdx_eq] at h
    exact .inl ⟨rfl, by rw [hdrop, h, List.drop_length]⟩
  | some i =>
    obtain ⟨hi, rfl⟩ := List.findIdx?_eq_some_iff_findIdx_eq.mp h
    exact .inr ⟨_, hi, rfl, htake.symm, hdrop.symm⟩

theorem ne_blank (c : Char) : decide (c = ' ') = !decide (c ≠ ' ') := by
  rw [decide_not, Bool.not_not]

/-- The first `erase` of `trim_space`. -/
theorem erase_front (string : List Char) :
    erase 0 (findFirstNotOf ' ' string) string = string.dropWhile (· = ' ') := by
  unfold findFirstNotOf
  rcases findIdx?_cases ne_blank string with ⟨h, hnil⟩ | ⟨i, -, h, -, hdrop⟩
  · rw [h, hnil]
    exact string.take_zero
  · rw [h, ← hdrop]
    show string.take 0 ++ string.drop (0 + i) = _
    rw [List.take_zero, List.nil_append, Nat.zero_add]

/-- The second one. -/
theorem erase_back (string : List Char) :
    erase (afterPos (findLastNotOf ' ' string)) none string = string.rdropWhile (· = ' ') := by
  unfold findLastNotOf List.rdropWhile
  rcases findIdx?_cases ne_blank string.reverse with ⟨h, hnil⟩ | ⟨i, hi, h, -, hdrop⟩
  · rw [h, hnil]
    exact string.take_zero
  · rw [List.length_reverse] at hi
    rw [h, ← hdrop, List.drop_reverse, List.reverse_reverse]
    show string.take (string.length - 1 - i + 1) = _
    congr 1
    omega

theorem trimSpace_eq (string : List Char) : trimSpace string = strip string := by
  unfold trimSpace
  split_ifs with h
  · rw [h]; rfl
  · dsimp only
    rw [erase_front, erase_back]
    rfl

/-! ### `load` -/

theorem loadLine_eq (lineBuf : List Char) (store : Store) :
    loadLine lineBuf store =
      match item lineBuf with
      | some p => store.insertNew p.1 p.2
      | none => store := by
  cases lineBuf with
  | nil => rfl
  | cons c line =>
    have hskip : (c ∈ ['#', '[', '\t', '\r', '\n']) ↔
        (c = '#' ∨ c = '[' ∨ c = '\t' ∨ c = '\r' ∨ c = '\n') := by simp
    unfold loadLine item
    simp only [hskip]
    split_ifs with h
    · rfl
    have heq : ∀ x : Char, decide (x ≠ '=') = !decide (x = '=') := fun x => decide_not
    unfold find
    rcases findIdx?_cases heq (c :: line) with ⟨hf, hnil⟩ | ⟨i, hi, hf, htake, hdrop⟩
    · rw [hf, hnil]
    · have htail : (c :: line).drop (i + 1) = ((c :: line).dropWhile (· ≠ '=')).tail := by
        rw [← List.tail_drop, hdrop]
      rw [hf]
      dsimp only
      rw [trimSpace_eq, trimSpace_eq, htake, htail]
      cases hrest : (c :: line).dropWhile (· ≠ '=') with
      | nil =>
        rw [hrest, List.drop_eq_nil_iff] at hdrop
        omega
      | cons x content => rfl

/-- **The loop reads the lines of the text**, also the last one. -/
theorem loadLoop_eq (text : List Char) (store : Store) :
    loadLoop ⟨text, true⟩ store =
      (text.splitOn '\n').foldl (fun store lineBuf => loadLine lineBuf store) store := by
  induction h : text.length using Nat.strong_induction_on generalizing text store with
  | _ n ih =>
    have hsplit := List.takeWhile_append_dropWhile (p := (· ≠ '\n')) (l := text)
    have hno : '\n' ∉ text.takeWhile (· ≠ '\n') := fun hx => by
      have := List.mem_takeWhile_imp hx
      simp at this
    unfold loadLoop
    rw [if_pos rfl]
    unfold getline
    cases hrest : text.dropWhile (· ≠ '\n') with
    | nil =>
      rw [hrest, List.append_nil] at hsplit
      rw [hsplit] at hno
      dsimp only
      unfold loadLoop
      rw [hsplit, List.splitOn_eq_singleton hno, if_neg Bool.false_ne_true]
      rfl
    | cons c rest =>
      have hc : c = '\n' := by
        have hhead := List.head_dropWhile_not (· ≠ '\n') (l := text)
          (by rw [hrest]; exact List.cons_ne_nil c rest)
        simp only [hrest, List.head_cons] at hhead
        exact not_not.mp (of_decide_eq_false hhead)
      rw [hrest, hc] at hsplit
      have hlen : rest.length < n := by
        rw [← h, ← hsplit, List.length_append, List.length_cons]
        omega
      dsimp only
      rw [ih _ hlen rest _ rfl]
      conv_rhs => rw [← hsplit]
      rw [List.splitOn_append_cons_self_of_not_mem hno]
      rfl

/-- **`load` inserts the items** of the text in turn. -/
theorem load_eq (text : List Char) (store : Store) : load (some text) store =
    .ok ((items text).foldl (fun m p => m.insertNew p.1 p.2) store) := by
  show Except.ok (loadLoop ⟨text, true⟩ store) = _
  unfold items
  rw [loadLoop_eq, List.foldl_filterMap]
  refine congrArg Except.ok (List.foldl_ext _ _ _ fun m line _ => ?_)
  rw [loadLine_eq]
  cases item line <;> rfl

/-- **What a name has after `load`**: what it had, or else the content of its first item. -/
theorem find_load {text : List Char} {store store' : Store}
    (h : load (some text) store = .ok store') (name : List Char) :
    store'.find name = (store.find name).or ((items text).lookup name) := by
  rw [load_eq] at h
  cases h
  exact OrdMap.find_insertAll (items text) store name

end ToolsCxx.Config.Format
