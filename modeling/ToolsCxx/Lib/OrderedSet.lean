import Mathlib.Data.List.Sort

/-! # Ordered sets

`OrdSet α` is a finite set of a linear order, given by the increasing list of its elements: what an
ordered container shows to a program that walks it from its beginning. The order of the list is a
field, so every operation below yields an ordered set again.

* `begin?`: the first element of the walk, the least one (`begin?_eq_some`).
* `below x`, `above x`: the walk up to the lower bound of `x` and the set from there on; together
  they are the whole walk (`below_append_above`).
* the operations up to a permutation (`insert_perm`, `erase_perm`), for arguments that count
  elements. -/

namespace ToolsCxx.Lib.OrderedSet

/-- A finite set, as the increasing list of its elements. -/
structure OrdSet (α : Type) [LinearOrder α] where
  toList : List α
  sorted : toList.SortedLT

variable {α : Type} [LinearOrder α]

namespace OrdSet

instance : Membership α (OrdSet α) := ⟨fun s x => x ∈ s.toList⟩

instance : EmptyCollection (OrdSet α) := ⟨⟨[], List.sortedLT_iff_pairwise.mpr List.Pairwise.nil⟩⟩

instance (x : α) (s : OrdSet α) : Decidable (x ∈ s) := inferInstanceAs (Decidable (x ∈ s.toList))

instance : DecidableEq (OrdSet α) := fun s t =>
  decidable_of_iff (s.toList = t.toList)
    ⟨fun h => by cases s; cases t; cases h; rfl, fun h => by rw [h]⟩

/-- The number of elements. -/
def size (s : OrdSet α) : ℕ := s.toList.length

/-- The first element. -/
def begin? (s : OrdSet α) : Option α := s.toList.head?

/-- The set with `x`. -/
def insert (x : α) (s : OrdSet α) : OrdSet α :=
  if h : x ∈ s.toList then s else
    ⟨s.toList.orderedInsert (· ≤ ·) x, by
      rw [List.sortedLT_iff_nodup_and_sortedLE]
      refine ⟨((List.perm_orderedInsert (· ≤ ·) x s.toList).nodup_iff).mpr
        (List.nodup_cons.mpr ⟨h, s.sorted.nodup⟩), ?_⟩
      exact (s.sorted.sortedLE.pairwise.orderedInsert x _).sortedLE⟩

/-- The set without `x`. -/
def erase (x : α) (s : OrdSet α) : OrdSet α :=
  ⟨s.toList.erase x, (s.sorted.pairwise.sublist List.erase_sublist).sortedLT⟩

/-- The elements before the lower bound of `x`, in order. -/
def below (x : α) (s : OrdSet α) : List α := s.toList.takeWhile (· < x)

/-- The set from the lower bound of `x` on. -/
def above (x : α) (s : OrdSet α) : OrdSet α :=
  ⟨s.toList.dropWhile (· < x),
    (s.sorted.pairwise.sublist (List.dropWhile_sublist _)).sortedLT⟩

variable {x y : α} {s : OrdSet α}

theorem mem_def : x ∈ s ↔ x ∈ s.toList := Iff.rfl

@[simp] theorem not_mem_empty : x ∉ (∅ : OrdSet α) := List.not_mem_nil

@[simp] theorem toList_empty : (∅ : OrdSet α).toList = [] := rfl

@[simp] theorem size_empty : (∅ : OrdSet α).size = 0 := rfl

theorem nodup (s : OrdSet α) : s.toList.Nodup := s.sorted.nodup

/-! ### The first element -/

theorem begin?_eq_none : s.begin? = none ↔ ∀ x, x ∉ s := by
  unfold begin?
  rw [List.head?_eq_none_iff, List.eq_nil_iff_forall_not_mem]
  exact Iff.rfl

theorem begin?_eq_some (h : s.begin? = some x) : x ∈ s ∧ ∀ y ∈ s, x ≤ y := by
  obtain ⟨l, hl⟩ := List.head?_eq_some_iff.mp h
  have hp := s.sorted.pairwise
  rw [hl, List.pairwise_cons] at hp
  refine ⟨by rw [mem_def, hl]; simp, fun y hy => ?_⟩
  rw [mem_def, hl, List.mem_cons] at hy
  rcases hy with rfl | hy
  · exact le_rfl
  · exact (hp.1 y hy).le

/-! ### Insertion -/

theorem insert_perm (h : x ∉ s) : (s.insert x).toList.Perm (x :: s.toList) := by
  have h' : x ∉ s.toList := h
  unfold insert
  rw [dif_neg h']
  exact List.perm_orderedInsert _ _ _

@[simp] theorem mem_insert : y ∈ s.insert x ↔ y = x ∨ y ∈ s := by
  by_cases h : x ∈ s
  · have hs : s.insert x = s := dif_pos h
    rw [hs]
    exact ⟨Or.inr, fun h' => h'.elim (fun e => e ▸ h) id⟩
  · rw [mem_def, (insert_perm h).mem_iff, List.mem_cons]
    exact Iff.rfl

theorem size_insert (h : x ∉ s) : (s.insert x).size = s.size + 1 := by
  unfold size; rw [(insert_perm h).length_eq, List.length_cons]

/-! ### Removal -/

theorem erase_perm (h : x ∈ s) : s.toList.Perm (x :: (s.erase x).toList) :=
  List.perm_cons_erase h

@[simp] theorem mem_erase : y ∈ s.erase x ↔ y ≠ x ∧ y ∈ s :=
  s.nodup.mem_erase_iff

theorem size_erase (h : x ∈ s) : (s.erase x).size + 1 = s.size := by
  unfold size; rw [(erase_perm h).length_eq, List.length_cons]

/-- The set without the elements of a list. -/
def eraseList (l : List α) (s : OrdSet α) : OrdSet α := l.foldl (fun s x => s.erase x) s

@[simp] theorem mem_eraseList : ∀ {l : List α} {s : OrdSet α}, y ∈ s.eraseList l ↔ y ∉ l ∧ y ∈ s
  | [], s => by simp [eraseList]
  | x :: l, s => by
    show y ∈ (s.erase x).eraseList l ↔ _
    rw [mem_eraseList, mem_erase, List.mem_cons, not_or]
    tauto

theorem size_eraseList : ∀ {l : List α} {s : OrdSet α}, l.Nodup → (∀ x ∈ l, x ∈ s) →
    (s.eraseList l).size + l.length = s.size
  | [], s, _, _ => rfl
  | x :: l, s, hn, hl => by
    obtain ⟨hx, hn⟩ := List.nodup_cons.mp hn
    have h1 := size_erase (hl x List.mem_cons_self)
    have h2 : ((s.erase x).eraseList l).size + l.length = (s.erase x).size := by
      refine size_eraseList hn fun y hy => mem_erase.mpr ⟨?_, hl y (List.mem_cons_of_mem _ hy)⟩
      rintro rfl; exact hx hy
    show ((s.erase x).eraseList l).size + (l.length + 1) = s.size
    omega

/-! ### The lower bound -/

theorem below_append_above (x : α) (s : OrdSet α) :
    s.below x ++ (s.above x).toList = s.toList :=
  List.takeWhile_append_dropWhile

theorem mem_takeWhile_dropWhile (x : α) : ∀ {l : List α}, l.Pairwise (· < ·) →
    (∀ y ∈ l.takeWhile (· < x), y < x) ∧ ∀ y ∈ l.dropWhile (· < x), x ≤ y
  | [], _ => by simp
  | z :: l, h => by
    obtain ⟨hz, hl⟩ := List.pairwise_cons.mp h
    obtain ⟨h1, h2⟩ := mem_takeWhile_dropWhile x hl
    by_cases hzx : z < x
    · simp only [List.takeWhile_cons, List.dropWhile_cons, hzx, decide_true, if_true]
      refine ⟨fun y hy => ?_, h2⟩
      rcases List.mem_cons.mp hy with rfl | hy
      · exact hzx
      · exact h1 y hy
    · simp only [List.takeWhile_cons, List.dropWhile_cons, hzx, decide_false]
      refine ⟨by simp, fun y hy => ?_⟩
      rcases List.mem_cons.mp hy with rfl | hy
      · exact not_lt.mp hzx
      · exact (not_lt.mp hzx).trans (hz y hy).le

@[simp] theorem mem_below : y ∈ s.below x ↔ y ∈ s ∧ y < x := by
  obtain ⟨h1, h2⟩ := mem_takeWhile_dropWhile x s.sorted.pairwise
  rw [mem_def, ← below_append_above x s, List.mem_append]
  refine ⟨fun h => ⟨Or.inl h, h1 y h⟩, ?_⟩
  rintro ⟨h | h, hlt⟩
  · exact h
  · exact absurd hlt (not_lt.mpr (h2 y h))

@[simp] theorem mem_above : y ∈ s.above x ↔ y ∈ s ∧ x ≤ y := by
  obtain ⟨h1, h2⟩ := mem_takeWhile_dropWhile x s.sorted.pairwise
  rw [mem_def, mem_def, ← below_append_above x s, List.mem_append]
  refine ⟨fun h => ⟨Or.inr h, h2 y h⟩, ?_⟩
  rintro ⟨h | h, hle⟩
  · exact absurd (h1 y h) (not_lt.mpr hle)
  · exact h

theorem below_sorted (x : α) (s : OrdSet α) : (s.below x).Pairwise (· < ·) :=
  s.sorted.pairwise.sublist (List.takeWhile_sublist _)

theorem size_below_above (x : α) (s : OrdSet α) :
    (s.below x).length + (s.above x).size = s.size := by
  unfold size; rw [← below_append_above x s, List.length_append]

end OrdSet

end ToolsCxx.Lib.OrderedSet
