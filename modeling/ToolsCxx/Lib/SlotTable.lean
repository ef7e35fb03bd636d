import Mathlib.Data.Int.Init
import Mathlib.Data.List.Nodup
import Mathlib.Logic.Function.Basic

/-! # Slot tables

The elements of a set are kept in the slots of an array, and every element knows its slot
(`Indexed`): `index x` is the position of `x`, or `-1` if `x` is in no slot. An element is appended
at the end (`Indexed.push`); one is removed in constant time, the last by shortening the array
(`Indexed.pop`), another by moving the last element to its slot (`Indexed.move`). -/

namespace ToolsCxx.Lib.SlotTable

variable {α : Type} {slots : List α} {index : α → ℤ} {x y : α} {k : ℕ}

/-- **Every element knows its slot.** -/
structure Indexed (slots : List α) (index : α → ℤ) : Prop where
  slot : ∀ (k : ℕ) x, slots[k]? = some x → index x = k
  absent : ∀ x, x ∉ slots → index x = -1

theorem indexed_nil : Indexed ([] : List α) fun _ => -1 where
  slot k x h := by simp at h
  absent _ _ := rfl

theorem Indexed.getElem? (h : Indexed slots index) (hx : x ∈ slots) :
    ∃ k : ℕ, index x = k ∧ slots[k]? = some x := by
  obtain ⟨k, hk⟩ := List.mem_iff_getElem?.mp hx
  exact ⟨k, h.slot k x hk, hk⟩

theorem Indexed.nonneg_iff (h : Indexed slots index) : 0 ≤ index x ↔ x ∈ slots := by
  constructor
  · intro hx
    by_contra hno
    rw [h.absent x hno] at hx
    omega
  · intro hx
    obtain ⟨k, hk, -⟩ := h.getElem? hx
    omega

/-- No element has two slots. -/
theorem Indexed.nodup (h : Indexed slots index) : slots.Nodup := by
  rw [List.nodup_iff_getElem?_ne_getElem?]
  intro i j hij hj heq
  obtain ⟨x, hx⟩ : ∃ x, slots[j]? = some x := ⟨_, List.getElem?_eq_getElem hj⟩
  have hi := h.slot i x (heq.trans hx)
  rw [h.slot j x hx] at hi
  omega

theorem Indexed.last_not_mem (h : Indexed (slots ++ [x]) index) : x ∉ slots := fun hx =>
  (List.nodup_append.mp h.nodup).2.2 x hx x List.mem_cons_self rfl

/-- What is kept in the slots, when it changes for one element. -/
theorem Indexed.map_set {β : Type} (h : Indexed slots index) (hx : slots[k]? = some x)
    {f g : α → β} (hfg : ∀ y, y ≠ x → g y = f y) : slots.map g = (slots.map f).set k (g x) := by
  refine List.ext_getElem? fun j => ?_
  by_cases hj : j = k
  · subst hj
    have hlt := (List.getElem?_eq_some_iff.mp hx).1
    rw [List.getElem?_set_self (by rw [List.length_map]; exact hlt), List.getElem?_map, hx]
    rfl
  · rw [List.getElem?_set_ne (Ne.symm hj), List.getElem?_map, List.getElem?_map]
    cases hy : slots[j]? with
    | none => rfl
    | some y =>
      have hyx : y ≠ x := by
        rintro rfl
        have h1 := h.slot j y hy
        have h2 := h.slot k y hx
        omega
      exact congrArg some (hfg y hyx)

variable [DecidableEq α]

theorem Indexed.push (h : Indexed slots index) (hx : x ∉ slots) :
    Indexed (slots ++ [x]) (Function.update index x slots.length) where
  slot k y hy := by
    by_cases hyx : y = x
    · subst hyx
      rw [Function.update_self]
      rcases Nat.lt_or_ge k slots.length with hk | hk
      · rw [List.getElem?_append_left hk] at hy
        exact absurd (List.mem_of_getElem? hy) hx
      · rw [List.getElem?_append_right hk] at hy
        have hlt := (List.getElem?_eq_some_iff.mp hy).1
        rw [List.length_singleton] at hlt
        omega
    · rw [Function.update_of_ne hyx]
      rcases Nat.lt_or_ge k slots.length with hk | hk
      · rw [List.getElem?_append_left hk] at hy
        exact h.slot k y hy
      · rw [List.getElem?_append_right hk] at hy
        exact absurd (List.mem_singleton.mp (List.mem_of_getElem? hy)) hyx
  absent y hy := by
    rw [List.mem_append, not_or, List.mem_singleton] at hy
    rw [Function.update_of_ne hy.2]
    exact h.absent y hy.1

/-- The last element is removed. -/
theorem Indexed.pop (h : Indexed (slots ++ [x]) index) :
    Indexed slots (Function.update index x (-1)) := by
  refine ⟨fun k y hy => ?_, fun y hy => ?_⟩
  · have hmem := List.mem_of_getElem? hy
    have hyx : y ≠ x := fun hyx => h.last_not_mem (hyx ▸ hmem)
    rw [Function.update_of_ne hyx]
    have hlt := (List.getElem?_eq_some_iff.mp hy).1
    exact h.slot k y (by rw [List.getElem?_append_left hlt, hy])
  · by_cases hyx : y = x
    · rw [hyx, Function.update_self]
    · rw [Function.update_of_ne hyx]
      exact h.absent y fun hmem => by
        rcases List.mem_append.mp hmem with hmem | hmem
        · exact hy hmem
        · exact hyx (List.mem_singleton.mp hmem)

/-- The element `x` is removed, and the last element `y` gets its slot. -/
theorem Indexed.move (h : Indexed (slots ++ [y]) index) (hx : slots[k]? = some x) :
    Indexed (slots.set k y) (Function.update (Function.update index y k) x (-1)) := by
  have hynot := h.last_not_mem
  have hlt := (List.getElem?_eq_some_iff.mp hx).1
  have hxy : y ≠ x := fun hxy => hynot (hxy ▸ List.mem_of_getElem? hx)
  have hindex : ∀ {j : ℕ} {z}, slots[j]? = some z → index z = j := by
    intro j z hz
    have hj := (List.getElem?_eq_some_iff.mp hz).1
    exact h.slot j z (by rw [List.getElem?_append_left hj, hz])
  refine ⟨fun j z hz => ?_, fun z hz => ?_⟩
  · by_cases hjk : j = k
    · subst hjk
      rw [List.getElem?_set_self hlt] at hz
      cases hz
      rw [Function.update_of_ne hxy, Function.update_self]
    · rw [List.getElem?_set_ne (Ne.symm hjk)] at hz
      have hzy : z ≠ y := fun hzy => hynot (hzy ▸ List.mem_of_getElem? hz)
      have hzx : z ≠ x := by
        rintro rfl
        have h1 := hindex hz
        have h2 := hindex hx
        omega
      rw [Function.update_of_ne hzx, Function.update_of_ne hzy]
      exact hindex hz
  · by_cases hzx : z = x
    · rw [hzx, Function.update_self]
    · have hzy : z ≠ y := fun hzy => hz (by rw [hzy]; exact List.mem_set hlt y)
      rw [Function.update_of_ne hzx, Function.update_of_ne hzy]
      refine h.absent z fun hmem => hz ?_
      rcases List.mem_append.mp hmem with hmem | hmem
      · obtain ⟨j, hj⟩ := List.mem_iff_getElem?.mp hmem
        have hjk : k ≠ j := by
          rintro rfl
          rw [hx] at hj
          exact hzx (Option.some.inj hj).symm
        exact List.mem_of_getElem? ((List.getElem?_set_ne hjk).trans hj)
      · exact absurd (List.mem_singleton.mp hmem) hzy

/-- The elements that are left. -/
theorem Indexed.mem_pop (h : Indexed (slots ++ [x]) index) {z : α} :
    z ∈ slots ↔ z ≠ x ∧ z ∈ slots ++ [x] := by
  rw [← h.pop.nonneg_iff, ← h.nonneg_iff]
  by_cases hzx : z = x
  · simp [hzx]
  · simp [hzx]

theorem Indexed.mem_move (h : Indexed (slots ++ [y]) index) (hx : slots[k]? = some x) {z : α} :
    z ∈ slots.set k y ↔ z ≠ x ∧ z ∈ slots ++ [y] := by
  rw [← (h.move hx).nonneg_iff, ← h.nonneg_iff]
  by_cases hzx : z = x
  · simp [hzx]
  · by_cases hzy : z = y
    · subst hzy
      have hz : 0 ≤ index z := h.nonneg_iff.mpr (by simp)
      simp [hzx, hz]
    · simp [hzx, hzy]

end ToolsCxx.Lib.SlotTable
