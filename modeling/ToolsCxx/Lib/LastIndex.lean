import Mathlib.Data.List.TakeDrop

/-! # The last occurrence

`lastIdx a l` is the place of the last `a` in `l`, if there is one: then `l` is what is before it,
`a`, and a rest without `a` (`lastIdx_eq_some`); and there is only one such place
(`lastIdx_append`). -/

namespace ToolsCxx.Lib.LastIndex

variable {α : Type*} [DecidableEq α]

def lastIdx (a : α) : List α → Option ℕ
  | [] => none
  | b :: l =>
    match lastIdx a l with
    | some k => some (k + 1)
    | none => if b = a then some 0 else none

variable {a : α} {l : List α}

theorem lastIdx_eq_none : lastIdx a l = none ↔ a ∉ l := by
  induction l with
  | nil => exact iff_of_true rfl List.not_mem_nil
  | cons b l ih =>
    rw [lastIdx, List.mem_cons, not_or, ← ih]
    cases lastIdx a l with
    | some k => simp
    | none => simp [eq_comm]

theorem lastIdx_eq_some {k : ℕ} (h : lastIdx a l = some k) :
    l = l.take k ++ a :: l.drop (k + 1) ∧ a ∉ l.drop (k + 1) := by
  induction l generalizing k with
  | nil => cases h
  | cons b l ih =>
    rw [lastIdx] at h
    cases hl : lastIdx a l with
    | some j =>
      rw [hl] at h
      cases h
      obtain ⟨hsplit, hrest⟩ := ih hl
      exact ⟨congrArg (b :: ·) hsplit, hrest⟩
    | none =>
      rw [hl] at h
      simp only at h
      split_ifs at h with hb
      cases h
      exact ⟨by rw [hb]; rfl, lastIdx_eq_none.mp hl⟩

theorem lastIdx_lt {k : ℕ} (h : lastIdx a l = some k) : k < l.length := by
  have hlen := congrArg List.length (lastIdx_eq_some h).1
  rw [List.length_append, List.length_cons, List.length_take] at hlen
  omega

theorem lastIdx_append {l' : List α} (h : a ∉ l') : lastIdx a (l ++ a :: l') = some l.length := by
  induction l with
  | nil => rw [List.nil_append, lastIdx, lastIdx_eq_none.mpr h]; exact if_pos rfl
  | cons b l ih => rw [List.cons_append, lastIdx, ih]; rfl

/-- What is before the last `a` and what is after it. -/
def splitLast (a : α) (l : List α) : Option (List α × List α) :=
  (lastIdx a l).map fun k => (l.take k, l.drop (k + 1))

theorem splitLast_append {l' : List α} (h : a ∉ l') :
    splitLast a (l ++ a :: l') = some (l, l') := by
  have hdrop : (l ++ a :: l').drop (l.length + 1) = l' := by
    rw [← List.drop_drop, List.drop_left]
    rfl
  unfold splitLast
  rw [lastIdx_append h, Option.map_some, List.take_left, hdrop]

end ToolsCxx.Lib.LastIndex
