import Mathlib.Data.Finset.Card
import Mathlib.Data.Finset.Filter
import Mathlib.Data.Finset.Range
import Mathlib.Logic.Function.Basic

/-! # Counting threads

The threads of a program are a family `f : ι → α` of program counters, of which a step changes one.
`Tally p f n` says that exactly `n` of them satisfy the test `p`, infinitely many others that do not
being allowed.

* `Tally.update`: how the tally changes when one of the counters does.
* `Tally.all_of_le`: if all those that satisfy the test are below `n`, all below `n` do. -/

namespace ToolsCxx.Lib.Counting

variable {ι α : Type} {p : α → Bool} {f g : ι → α} {n m : ℕ}

/-- Exactly `n` of the values of `f` satisfy `p`. -/
def Tally (p : α → Bool) (f : ι → α) (n : ℕ) : Prop :=
  ∃ T : Finset ι, (∀ i, i ∈ T ↔ p (f i) = true) ∧ T.card = n

theorem Tally.zero (h : ∀ i, p (f i) = false) : Tally p f 0 := by
  refine ⟨∅, fun i => ?_, Finset.card_empty⟩
  rw [h i]
  exact iff_of_false (Finset.notMem_empty i) Bool.false_ne_true

theorem Tally.congr (h : Tally p f n) (hfg : ∀ i, p (g i) = p (f i)) : Tally p g n := by
  obtain ⟨T, hT, hn⟩ := h
  exact ⟨T, fun i => by rw [hT, hfg], hn⟩

theorem Tally.unique (h : Tally p f n) (h' : Tally p f m) : n = m := by
  obtain ⟨T, hT, rfl⟩ := h
  obtain ⟨U, hU, rfl⟩ := h'
  have hTU : T = U := Finset.ext fun i => (hT i).trans (hU i).symm
  rw [hTU]

theorem Tally.pos (h : Tally p f n) {i : ι} (hi : p (f i) = true) : 0 < n := by
  obtain ⟨T, hT, rfl⟩ := h
  exact Finset.card_pos.mpr ⟨i, (hT i).mpr hi⟩

/-- **One of the values changes.** -/
theorem Tally.update [DecidableEq ι] (h : Tally p f n) (i : ι) (x : α) :
    ∃ m, Tally p (Function.update f i x) m ∧ m + (p (f i)).toNat = n + (p x).toNat := by
  obtain ⟨T, hT, rfl⟩ := h
  have hother : ∀ {k}, k ≠ i → (k ∈ T ↔ p (Function.update f i x k) = true) := fun hk => by
    rw [Function.update_of_ne hk]
    exact hT _
  have hself : p (Function.update f i x i) = p x := by rw [Function.update_self]
  cases hx : p x with
  | true =>
    refine ⟨_, ⟨insert i T, fun k => ?_, rfl⟩, ?_⟩
    · rw [Finset.mem_insert]
      rcases eq_or_ne k i with rfl | hk
      · exact iff_of_true (.inl rfl) (hself.trans hx)
      · rw [← hother hk, or_iff_right hk]
    · cases hi : p (f i) with
      | true => rw [Finset.insert_eq_of_mem ((hT i).mpr hi)]
      | false =>
        have hnot : i ∉ T := fun hmem => by
          rw [(hT i).mp hmem] at hi
          cases hi
        rw [Finset.card_insert_of_notMem hnot]
        rfl
  | false =>
    refine ⟨_, ⟨T.erase i, fun k => ?_, rfl⟩, ?_⟩
    · rw [Finset.mem_erase]
      rcases eq_or_ne k i with rfl | hk
      · rw [hself, hx]
        exact iff_of_false (fun h => h.1 rfl) Bool.false_ne_true
      · rw [← hother hk, and_iff_right hk]
    · cases hi : p (f i) with
      | true => exact Finset.card_erase_add_one ((hT i).mpr hi)
      | false =>
        have hnot : i ∉ T := fun hmem => by
          rw [(hT i).mp hmem] at hi
          cases hi
        rw [Finset.erase_eq_of_notMem hnot]

section
variable {f : ℕ → α}

theorem Tally.le (h : Tally p f n) (hm : ∀ i, p (f i) = true → i < m) : n ≤ m := by
  obtain ⟨T, hT, rfl⟩ := h
  have hsub : T ⊆ Finset.range m := fun i hi => Finset.mem_range.mpr (hm i ((hT i).mp hi))
  exact (Finset.card_le_card hsub).trans_eq (Finset.card_range m)

/-- All the values below `m` satisfy the test, if as many as `m` do and no other. -/
theorem Tally.all_of_le (h : Tally p f n) (hm : ∀ i, p (f i) = true → i < m) (hle : m ≤ n) :
    ∀ i < m, p (f i) = true := by
  obtain ⟨T, hT, rfl⟩ := h
  have hsub : T ⊆ Finset.range m := fun i hi => Finset.mem_range.mpr (hm i ((hT i).mp hi))
  have heq : T = Finset.range m :=
    Finset.eq_of_subset_of_card_le hsub ((Finset.card_range m).trans_le hle)
  intro i hi
  rw [← hT, heq]
  exact Finset.mem_range.mpr hi

/-- A test that only values below `m` satisfy has a tally. -/
theorem Tally.exists (hm : ∀ i, p (f i) = true → i < m) : ∃ n, Tally p f n := by
  refine ⟨_, (Finset.range m).filter fun i => p (f i) = true, fun i => ?_, rfl⟩
  rw [Finset.mem_filter, Finset.mem_range]
  exact and_iff_right_of_imp (hm i)

theorem Tally.of_range (hm : ∀ i, p (f i) = true ↔ i < m) : Tally p f m :=
  ⟨Finset.range m, fun i => Finset.mem_range.trans (hm i).symm, Finset.card_range m⟩

end

end ToolsCxx.Lib.Counting
