import Mathlib.Data.Finset.Card

/-! # Shared resources, and who holds them

Each of a finite set `A` of owners holds at most one resource (`held`). `holders A held r` is the
set of those that hold `r`; a reference count is right if it is the cardinality of this set. -/

namespace ToolsCxx.Lib.Sharing

variable {ι ρ : Type*} [DecidableEq ρ]
variable {A : Finset ι} {held held' : ι → Option ρ} {i : ι} {r : ρ}

/-- The owners in `A` that hold `r`. -/
def holders (A : Finset ι) (held : ι → Option ρ) (r : ρ) : Finset ι :=
  A.filter fun i => held i = some r

@[simp] theorem mem_holders : i ∈ holders A held r ↔ i ∈ A ∧ held i = some r :=
  Finset.mem_filter

/-- What an owner outside of `A` holds does not matter. -/
theorem holders_congr (h : ∀ i ∈ A, held' i = held i) : holders A held' r = holders A held r :=
  Finset.filter_congr fun i hi => by rw [h i hi]

theorem holders_eq_empty (h : ∀ i ∈ A, held i ≠ some r) : holders A held r = ∅ :=
  Finset.filter_eq_empty_iff.mpr h

/-- `i` is the only one. -/
theorem card_holders_eq_one (hi : i ∈ A) (h : held i = some r) :
    (holders A held r).card = 1 ↔ holders A held r = {i} := by
  rw [Finset.card_eq_one]
  constructor
  · rintro ⟨j, hj⟩
    have hij : i ∈ holders A held r := mem_holders.mpr ⟨hi, h⟩
    rw [hj, Finset.mem_singleton] at hij
    rw [hj, hij]
  · exact fun hj => ⟨i, hj⟩

/-! ### An owner comes -/

variable [DecidableEq ι]

theorem holders_insert_of_ne (h : held i ≠ some r) :
    holders (insert i A) held r = holders A held r := by
  unfold holders
  rw [Finset.filter_insert, if_neg h]

theorem holders_insert_of_eq (h : held i = some r) :
    holders (insert i A) held r = insert i (holders A held r) := by
  unfold holders
  rw [Finset.filter_insert, if_pos h]

theorem card_holders_insert (hi : i ∉ A) (h : held i = some r) :
    (holders (insert i A) held r).card = (holders A held r).card + 1 := by
  rw [holders_insert_of_eq h, Finset.card_insert_of_notMem]
  exact fun hm => hi (mem_holders.mp hm).1

/-! ### An owner goes -/

theorem holders_erase : holders (A.erase i) held r = (holders A held r).erase i := by
  unfold holders
  rw [Finset.filter_erase]

theorem holders_erase_of_ne (h : held i ≠ some r) :
    holders (A.erase i) held r = holders A held r := by
  rw [holders_erase, Finset.erase_eq_of_notMem]
  exact fun hm => h (mem_holders.mp hm).2

theorem card_holders_erase (hi : i ∈ A) (h : held i = some r) :
    (holders (A.erase i) held r).card + 1 = (holders A held r).card := by
  rw [holders_erase]
  exact Finset.card_erase_add_one (mem_holders.mpr ⟨hi, h⟩)

end ToolsCxx.Lib.Sharing
