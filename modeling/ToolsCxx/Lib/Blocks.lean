import Mathlib.Data.List.TakeDrop
import Mathlib.Data.List.TakeWhile
import Mathlib.Order.Basic

/-! # Blocks of memory

A block is the list of its cells. `load l i n` are the `n` cells from the place `i` on, and
`store l i x` is the block after `x` has been copied to that place. What is stored is loaded again
(`load_store`), and other cells do not change (`load_store_below`, `load_store_above`).

`stringAt nul l i` is the string at the place `i`, which ends before the first `nul`. A string is
stored with its terminator (`stringAt_store`), and one stored at the end of another continues it
(`stringAt_store_end`). -/

namespace ToolsCxx.Lib.Blocks

variable {α : Type*} {l x : List α} {i j n : ℕ}

def load (l : List α) (i n : ℕ) : List α := (l.drop i).take n

def store (l : List α) (i : ℕ) (x : List α) : List α := l.take i ++ x ++ l.drop (i + x.length)

theorem length_load (h : i + n ≤ l.length) : (load l i n).length = n := by
  unfold load
  rw [List.length_take, List.length_drop]
  omega

theorem length_store (h : i + x.length ≤ l.length) : (store l i x).length = l.length := by
  unfold store
  rw [List.length_append, List.length_append, List.length_take, List.length_drop]
  omega

theorem load_store (h : i + x.length ≤ l.length) : load (store l i x) i x.length = x := by
  have hlen : (l.take i).length = i := List.length_take_of_le (by omega)
  unfold load store
  rw [List.append_assoc, List.drop_left' hlen, List.take_left]

/-- Before the place. -/
theorem load_store_below (h : i + n ≤ j) (hj : j ≤ l.length) :
    load (store l j x) i n = load l i n := by
  have hlen : (l.take j).length = j := List.length_take_of_le hj
  unfold load store
  rw [List.append_assoc, List.drop_append_of_le_length (by omega),
    List.take_append_of_le_length (by rw [List.length_drop]; omega), List.drop_take, List.take_take,
    Nat.min_eq_left (by omega)]

/-- After the place. -/
theorem load_store_above (h : j + x.length ≤ i) (hj : j + x.length ≤ l.length) :
    load (store l j x) i n = load l i n := by
  have hlen : (l.take j ++ x).length = j + x.length := by
    rw [List.length_append, List.length_take_of_le (by omega)]
  have hi : i = (l.take j ++ x).length + (i - (j + x.length)) := by omega
  unfold load store
  rw [hi, List.drop_length_add_append, List.drop_drop, ← hi]
  congr 2
  omega

/-- Neighbouring cells. -/
theorem load_add (l : List α) (i m n : ℕ) : load l i (m + n) = load l i m ++ load l (i + m) n := by
  unfold load
  rw [List.take_add, List.drop_drop]

theorem load_add_eq_iff {l' : List α} {m : ℕ} (hlen : l.length = l'.length) :
    load l i (m + n) = load l' i (m + n) ↔
      load l i m = load l' i m ∧ load l (i + m) n = load l' (i + m) n := by
  rw [load_add, load_add]
  constructor
  · intro h
    refine List.append_inj h ?_
    unfold load
    rw [List.length_take, List.length_take, List.length_drop, List.length_drop, hlen]
  · rintro ⟨hfirst, hsecond⟩
    rw [hfirst, hsecond]

/-- Inside what has been stored at the start. -/
theorem load_store_start (h : i + n ≤ x.length) : load (store l 0 x) i n = load x i n := by
  unfold load store
  rw [List.take_zero, List.nil_append, List.drop_append_of_le_length (by omega),
    List.take_append_of_le_length (by rw [List.length_drop]; omega)]

/-! ### Strings -/

section
variable [DecidableEq α] {nul : α} {t : List α}

def stringAt (nul : α) (l : List α) (i : ℕ) : List α := (l.drop i).takeWhile (· ≠ nul)

theorem stringAt_append (nul : α) (l t : List α) :
    stringAt nul (l ++ t) l.length = t.takeWhile (· ≠ nul) := by
  unfold stringAt
  rw [List.drop_left]

theorem takeWhile_of_not_mem (h : nul ∉ t) : t.takeWhile (· ≠ nul) = t :=
  List.takeWhile_eq_self_iff.mpr fun _ ha => decide_eq_true fun heq => h (heq ▸ ha)

theorem takeWhile_append_nul (h : nul ∉ t) (x : List α) :
    (t ++ nul :: x).takeWhile (· ≠ nul) = t := by
  have ht : ∀ a ∈ t, decide (a ≠ nul) = true := fun a ha =>
    decide_eq_true fun heq => h (heq ▸ ha)
  rw [List.takeWhile_append_of_pos ht, List.takeWhile_cons_of_neg (by simp), List.append_nil]

/-- A string that ends with the block. -/
theorem stringAt_of_not_mem (h : nul ∉ t) (l : List α) : stringAt nul (l ++ t) l.length = t := by
  rw [stringAt_append, takeWhile_of_not_mem h]

/-- A string that ends before. -/
theorem stringAt_of_nul (h : nul ∉ t) (l x : List α) :
    stringAt nul (l ++ (t ++ nul :: x)) l.length = t := by
  rw [stringAt_append, takeWhile_append_nul h]

/-- The string that has been stored. -/
theorem stringAt_store (h : nul ∉ t) (hi : i ≤ l.length) :
    stringAt nul (store l i (t ++ [nul])) i = t := by
  have hlen : (l.take i).length = i := List.length_take_of_le hi
  have hsplit : store l i (t ++ [nul]) =
      l.take i ++ (t ++ nul :: l.drop (i + (t ++ [nul]).length)) := by
    unfold store
    simp only [List.append_assoc, List.singleton_append]
  have hat := stringAt_of_nul h (l.take i) (l.drop (i + (t ++ [nul]).length))
  rw [hlen, ← hsplit] at hat
  exact hat

/-- A string that has been stored at the end of another. -/
theorem stringAt_store_end {s : List α} (hs : stringAt nul l 0 = s) (h : nul ∉ t) :
    stringAt nul (store l s.length (t ++ [nul])) 0 = s ++ t := by
  have hprefix : s <+: l := hs ▸ List.takeWhile_prefix _
  have hnul : nul ∉ s := fun hmem => by
    have htake : nul ∈ (l.drop 0).takeWhile (· ≠ nul) := by rw [← hs] at hmem; exact hmem
    have hne := List.mem_takeWhile_imp htake
    rw [decide_eq_true_iff] at hne
    exact hne rfl
  have hst : nul ∉ s ++ t := fun hmem => (List.mem_append.mp hmem).elim hnul h
  have hsplit : store l s.length (t ++ [nul]) =
      (s ++ t) ++ nul :: l.drop (s.length + (t ++ [nul]).length) := by
    unfold store
    rw [← List.prefix_iff_eq_take.mp hprefix]
    simp only [List.append_assoc, List.singleton_append]
  unfold stringAt
  rw [hsplit, List.drop_zero, takeWhile_append_nul hst]

end

end ToolsCxx.Lib.Blocks
