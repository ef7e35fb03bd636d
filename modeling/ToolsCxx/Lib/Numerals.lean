import Mathlib.Data.Nat.Digits.Lemmas

/-! # Positional numerals and fields

* `numeral b digit n`: the numeral of `n` in base `b`, most significant digit first; zero has one
  digit. `numeral_of_le` is how a loop computes it, from its end.
* `padLeft w c l`: the field of width `w`, or wider if `l` is.
* `read b value l`: the number that a text denotes, if it is a numeral in base `b`; it is a left
  inverse of `numeral` (`read_numeral`). -/

namespace ToolsCxx.Lib.Numerals

variable {α : Type*} {b n : ℕ} {digit : ℕ → α}

def numeral (b : ℕ) (digit : ℕ → α) (n : ℕ) : List α :=
  if n = 0 then [digit 0] else ((b.digits n).map digit).reverse

theorem numeral_of_lt (h : n < b) : numeral b digit n = [digit n] := by
  unfold numeral
  split_ifs with hn
  · rw [hn]
  · rw [Nat.digits_of_lt b n hn h]
    rfl

theorem numeral_of_le (hb : 2 ≤ b) (h : b ≤ n) :
    numeral b digit n = numeral b digit (n / b) ++ [digit (n % b)] := by
  have hdiv : n / b ≠ 0 := (Nat.div_pos h (by omega)).ne'
  unfold numeral
  rw [if_neg (by omega), if_neg hdiv, Nat.digits_def' hb (by omega), List.map_cons,
    List.reverse_cons]

theorem length_numeral_le {k : ℕ} (hb : 2 ≤ b) (h : n < b ^ (k + 1)) :
    (numeral b digit n).length ≤ k + 1 := by
  unfold numeral
  split_ifs with hn
  · exact Nat.le_add_left 1 k
  · rw [List.length_reverse, List.length_map, Nat.digits_length_le_iff hb]
    exact h

theorem length_numeral_pos : 0 < (numeral b digit n).length := by
  unfold numeral
  split_ifs with hn
  · exact Nat.succ_pos 0
  · rw [List.length_reverse, List.length_map]
    exact List.length_pos_of_ne_nil (Nat.digits_ne_nil_iff_ne_zero.mpr hn)

theorem mem_numeral (hb : 1 < b) {a : α} (h : a ∈ numeral b digit n) : ∃ k < b, a = digit k := by
  unfold numeral at h
  split_ifs at h with hn
  · exact ⟨0, by omega, List.mem_singleton.mp h⟩
  · obtain ⟨k, hk, rfl⟩ := List.mem_map.mp (List.mem_reverse.mp h)
    exact ⟨k, Nat.digits_lt_base hb hk, rfl⟩

/-- The leading digit is not zero. -/
theorem head?_numeral (hb : 1 < b) (hn : n ≠ 0) :
    ∃ k, 0 < k ∧ k < b ∧ (numeral b digit n).head? = some (digit k) := by
  have hne : b.digits n ≠ [] := Nat.digits_ne_nil_iff_ne_zero.mpr hn
  refine ⟨(b.digits n).getLast hne, Nat.pos_of_ne_zero (Nat.getLast_digit_ne_zero b hn),
    Nat.digits_lt_base hb (List.getLast_mem hne), ?_⟩
  unfold numeral
  rw [if_neg hn, List.head?_reverse, List.getLast?_map, List.getLast?_eq_some_getLast hne]
  rfl

def padLeft (w : ℕ) (c : α) (l : List α) : List α := List.replicate (w - l.length) c ++ l

theorem length_padLeft (w : ℕ) (c : α) (l : List α) :
    (padLeft w c l).length = max w l.length := by
  unfold padLeft
  rw [List.length_append, List.length_replicate]
  omega

theorem padLeft_of_le {w : ℕ} {l : List α} (h : w ≤ l.length) (c : α) : padLeft w c l = l := by
  unfold padLeft
  rw [Nat.sub_eq_zero_of_le h]
  rfl

/-! ### Reading -/

variable {value : α → Option ℕ}

/-- The number after `l`, when `n` has been read before it. -/
def readFrom (b : ℕ) (value : α → Option ℕ) (n : ℕ) : List α → Option ℕ
  | [] => some n
  | a :: l =>
    match value a with
    | none => none
    | some k => readFrom b value (b * n + k) l

/-- A numeral has a digit, and nothing but digits. -/
def read (b : ℕ) (value : α → Option ℕ) : List α → Option ℕ
  | [] => none
  | a :: l => readFrom b value 0 (a :: l)

theorem read_eq_readFrom {l : List α} (h : 0 < l.length) :
    read b value l = readFrom b value 0 l := by
  cases l with
  | nil => exact absurd h (lt_irrefl 0)
  | cons a l => rfl

theorem readFrom_append (n : ℕ) (l l' : List α) :
    readFrom b value n (l ++ l') = (readFrom b value n l).bind fun m => readFrom b value m l' := by
  induction l generalizing n with
  | nil => rfl
  | cons a l ih =>
    rw [List.cons_append, readFrom, readFrom]
    cases value a with
    | none => rfl
    | some k => exact ih _

section
variable (hb : 2 ≤ b) (hvalue : ∀ k < b, value (digit k) = some k)
include hb hvalue

theorem readFrom_numeral (n : ℕ) : readFrom b value 0 (numeral b digit n) = some n := by
  induction n using Nat.strong_induction_on with
  | _ n ih =>
    by_cases hn : n < b
    · rw [numeral_of_lt hn, readFrom, hvalue n hn]
      exact congrArg some (by rw [Nat.mul_zero, Nat.zero_add])
    · have hlast := hvalue (n % b) (Nat.mod_lt n (by omega))
      rw [numeral_of_le hb (by omega), readFrom_append, ih (n / b) (Nat.div_lt_self (by omega) hb),
        Option.bind_some, readFrom, hlast]
      exact congrArg some (Nat.div_add_mod n b)

theorem read_numeral (n : ℕ) : read b value (numeral b digit n) = some n := by
  rw [read_eq_readFrom length_numeral_pos, readFrom_numeral hb hvalue]

theorem numeral_inj {n m : ℕ} (h : numeral b digit n = numeral b digit m) : n = m := by
  have hread := read_numeral hb hvalue n
  rw [h, read_numeral hb hvalue m] at hread
  exact (Option.some.inj hread).symm

/-- Zeros before a numeral do not count. -/
theorem read_padLeft (w n : ℕ) :
    read b value (padLeft w (digit 0) (numeral b digit n)) = some n := by
  have hzeros : ∀ j, readFrom b value 0 (List.replicate j (digit 0)) = some 0 := by
    intro j
    induction j with
    | zero => rfl
    | succ j ih =>
      rw [List.replicate_succ, readFrom, hvalue 0 (by omega)]
      exact ih
  have hpos : 0 < (padLeft w (digit 0) (numeral b digit n)).length := by
    rw [length_padLeft]
    exact lt_max_of_lt_right length_numeral_pos
  rw [read_eq_readFrom hpos, padLeft, readFrom_append, hzeros, Option.bind_some,
    readFrom_numeral hb hvalue]

end

end ToolsCxx.Lib.Numerals
