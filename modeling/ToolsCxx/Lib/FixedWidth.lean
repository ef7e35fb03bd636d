import ToolsCxx.Lib.Numerals
import Mathlib.Data.List.Lex

/-! # Numerals of a fixed width

`fixed b digit w n`: the last `w` digits of `n`, with leading zeros. Texts that are made of such
numerals are ordered as the numbers are.

* `fixed_eq_padLeft`: it is the numeral in a field of width `w`, padded with zeros, if `n` has no
  more digits than that.
* `fixed_lt`: the order of the texts is that of the numbers.
* `append_lt`, `append_lt_left`: texts of the same length, one after the other. -/

namespace ToolsCxx.Lib.FixedWidth

open ToolsCxx.Lib.Numerals

variable {α : Type*} {b n m w : ℕ} {digit : ℕ → α}

def fixed (b : ℕ) (digit : ℕ → α) : ℕ → ℕ → List α
  | 0, _ => []
  | w + 1, n => fixed b digit w (n / b) ++ [digit (n % b)]

theorem length_fixed (w n : ℕ) : (fixed b digit w n).length = w := by
  induction w generalizing n with
  | zero => rfl
  | succ w ih => rw [fixed, List.length_append, ih, List.length_singleton]

theorem fixed_zero (w : ℕ) : fixed b digit w 0 = List.replicate w (digit 0) := by
  induction w with
  | zero => rfl
  | succ w ih => rw [fixed, Nat.zero_div, Nat.zero_mod, ih, List.replicate_succ']

theorem fixed_eq_padLeft (hb : 2 ≤ b) (hw : 0 < w) (h : n < b ^ w) :
    padLeft w (digit 0) (numeral b digit n) = fixed b digit w n := by
  induction w generalizing n with
  | zero => exact absurd hw (Nat.lt_irrefl 0)
  | succ w ih =>
    rw [fixed]
    rcases lt_or_ge n b with hlt | hge
    · rw [numeral_of_lt hlt, Nat.div_eq_of_lt hlt, Nat.mod_eq_of_lt hlt, fixed_zero]
      rfl
    · rw [numeral_of_le hb hge]
      have hpos : 0 < w := by
        refine Nat.pos_of_ne_zero fun hzero => ?_
        rw [hzero, Nat.zero_add, Nat.pow_one] at h
        exact absurd h (not_lt.mpr hge)
      have hdiv : n / b < b ^ w := Nat.div_lt_of_lt_mul (by rwa [Nat.pow_succ, Nat.mul_comm] at h)
      rw [← ih hpos hdiv]
      unfold padLeft
      rw [List.length_append, List.length_singleton, Nat.add_sub_add_right, List.append_assoc]

/-! ### The order -/

section
variable [LinearOrder α]

theorem append_lt_left {l r r' : List α} (h : r < r') : l ++ r < l ++ r' := by
  induction l with
  | nil => exact h
  | cons a l ih => exact List.cons_lt_cons_iff.mpr (.inr ⟨rfl, ih⟩)

theorem append_lt {l l' r r' : List α} (hlen : l.length = l'.length) (h : l < l') :
    l ++ r < l' ++ r' := by
  induction l generalizing l' with
  | nil =>
    cases l' with
    | nil => exact absurd h (lt_irrefl _)
    | cons a l' => cases hlen
  | cons a l ih =>
    cases l' with
    | nil => cases hlen
    | cons a' l' =>
      rcases List.cons_lt_cons_iff.mp h with hlt | ⟨rfl, hlt⟩
      · exact List.cons_lt_cons_iff.mpr (.inl hlt)
      · exact List.cons_lt_cons_iff.mpr (.inr ⟨rfl, ih (Nat.succ.inj hlen) hlt⟩)

/-- **The order of the texts is that of the numbers.** -/
theorem fixed_lt (hdigit : ∀ i j, i < j → j < b → digit i < digit j) (hlt : n < m)
    (hm : m < b ^ w) : fixed b digit w n < fixed b digit w m := by
  induction w generalizing n m with
  | zero => exact absurd hlt (by rw [Nat.pow_zero] at hm; omega)
  | succ w ih =>
    have hb : 0 < b := Nat.pos_of_ne_zero fun hzero => by
      rw [hzero, Nat.zero_pow (Nat.succ_pos w)] at hm
      exact Nat.not_lt_zero m hm
    have hdiv : m / b < b ^ w := Nat.div_lt_of_lt_mul (by rwa [Nat.pow_succ, Nat.mul_comm] at hm)
    rw [fixed, fixed]
    rcases lt_or_eq_of_le (Nat.div_le_div_right (c := b) hlt.le) with hdivlt | hdiveq
    · exact append_lt (by rw [length_fixed, length_fixed]) (ih hdivlt hdiv)
    · rw [hdiveq]
      refine append_lt_left (List.cons_lt_cons_iff.mpr (.inl ?_))
      have hn := Nat.div_add_mod n b
      have hm' := Nat.div_add_mod m b
      rw [hdiveq] at hn
      exact hdigit _ _ (by omega) (Nat.mod_lt m hb)

end

end ToolsCxx.Lib.FixedWidth
