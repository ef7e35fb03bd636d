import Mathlib.Algebra.Ring.Int.Defs
import Mathlib.Algebra.Ring.Nat
import Mathlib.Data.Int.Order.Basic
import Mathlib.Tactic.SplitIfs

/-! # Machine integers

The values of the signed types are integers; a conversion to one of them, and a sum or a difference
computed in it, is reduced to its width (`int32`, `int64`). -/

namespace ToolsCxx.Base

/-- The largest `int`. -/
def intMax : ℤ := 2147483647

/-- `x` as an `int`. -/
def int32 (x : ℤ) : ℤ := Int.bmod x (2 ^ 32)

/-- The values of `int64_t`. -/
def InInt64 (x : ℤ) : Prop := -2 ^ 63 ≤ x ∧ x < 2 ^ 63

instance (x : ℤ) : Decidable (InInt64 x) := inferInstanceAs (Decidable (_ ∧ _))

/-- `x` as an `int64_t`. -/
def int64 (x : ℤ) : ℤ := Int.bmod x (2 ^ 64)

theorem int64_of_mem {x : ℤ} (h : InInt64 x) : int64 x = x := by
  obtain ⟨h1, h2⟩ := h
  unfold int64
  rw [Int.bmod_def]
  split_ifs <;> omega

theorem inInt64_int64 (x : ℤ) : InInt64 (int64 x) := by
  have h1 := Int.le_bmod (x := x) (show 0 < 2 ^ 64 by decide)
  have h2 := Int.bmod_lt (x := x) (show 0 < 2 ^ 64 by decide)
  unfold int64 InInt64
  omega

theorem int32_lt (x : ℤ) : int32 x < 2 ^ 31 := by
  have h := Int.bmod_lt (x := x) (show 0 < 2 ^ 32 by decide)
  unfold int32
  omega

theorem int32_natCast {n : ℕ} (h : n < 2 ^ 31) : int32 n = n := by
  unfold int32
  rw [Int.bmod_def]
  split_ifs <;> omega

end ToolsCxx.Base
