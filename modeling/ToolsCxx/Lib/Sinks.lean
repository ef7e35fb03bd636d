import Mathlib.Data.List.Basic
import Mathlib.Data.List.TakeDrop

/-! # Sinks

A sink takes a text piece by piece. It may stop taking it (`hasRoom`); what it has taken then does
not change any more. `LawfulSink` says that only the whole text counts, not how it was cut into
pieces, so that what is written to any sink can be computed once (`write_write`).

* Lists are the sinks without a limit: `write t l` is `l ++ t`.
* `clip n l t` is what a sink with room for `n` elements holds when `t` is written after `l`:
  clipping every piece (`clip_clip`) gives the same prefix as clipping the whole. -/

namespace ToolsCxx.Lib.Sinks

/-- What a text with elements in `α` can be written to. -/
class Sink (S : Type*) (α : outParam Type*) where
  /-- Write a text, as far as there is room. -/
  write : List α → S → S
  /-- Write one element, if there is room. -/
  writeOne : α → S → S
  hasRoom : S → Bool

export Sink (write writeOne hasRoom)

class LawfulSink (S : Type*) (α : outParam Type*) [Sink S α] : Prop where
  write_nil (s : S) : write [] s = s
  write_write (t t' : List α) (s : S) : write t' (write t s) = write (t ++ t') s
  writeOne_eq (a : α) (s : S) : writeOne a s = write [a] s
  write_of_full {s : S} (h : hasRoom s = false) (t : List α) : write t s = s

export LawfulSink (write_nil write_write writeOne_eq write_of_full)

attribute [simp] write_nil write_write writeOne_eq

variable {α : Type*}

/-! ### Sinks without a limit -/

instance : Sink (List α) α where
  write t l := l ++ t
  writeOne a l := l ++ [a]
  hasRoom _ := true

@[simp] theorem write_list (t l : List α) : write t l = l ++ t := rfl

@[simp] theorem hasRoom_list (l : List α) : hasRoom l = true := rfl

instance : LawfulSink (List α) α where
  write_nil := List.append_nil
  write_write t t' l := List.append_assoc l t t'
  writeOne_eq _ _ := rfl
  write_of_full h := absurd h (by simp)

/-! ### Clipped texts -/

/-- The first `n` elements of `l ++ t`. -/
def clip (n : ℕ) (l t : List α) : List α := (l ++ t).take n

theorem clip_nil {n : ℕ} {l : List α} (h : l.length ≤ n) : clip n l [] = l := by
  unfold clip; rw [List.append_nil, List.take_of_length_le h]

theorem clip_clip (n : ℕ) (l t t' : List α) : clip n (clip n l t) t' = clip n l (t ++ t') := by
  have hcut : (l ++ t ++ t').take n = (l ++ t).take n ++ t'.take (n - (l ++ t).length) :=
    List.take_append
  unfold clip
  rw [← List.append_assoc, hcut, List.take_append, List.take_take, List.length_take, Nat.min_self]
  congr 2
  omega

theorem clip_of_full {n : ℕ} {l : List α} (h : l.length = n) (t : List α) : clip n l t = l := by
  unfold clip; rw [← h, List.take_left]

theorem clip_of_room {n : ℕ} {l t : List α} (h : l.length + t.length ≤ n) :
    clip n l t = l ++ t :=
  List.take_of_length_le (by rw [List.length_append]; exact h)

theorem length_clip (n : ℕ) (l t : List α) :
    (clip n l t).length = min n (l.length + t.length) := by
  unfold clip; rw [List.length_take, List.length_append]

end ToolsCxx.Lib.Sinks
