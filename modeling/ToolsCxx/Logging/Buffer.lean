import ToolsCxx.Lib.Sinks
import Mathlib.Data.List.TakeDrop
import Mathlib.Tactic.SplitIfs
import Mathlib.Tactic.Ring

/-! # `LogBuffer`

The storage of a `LogBuffer` is `data`, `current` the index of the first free place. The last place
is never free (`valid`), and from `current` on all places are as the constructor has set them
(`zeros`): so the last byte is always NUL (`last_eq_nul`). A buffer is the same as its text (`ext`),
and `append` and `append_char` clip what is appended to it (`text_append`, `text_appendChar`). -/

namespace ToolsCxx.Logging.Buffer

open ToolsCxx.Lib.Sinks

/-- `LogBuffer`, with the capacity its constructor is given. -/
structure LogBuffer (capacity : ℕ) where
  data : List Char
  current : ℕ
  length_data : data.length = capacity
  valid : current < capacity
  zeros : ∀ c ∈ data.drop current, c = '\x00'

namespace LogBuffer

variable {capacity : ℕ}

/-- `LogBuffer::LogBuffer`: the storage is set to NUL. -/
def new (capacity : ℕ) (h : 0 < capacity) : LogBuffer capacity where
  data := List.replicate capacity '\x00'
  current := 0
  length_data := List.length_replicate
  valid := h
  zeros _ hc := List.eq_of_mem_replicate hc

/-- `LogBuffer::end`: the index of the last place. -/
def endPos (_ : LogBuffer capacity) : ℕ := capacity - 1

/-- `LogBuffer::available`. -/
def available (b : LogBuffer capacity) : Bool := b.endPos > b.current

/-- `LogBuffer::length`. -/
def length (b : LogBuffer capacity) : ℕ := b.current

/-- `LogBuffer::to_string`. -/
def text (b : LogBuffer capacity) : List Char := b.data.take b.length

/-- The number of characters that `append` copies. -/
def cpLen (b : LogBuffer capacity) (len : ℕ) : ℕ :=
  if b.current + len < b.endPos then len else b.endPos - b.current

theorem cpLen_le (b : LogBuffer capacity) (len : ℕ) : b.cpLen len ≤ len := by
  unfold cpLen; split_ifs <;> omega

theorem current_add_cpLen (b : LogBuffer capacity) (len : ℕ) :
    b.current + b.cpLen len = min (capacity - 1) (b.current + len) := by
  have := b.valid
  unfold cpLen endPos
  split_ifs <;> omega

/-- `memcpy` to the place `i`. -/
def copy (data : List Char) (i : ℕ) (buf : List Char) : List Char :=
  data.take i ++ buf ++ data.drop (i + buf.length)

theorem length_copy {data buf : List Char} {i : ℕ} (h : i + buf.length ≤ data.length) :
    (copy data i buf).length = data.length := by
  unfold copy
  simp only [List.length_append, List.length_take, List.length_drop]
  omega

theorem take_copy {data buf : List Char} {i : ℕ} (h : i ≤ data.length) :
    (copy data i buf).take (i + buf.length) = data.take i ++ buf := by
  unfold copy
  exact List.take_left' (by rw [List.length_append, List.length_take, Nat.min_eq_left h])

theorem drop_copy {data buf : List Char} {i : ℕ} (h : i ≤ data.length) :
    (copy data i buf).drop (i + buf.length) = data.drop (i + buf.length) := by
  unfold copy
  exact List.drop_left' (by rw [List.length_append, List.length_take, Nat.min_eq_left h])

/-- `memcpy` to the first free place, and the step over the characters. -/
def push (b : LogBuffer capacity) (buf : List Char) (h : b.current + buf.length ≤ capacity - 1) :
    LogBuffer capacity where
  data := copy b.data b.current buf
  current := b.current + buf.length
  length_data := by
    have := b.valid
    rw [length_copy (by rw [b.length_data]; omega), b.length_data]
  valid := by have := b.valid; omega
  zeros c hc := by
    rw [drop_copy (by rw [b.length_data]; exact b.valid.le), ← List.drop_drop] at hc
    exact b.zeros c (List.mem_of_mem_drop hc)

/-- `LogBuffer::append`. -/
def append (buf : List Char) (b : LogBuffer capacity) : LogBuffer capacity :=
  b.push (buf.take (b.cpLen buf.length)) (by
    have := b.current_add_cpLen buf.length
    rw [List.length_take]
    omega)

/-- `LogBuffer::append_char`. -/
def appendChar (ch : Char) (b : LogBuffer capacity) : LogBuffer capacity :=
  if h : b.available then b.push [ch] (of_decide_eq_true h) else b

/-! ### The text -/

theorem length_text (b : LogBuffer capacity) : b.text.length = b.current := by
  unfold text length
  rw [List.length_take, b.length_data]
  exact Nat.min_eq_left b.valid.le

theorem length_text_le (b : LogBuffer capacity) : b.text.length ≤ capacity - 1 := by
  have := b.valid
  rw [length_text]
  omega

theorem available_iff {b : LogBuffer capacity} :
    b.available = true ↔ b.text.length < capacity - 1 := by
  rw [length_text]; exact decide_eq_true_iff

theorem available_eq_false {b : LogBuffer capacity} :
    b.available = false ↔ b.text.length = capacity - 1 := by
  have := b.length_text_le
  rw [← Bool.not_eq_true, available_iff]
  omega

/-- The storage is the text, and NUL up to its end. -/
theorem data_eq (b : LogBuffer capacity) :
    b.data = b.text ++ List.replicate (capacity - b.text.length) '\x00' := by
  have hrest : b.data.drop b.current = List.replicate (capacity - b.current) '\x00' :=
    List.eq_replicate_iff.mpr ⟨by rw [List.length_drop, b.length_data], b.zeros⟩
  rw [length_text, ← hrest]
  exact (List.take_append_drop _ _).symm

theorem ext {b b' : LogBuffer capacity} (h : b.text = b'.text) : b = b' := by
  have hdata : b.data = b'.data := by rw [data_eq, data_eq b', h]
  have hcurrent : b.current = b'.current := by rw [← length_text, ← length_text, h]
  cases b
  cases b'
  cases hdata
  cases hcurrent
  rfl

/-- **The last byte of the storage** stays NUL. -/
theorem last_eq_nul (b : LogBuffer capacity) : b.data.getLast? = some '\x00' := by
  have hpos : capacity - b.text.length ≠ 0 := by
    have := b.valid
    rw [length_text]
    omega
  obtain ⟨n, hn⟩ := Nat.exists_eq_succ_of_ne_zero hpos
  rw [data_eq, hn, List.replicate_succ', ← List.append_assoc, List.getLast?_concat]

@[simp] theorem text_new (h : 0 < capacity) : (new capacity h).text = [] := rfl

theorem text_push {b : LogBuffer capacity} {buf : List Char}
    (h : b.current + buf.length ≤ capacity - 1) : (b.push buf h).text = b.text ++ buf :=
  take_copy (by rw [b.length_data]; exact b.valid.le)

/-- **Clipping**: `append` appends what fits. -/
theorem text_append (buf : List Char) (b : LogBuffer capacity) :
    (append buf b).text = clip (capacity - 1) b.text buf := by
  have hlen := b.current_add_cpLen buf.length
  have hvalid := b.valid
  unfold append clip
  rw [text_push, List.take_append, List.take_of_length_le b.length_text_le, length_text]
  congr 1
  -- either all of it is copied, or `end() - m_current` characters
  rw [← List.take_length (l := buf.take (capacity - 1 - b.current)), List.length_take,
    List.take_take]
  congr 1
  have := b.cpLen_le buf.length
  omega

theorem text_appendChar (ch : Char) (b : LogBuffer capacity) :
    (appendChar ch b).text = clip (capacity - 1) b.text [ch] := by
  unfold appendChar
  split_ifs with h
  · have hlt := available_iff.mp h
    rw [text_push, clip_of_room hlt]
  · exact (clip_of_full (available_eq_false.mp (Bool.eq_false_iff.mpr h)) _).symm

instance : Sink (LogBuffer capacity) Char where
  write := append
  writeOne := appendChar
  hasRoom := available

theorem text_write (t : List Char) (b : LogBuffer capacity) :
    (write t b).text = clip (capacity - 1) b.text t := text_append t b

/-- There is room for all of it. -/
theorem text_write_of_room {t : List Char} {b : LogBuffer capacity}
    (h : b.text.length + t.length ≤ capacity - 1) : (write t b).text = b.text ++ t :=
  (text_write t b).trans (clip_of_room h)

theorem hasRoom_eq_false {b : LogBuffer capacity} :
    hasRoom b = false ↔ b.text.length = capacity - 1 := available_eq_false

/-- The buffer is full when it has been given as much as it can hold. -/
theorem hasRoom_write_eq_false {b : LogBuffer capacity} {t : List Char} :
    hasRoom (write t b) = false ↔ capacity - 1 ≤ b.text.length + t.length := by
  rw [hasRoom_eq_false, text_write, length_clip]
  omega

instance : LawfulSink (LogBuffer capacity) Char where
  write_nil b := ext (by rw [text_write, clip_nil b.length_text_le])
  write_write t t' b := ext (by simp only [text_write, clip_clip])
  writeOne_eq ch b := ext ((text_appendChar ch b).trans (text_write [ch] b).symm)
  write_of_full h t := ext (by rw [text_write, clip_of_full (hasRoom_eq_false.mp h)])

end LogBuffer

end ToolsCxx.Logging.Buffer
