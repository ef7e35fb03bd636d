import ToolsCxx.Logging.Steps

/-! # `LogPrint`: the end of the format

`vprintf` notices the terminator of the format in its loops, but takes it for a conversion when it
ends a directive: the `default` appends it and steps over it. So the format is read beyond its end
if and only if it ends with an unfinished directive and the loop gets there (`inBounds_iff`). -/

namespace ToolsCxx.Logging.Overrun

open ToolsCxx.Lib.Sinks
open ToolsCxx.Logging.Buffer ToolsCxx.Logging.Print ToolsCxx.Logging.Format ToolsCxx.Logging.Steps

variable {D : Type}

/-- The format has not been read beyond its terminator, and at the end the pointer is there, or the
buffer is full. Only the fault `overrun` counts: a call that stops because an argument is missing or
of another type (`"%d%5"` without arguments) has read no further than its directive. -/
def InBounds {B : Type} [Sink B Char] : Except Fault (Pointer × State B D) → Prop
  | .error e => e ≠ .overrun
  | .ok (p, s) => p = .at [] ∨ hasRoom s.buffer = false

variable [Double D] {capacity : ℕ}

/-- **The format is read up to its terminator** if and only if it does not end in a directive, or
the buffer is full before that. -/
theorem inBounds_iff (F : CString) (A : List (Arg D)) (b : LogBuffer capacity) :
    InBounds (vprintf (.at F.text) { buffer := b, args := A }) ↔
      Complete F ∨ ∀ R A', expand (parse F.text).1 A = some (R, A') →
        capacity - 1 ≤ b.text.length + R.length := by
  cases hexpand : expand (parse F.text).1 A with
  | none =>
    refine iff_of_true ?_ (.inr nofun)
    rcases vprintf_run_fault (s := { buffer := b, args := A }) F.text hexpand with
      ⟨F', s', hs', hfull⟩ | hfault
    · rw [hs']
      exact .inr hfull
    · rw [hfault]
      exact nofun
  | some r =>
    obtain ⟨R, A'⟩ := r
    have hcond : (∀ R₁ A₁, some (R, A') = some (R₁, A₁) →
        capacity - 1 ≤ b.text.length + R₁.length) ↔ hasRoom (write R b) = false := by
      rw [LogBuffer.hasRoom_write_eq_false]
      exact ⟨fun h => h R A' rfl, fun h R₁ A₁ heq => by cases heq; exact h⟩
    rw [hcond]
    rcases vprintf_run (s := { buffer := b, args := A }) F.text hexpand with
      ⟨F', s', hs', hbuffer, hfull⟩ | ⟨u, hu⟩
    · -- the loop stops before the end
      rw [hs']
      exact iff_of_true (.inr hfull) (.inr (hbuffer ▸ hfull))
    · rw [hu]
      rcases rest_cases F with hrest | ⟨fmt, d, marks, hrest, hscan⟩
      · rw [hrest, vprintf_nil]
        exact iff_of_true (.inl rfl) (.inl hrest)
      · have hincomplete : ¬ Complete F := fun h => by
          rw [Complete, hrest] at h
          cases h
        rw [hrest]
        cases hroom : hasRoom (write R b) with
        | false =>
          rw [vprintf_full _ hroom]
          exact iff_of_true (.inr hroom) (.inr rfl)
        | true =>
          rw [vprintf_unfinished hscan hroom]
          exact iff_of_false (fun h => h rfl) (not_or.mpr ⟨hincomplete, nofun⟩)

/-- The format `"%5"`. -/
theorem not_always_inBounds : ¬ ∀ (F : CString) (A : List (Arg ℚ)) (b : LogBuffer smallBuffer),
    InBounds (vprintf (.at F.text) { buffer := b, args := A }) := by
  intro h
  have hscan : scan ([] : List Char) ['5'] =
      ({ sign := true, hex := .no, padding := ' ', width := 5, fracWidth := 6 }, [], []) := by
    simp [scan, digits, deref]
  have hrun := h ⟨['%', '5'], by decide⟩ [] newBuffer
  rw [vprintf_unfinished hscan rfl] at hrun
  exact hrun rfl

end ToolsCxx.Logging.Overrun
