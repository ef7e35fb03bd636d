import ToolsCxx.Logging.Steps

/-! # `LogPrint`: formatting is compositional

What `vprintf` writes into a buffer without a limit is the text of its items (`expand_render`). Into
a `LogBuffer` it writes as much of that as there is room for, wherever the text is cut
(`printf_complete`); the text of two formats, one after the other, is the one of the two calls
(`printf_append`). -/

namespace ToolsCxx.Logging.Compose

open ToolsCxx.Lib.Sinks
open ToolsCxx.Logging.Buffer ToolsCxx.Logging.Print ToolsCxx.Logging.Format ToolsCxx.Logging.Steps

variable {D : Type} [Double D]

/-- The output into an empty buffer without a limit. -/
def render (F : CString) (A : List (Arg D)) : List Char :=
  match vprintf (.at F.text) { buffer := ([] : List Char), args := A } with
  | .ok (_, s) => s.buffer
  | .error _ => []

/-- The arguments have the types that the directives of the format prescribe. -/
def Matching (F : CString) (A : List (Arg D)) : Prop := A.map Arg.type = signature F

instance (F : CString) (A : List (Arg D)) : Decidable (Matching F A) :=
  inferInstanceAs (Decidable (_ = _))

variable {F F₁ F₂ : CString} {A A₁ A₂ : List (Arg D)} {B : Type} [Sink B Char] [LawfulSink B Char]

theorem printf_of_expand (hF : Complete F) {R : List Char}
    (h : expand (parse F.text).1 A = some (R, [])) (b : B) : printf F A b = .ok (write R b) := by
  obtain ⟨p, s', hs', hbuffer⟩ := vprintf_complete (s := { buffer := b, args := A }) hF h
  unfold printf
  rw [hs']
  exact congrArg Except.ok hbuffer

theorem printf_of_full {R : List Char} {A' : List (Arg D)}
    (h : expand (parse F.text).1 A = some (R, A')) {b : B} (hfull : hasRoom (write R b) = false) :
    printf F A b = .ok (write R b) := by
  unfold printf
  rcases vprintf_run (s := { buffer := b, args := A }) F.text h with
    ⟨F', s', hs', hbuffer, -⟩ | ⟨u, hu⟩
  · rw [hs']
    exact congrArg Except.ok hbuffer
  · rw [hu, vprintf_full _ hfull]
    rfl

theorem printf_overrun (hF : ¬ Complete F) {R : List Char} {A' : List (Arg D)}
    (h : expand (parse F.text).1 A = some (R, A')) {b : B} (hroom : hasRoom (write R b) = true) :
    printf F A b = .error .overrun := by
  unfold printf
  rcases vprintf_run (s := { buffer := b, args := A }) F.text h with
    ⟨F', s', -, hbuffer, hfull⟩ | ⟨u, hu⟩
  · rw [hbuffer, hroom] at hfull
    cases hfull
  · rcases rest_cases F with hrest | ⟨fmt, d, marks, hrest, hscan⟩
    · exact absurd hrest hF
    · rw [hu, hrest, vprintf_unfinished hscan hroom]
      rfl

/-- The output is the text of the items. -/
theorem expand_render (hF : Complete F) (hA : Matching F A) :
    expand (parse F.text).1 A = some (render F A, []) := by
  obtain ⟨R, hR⟩ := exists_expand hA
  obtain ⟨p, s', hs', hbuffer⟩ :=
    vprintf_complete (s := { buffer := ([] : List Char), args := A }) hF hR
  have hrender : render F A = R := by
    unfold render
    rw [hs']
    exact hbuffer
  rw [hrender, hR]

/-- `printf("%xd", 31)`. -/
example : render ⟨['%', 'x', 'd'], by decide⟩ ([.int 31] : List (Arg ℚ)) =
    ['0', 'x', '1', 'f'] := by decide +kernel

/-- A format is complete if and only if `vprintf` takes it up to exactly its terminator. -/
theorem complete_iff (hA : Matching F A) : Complete F ↔
    ∃ s, vprintf (.at F.text) { buffer := ([] : List Char), args := A } = .ok (.at [], s) := by
  obtain ⟨R, hR⟩ := exists_expand hA
  rcases vprintf_run (s := { buffer := ([] : List Char), args := A }) F.text hR with
    ⟨F', s', -, -, hfull⟩ | ⟨u, hu⟩
  · exact absurd hfull (by simp)
  · rw [hu]
    rcases rest_cases F with hrest | ⟨fmt, d, marks, hrest, hscan⟩
    · rw [hrest, vprintf_nil]
      exact iff_of_true hrest ⟨_, rfl⟩
    · rw [hrest, vprintf_unfinished hscan rfl]
      refine iff_of_false (fun h => ?_) fun ⟨s, hs⟩ => by cases hs
      rw [Complete, hrest] at h
      cases h

theorem complete_append (h₁ : Complete F₁) (h₂ : Complete F₂) : Complete (F₁ ++ F₂) := by
  have hparse := parse_append h₁ F₂.text
  exact (congrArg Prod.snd hparse).trans h₂

/-- **One format**: what is written is the output, as far as there is room. -/
theorem printf_complete (hF : Complete F) (hA : Matching F A) (b : B) :
    printf F A b = .ok (write (render F A) b) :=
  printf_of_expand hF (expand_render hF hA) b

/-- **Two formats** in one call. -/
theorem printf_concat (h₁ : Complete F₁) (h₂ : Complete F₂) (hA₁ : Matching F₁ A₁)
    (hA₂ : Matching F₂ A₂) (b : B) :
    printf (F₁ ++ F₂) (A₁ ++ A₂) b = .ok (write (render F₁ A₁ ++ render F₂ A₂) b) := by
  have hparse : parse (F₁ ++ F₂).text =
      ((parse F₁.text).1 ++ (parse F₂.text).1, (parse F₂.text).2) := parse_append h₁ F₂.text
  refine printf_of_expand (complete_append h₁ h₂) ?_ b
  rw [hparse]
  exact expand_append (expand_render h₁ hA₁) (expand_render h₂ hA₂)

/-- **Formatting is compositional**, and what does not fit is cut off at the end: one call and two
leave the first 3999 characters, and the last byte of the storage is NUL. -/
theorem printf_append (h₁ : Complete F₁) (h₂ : Complete F₂) (hA₁ : Matching F₁ A₁)
    (hA₂ : Matching F₂ A₂) (b : LogBuffer smallBuffer) :
    ∃ b', printf (F₁ ++ F₂) (A₁ ++ A₂) b = .ok b' ∧
      (printf F₁ A₁ b >>= printf F₂ A₂) = .ok b' ∧
      b'.text = (b.text ++ render F₁ A₁ ++ render F₂ A₂).take 3999 ∧
      b'.data.getLast? = some '\x00' := by
  refine ⟨write (render F₁ A₁ ++ render F₂ A₂) b, printf_concat h₁ h₂ hA₁ hA₂ b, ?_, ?_,
    LogBuffer.last_eq_nul _⟩
  · rw [printf_complete h₁ hA₁, ← write_write]
    exact printf_complete h₂ hA₂ _
  · rw [LogBuffer.text_write, List.append_assoc]
    rfl

/-- A buffer with room for two characters more. -/
def nearlyFull : LogBuffer smallBuffer := write (List.replicate 3997 '-') newBuffer

/-- `"%d"` and `"%s"`: of the four characters the last two are cut off. -/
theorem printf_append_d_s :
    let F₁ : CString := ⟨['%', 'd'], by decide⟩
    let F₂ : CString := ⟨['%', 's'], by decide⟩
    let A₁ : List (Arg ℚ) := [.int 1]
    let A₂ : List (Arg ℚ) := [.string ⟨['a', 'b', 'c'], by decide⟩]
    ∃ b', printf (F₁ ++ F₂) (A₁ ++ A₂) nearlyFull = .ok b' ∧
      (printf F₁ A₁ nearlyFull >>= printf F₂ A₂) = .ok b' ∧
      b'.text = List.replicate 3997 '-' ++ ['1', 'a'] ∧ b'.data.getLast? = some '\x00' := by
  intro F₁ F₂ A₁ A₂
  have h₁ : Complete F₁ := by decide +kernel
  have h₂ : Complete F₂ := by decide +kernel
  have hA₁ : Matching F₁ A₁ := by decide +kernel
  have hA₂ : Matching F₂ A₂ := by decide +kernel
  obtain ⟨b', hone, htwo, htext, hlast⟩ := printf_append h₁ h₂ hA₁ hA₂ nearlyFull
  have hbuffer : nearlyFull.text = List.replicate 3997 '-' := by
    unfold nearlyFull
    rw [LogBuffer.text_write]
    decide +kernel
  have hfirst : render F₁ A₁ = ['1'] := by decide +kernel
  have hsecond : render F₂ A₂ = ['a', 'b', 'c'] := by decide +kernel
  refine ⟨b', hone, htwo, ?_, hlast⟩
  rw [htext, hbuffer, hfirst, hsecond, List.append_assoc, List.take_append, List.length_replicate,
    List.take_of_length_le (by rw [List.length_replicate]; omega)]
  rfl

end ToolsCxx.Logging.Compose
