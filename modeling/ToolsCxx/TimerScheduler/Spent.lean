import ToolsCxx.TimerScheduler.Frames

/-! # `TimerScheduler`: timers whose callbacks are not started again

A timer is named by its sequence `q`, which no other timer has. It is `Doomed` if it is deleted, or
in the batch of the dispatch and `reset` will delete it: because it is not to be repeated, or
because its id has been noted by `cancel_timer`. A doomed timer stays doomed, and is gone when the
dispatch ends (`Doomed.step`, `Doomed.gone`). If it is not among the entries of the batch that are
still to be run either, it is `Settled`, and its callback is never started again (`Settled.quiet`).
-/

namespace ToolsCxx.TimerScheduler.Spent

open ToolsCxx.Base ToolsCxx.Lib.Machine ToolsCxx.Lib.OrderedSet
open ToolsCxx.TimerScheduler.Model ToolsCxx.TimerScheduler.Ownership
open ToolsCxx.TimerScheduler.Effects ToolsCxx.TimerScheduler.Frames

/-! ### Timers that are not started again -/

/-- The timer of sequence `q` is deleted. -/
def Gone (q : ℕ) (s : State) : Prop :=
  q ≤ s.numCreated ∧ ∀ a t, s.heap a = some t → t.sequence ≠ q

/-- The timer of sequence `q` is deleted, or in the batch and `reset` will delete it. -/
def Doomed (q : ℕ) (s : State) : Prop :=
  q ≤ s.numCreated ∧ ∀ a t, s.heap a = some t → t.sequence = q →
    (∃ e ∈ batch s.phase, e.timer = a) ∧ (t.repeated = false ∨ ⟨a, q⟩ ∈ s.cancelingTimers)

/-- The entries of the batch whose callbacks have not been started. -/
def unstarted : Phase → List TimerEntry
  | .calling _ _ rest _ => rest
  | _ => []

/-- The timer of sequence `q` is in the batch, and its callback has not been started. -/
def Unstarted (q : ℕ) (s : State) : Prop :=
  ∃ e ∈ unstarted s.phase, ∃ t, s.heap e.timer = some t ∧ t.sequence = q

/-- The timer of sequence `q` is doomed, and its callback will not be started by the dispatch. -/
def Settled (q : ℕ) (s : State) : Prop := Doomed q s ∧ ¬ Unstarted q s

/-- No callback of the timer of sequence `q` is started from `s` to `s'`. -/
def Quiet (q : ℕ) (s s' : State) : Prop :=
  ∃ new, s'.invoked = s.invoked ++ new ∧ ∀ i ∈ new, i.sequence ≠ q

theorem Quiet.refl (q : ℕ) (s : State) : Quiet q s s := ⟨[], by simp⟩

theorem Quiet.trans {q : ℕ} {s t u : State} (h : Quiet q s t) (h' : Quiet q t u) : Quiet q s u := by
  obtain ⟨new, hs, hq⟩ := h
  obtain ⟨new', ht, hq'⟩ := h'
  refine ⟨new ++ new', by rw [ht, hs, List.append_assoc], fun i hi => ?_⟩
  rcases List.mem_append.mp hi with hi | hi
  · exact hq i hi
  · exact hq' i hi

section
variable {s s' : State} {a : Act} {q : ℕ}

/-- An entry whose timer is live is put out of the batch by `resetEntry` only, and then the timer is
to be repeated and has not been noted. -/
theorem batch_step (he : Effect s s' a) {b : Addr} {t t' : Timer} (ht : s.heap b = some t)
    (ht' : s'.heap b = some t') (hb : ∃ e ∈ batch s.phase, e.timer = b)
    (hn : t.repeated = false ∨ ⟨b, t.sequence⟩ ∈ s.cancelingTimers) :
    (∃ e ∈ batch s'.phase, e.timer = b) ∧
      (t.repeated = false ∨ ⟨b, t.sequence⟩ ∈ s'.cancelingTimers) := by
  by_cases hctl : control a = false
  · obtain ⟨hp, -, -, hsub⟩ := effect_frame he hctl
    exact ⟨by rw [hp]; exact hb, hn.imp_right (hsub _)⟩
  have hempty : batch s.phase ≠ [] := by
    obtain ⟨e, he, -⟩ := hb
    exact List.ne_nil_of_mem he
  cases a with
  | run =>
    obtain ⟨now, called, e, rest, u, hp, -, rfl⟩ := he
    rw [hp] at hb
    exact ⟨by simpa [batch] using hb, hn⟩
  | runDone =>
    obtain ⟨now, called, rest, hp, rfl⟩ := he
    rw [hp] at hb
    exact ⟨hb, hn⟩
  | callsDone =>
    obtain ⟨now, called, hp, rfl⟩ := he
    rw [hp] at hb
    exact ⟨by simpa [batch] using hb, hn⟩
  | resetEntry clock =>
    obtain ⟨now, e, rest, hp, u, hu, hcase⟩ := he
    rw [hp] at hb
    obtain ⟨e', he', rfl⟩ := hb
    rcases List.mem_cons.mp he' with rfl | he'
    · have htu : t = u := Option.some.inj (ht.symm.trans hu)
      subst htu
      rcases hcase with ⟨hrep, hno, -⟩ | ⟨-, rfl⟩
      · rcases hn with hn | hn
        · rw [hrep] at hn; cases hn
        · exact absurd hn hno
      · have hdead : Function.update s.heap e'.timer none e'.timer = some t' := ht'
        rw [Function.update_self] at hdead; cases hdead
    · rcases hcase with ⟨-, -, rfl⟩ | ⟨-, rfl⟩ <;> exact ⟨⟨e', he', rfl⟩, hn⟩
  | handleEvent | swapFunctors | functorsDone => exact absurd (by rw [he.1]; rfl) hempty
  | resetDone clock =>
    obtain ⟨now, hp, -⟩ := he
    exact absurd (by rw [hp]; rfl) hempty
  | runFunctor clock =>
    obtain ⟨f, fs, hp, -⟩ := he
    exact absurd (by rw [hp]; rfl) hempty
  | _ => exact absurd rfl hctl

/-- **A doomed timer stays doomed.** -/
theorem Doomed.step (hd : Doomed q s) (he : Effect s s' a) : Doomed q s' := by
  obtain ⟨hle, hd⟩ := hd
  obtain ⟨hnum, hk⟩ := effect_keeps he
  refine ⟨hle.trans hnum, fun b t' ht' htq => ?_⟩
  rcases hk b t' ht' with hlt | ⟨t, ht, hseq, hrep⟩
  · omega
  · obtain ⟨hb, hn⟩ := hd b t ht (hseq.trans htq)
    rw [← hseq.trans htq] at hn ⊢
    rw [← hrep]
    exact batch_step he ht ht' hb hn

theorem Doomed.run (hd : Doomed q s) (h : Inv [] s) {l : List Act} (hr : Run exec s l s') :
    Doomed q s' :=
  (run_invariant (fun _ _ _ _ hdoomed heff _ => hdoomed.step heff) hr h hd).2

theorem Doomed.gone (hd : Doomed q s) (hb : batch s.phase = []) : Gone q s := by
  refine ⟨hd.1, fun a t ht htq => ?_⟩
  obtain ⟨⟨e, he, -⟩, -⟩ := hd.2 a t ht htq
  rw [hb] at he
  exact absurd he List.not_mem_nil

theorem Gone.step (hg : Gone q s) (he : Effect s s' a) : Gone q s' := by
  obtain ⟨hle, hg⟩ := hg
  obtain ⟨hnum, hk⟩ := effect_keeps he
  refine ⟨hle.trans hnum, fun b t' ht' htq => ?_⟩
  rcases hk b t' ht' with hlt | ⟨t, ht, hseq, -⟩
  · omega
  · exact hg b t ht (hseq.trans htq)

theorem Gone.run (hg : Gone q s) (h : Inv [] s) {l : List Act} (hr : Run exec s l s') :
    Gone q s' :=
  (run_invariant (fun _ _ _ _ hgone heff _ => hgone.step heff) hr h hg).2

theorem Gone.not_unstarted (hg : Gone q s) : ¬ Unstarted q s := fun ⟨e, _, t, ht, htq⟩ =>
  hg.2 e.timer t ht htq

/-- A callback is started for a timer of the batch only. -/
theorem quiet_step (hu : ¬ Unstarted q s) (he : Effect s s' a) : Quiet q s s' := by
  by_cases hr : a = .run
  · subst hr
    obtain ⟨now, called, e, rest, t, hp, ht, rfl⟩ := he
    refine ⟨[⟨e, t.sequence, t.repeated⟩], rfl, fun i hi => ?_⟩
    rw [List.mem_singleton.mp hi]
    exact fun htq => hu ⟨e, by rw [hp]; exact List.mem_cons_self, t, ht, htq⟩
  · exact ⟨[], by rw [effect_invoked he hr]; simp⟩

/-- Entries enter the batch at `handleEvent` only. -/
theorem unstarted_step (he : Effect s s' a) (hb : batch s.phase ≠ []) :
    ∀ e ∈ unstarted s'.phase, e ∈ unstarted s.phase := by
  by_cases hctl : control a = false
  · rw [(effect_frame he hctl).1]
    exact fun e => id
  intro e hu
  cases a with
  | run =>
    obtain ⟨now, called, e', rest, u, hp, -, rfl⟩ := he
    rw [hp]
    exact List.mem_cons_of_mem _ hu
  | runDone =>
    obtain ⟨now, called, rest, hp, rfl⟩ := he
    rw [hp]
    exact hu
  | callsDone =>
    obtain ⟨now, called, hp, rfl⟩ := he
    exact absurd hu List.not_mem_nil
  | resetEntry clock =>
    obtain ⟨now, e', rest, hp, t, -, ⟨-, -, rfl⟩ | ⟨-, rfl⟩⟩ := he <;>
      exact absurd hu List.not_mem_nil
  | handleEvent | swapFunctors | functorsDone => exact absurd (by rw [he.1]; rfl) hb
  | resetDone clock =>
    obtain ⟨now, hp, -⟩ := he
    exact absurd (by rw [hp]; rfl) hb
  | runFunctor clock =>
    obtain ⟨f, fs, hp, -⟩ := he
    exact absurd (by rw [hp]; rfl) hb
  | _ => exact absurd rfl hctl

theorem Settled.step (hs : Settled q s) (he : Effect s s' a) : Settled q s' := by
  refine ⟨hs.1.step he, fun hu => ?_⟩
  by_cases hb : batch s.phase = []
  · exact ((hs.1.gone hb).step he).not_unstarted hu
  · obtain ⟨e, hmem, t', ht', htq⟩ := hu
    rcases (effect_keeps he).2 _ t' ht' with hlt | ⟨t, ht, hseq, -⟩
    · have := hs.1.1; omega
    · exact hs.2 ⟨e, unstarted_step he hb e hmem, t, ht, hseq.trans htq⟩

/-- The callback of a settled timer is never started again. -/
theorem Settled.quiet (hs : Settled q s) (h : Inv [] s) {l : List Act} (hr : Run exec s l s') :
    Quiet q s s' := by
  refine (run_invariant (P := fun t => Settled q t ∧ Quiet q s t) ?_ hr h
    ⟨hs, Quiet.refl q s⟩).2.2
  rintro t t' a - ⟨hset, hquiet⟩ heff -
  exact ⟨hset.step heff, hquiet.trans (quiet_step hset.2 heff)⟩

end

end ToolsCxx.TimerScheduler.Spent
