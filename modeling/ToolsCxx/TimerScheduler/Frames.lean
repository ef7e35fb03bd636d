import ToolsCxx.TimerScheduler.Effects

/-! # `TimerScheduler`: what the actions leave as it is

Frame lemmas. An address holds the timer it held before, with the sequence it had, or a new timer
(`effect_keeps`). The calls and the queue of functors are changed by the foreign threads only
(`effect_local`, `effect_created`); the control of the scheduler's thread by its own actions only
(`effect_frame`), and a callback is started by `run` only (`effect_invoked`). The functors are
executed in the order they were queued in (`Fifo`). -/

namespace ToolsCxx.TimerScheduler.Frames

open ToolsCxx.Base ToolsCxx.Lib.Machine ToolsCxx.Lib.OrderedSet
open ToolsCxx.TimerScheduler.Model ToolsCxx.TimerScheduler.Ownership
open ToolsCxx.TimerScheduler.Effects

/-! ### What an action keeps -/

/-- The actions of the foreign threads. -/
def foreign : Act → Bool
  | .clientNew .. | .clientPush .. | .clientReturn .. | .clientCancel .. => true
  | _ => false

section
variable {s s' : State} {a : Act}

/-- After an action an address holds a timer of a new sequence, or the timer it held before. -/
def Keeps (s s' : State) : Prop :=
  s.numCreated ≤ s'.numCreated ∧ ∀ b t', s'.heap b = some t' → s.numCreated < t'.sequence ∨
    ∃ t, s.heap b = some t ∧ t.sequence = t'.sequence ∧ t.repeated = t'.repeated

theorem Keeps.of_heap (hh : s'.heap = s.heap) (hn : s.numCreated ≤ s'.numCreated) : Keeps s s' :=
  ⟨hn, fun b t' hb => Or.inr ⟨t', by rw [← hh, hb], rfl, rfl⟩⟩

theorem Keeps.of_update {timer : Addr} {t : Timer}
    (hh : s'.heap = Function.update s.heap timer (some t))
    (hn : s.numCreated ≤ s'.numCreated) (ht : s.numCreated < t.sequence ∨
      ∃ u, s.heap timer = some u ∧ u.sequence = t.sequence ∧ u.repeated = t.repeated) :
    Keeps s s' := by
  refine ⟨hn, fun b t' hb => ?_⟩
  rw [hh] at hb
  by_cases hbt : b = timer
  · subst hbt
    rw [Function.update_self] at hb
    cases hb
    exact ht
  · rw [Function.update_of_ne hbt] at hb
    exact Or.inr ⟨t', hb, rfl, rfl⟩

theorem Keeps.of_delete {timer : Addr} (hh : s'.heap = Function.update s.heap timer none)
    (hn : s.numCreated ≤ s'.numCreated) : Keeps s s' := by
  refine ⟨hn, fun b t' hb => ?_⟩
  rw [hh] at hb
  by_cases hbt : b = timer
  · rw [hbt, Function.update_self] at hb; cases hb
  · rw [Function.update_of_ne hbt] at hb
    exact Or.inr ⟨t', hb, rfl, rfl⟩

theorem cancels_keeps {timerId : TimerId} (hc : Cancels timerId s s') : Keeps s s' := by
  rcases hc with ⟨t, -, -, -, rfl⟩ | ⟨-, rfl⟩
  · exact Keeps.of_delete rfl le_rfl
  · exact Keeps.of_heap rfl le_rfl

theorem effect_keeps (he : Effect s s' a) : Keeps s s' := by
  cases a with
  | addTimer timerId request clock =>
    obtain ⟨-, -, -, rfl⟩ := he
    exact Keeps.of_update rfl (Nat.le_succ _) (Or.inl (Nat.lt_succ_self _))
  | cancel timerId => exact cancels_keeps he.2
  | handleEvent now => exact Keeps.of_heap (by rw [he.2]; rfl) (by rw [he.2]; exact le_rfl)
  | run =>
    obtain ⟨_, _, _, _, _, -, -, rfl⟩ := he
    exact Keeps.of_heap rfl le_rfl
  | runDone =>
    obtain ⟨_, _, _, -, rfl⟩ := he
    exact Keeps.of_heap rfl le_rfl
  | callsDone =>
    obtain ⟨_, _, -, rfl⟩ := he
    exact Keeps.of_heap rfl le_rfl
  | resetEntry clock =>
    obtain ⟨now, e, rest, -, t, ht, ⟨hrep, -, rfl⟩ | ⟨-, rfl⟩⟩ := he
    · refine Keeps.of_update rfl le_rfl (Or.inr ⟨t, ht, ?_⟩)
      rw [Timer.restart_of_repeated hrep]
      exact ⟨rfl, rfl⟩
    · exact Keeps.of_delete rfl le_rfl
  | resetDone clock =>
    obtain ⟨now, -, ⟨e, -, -, rfl⟩ | ⟨-, rfl⟩⟩ := he <;> exact Keeps.of_heap rfl le_rfl
  | swapFunctors => exact Keeps.of_heap (by rw [he.2]) (by rw [he.2])
  | runFunctor clock =>
    obtain ⟨f, fs, -, hx⟩ := he
    cases f with
    | insert timer =>
      obtain ⟨t, -, rfl⟩ := hx
      exact Keeps.of_heap rfl le_rfl
    | cancelTimer timerId =>
      exact cancels_keeps (s := { s with phase := .draining fs, executed := s.executed + 1 }) hx
  | functorsDone => exact Keeps.of_heap (by rw [he.2]) (by rw [he.2])
  | clientNew c timer request =>
    obtain ⟨-, -, rfl⟩ := he
    exact Keeps.of_update rfl (Nat.le_succ _) (Or.inl (Nat.lt_succ_self _))
  | clientPush c =>
    obtain ⟨_, _, -, rfl⟩ := he
    exact Keeps.of_heap rfl le_rfl
  | clientReturn c timerId =>
    obtain ⟨_, -, -, rfl⟩ := he
    exact Keeps.of_heap rfl le_rfl
  | clientCancel c timerId => exact Keeps.of_heap (by rw [he.2]; rfl) (by rw [he.2]; exact le_rfl)
  | expire clock =>
    obtain ⟨_, -, -, rfl⟩ := he
    exact Keeps.of_heap rfl le_rfl
  | otherNew => exact Keeps.of_heap (by rw [he]) (by rw [he]; exact Nat.le_succ _)

end

/-! ### The calls and the control -/

section
variable {s s' : State} {a : Act} {b : Addr} {q : ℕ} {timerId : TimerId}

/-- What `cancel_timer` leaves as it is. -/
structure Frame (s s' : State) : Prop where
  numCreated : s'.numCreated = s.numCreated
  calls : s'.calls = s.calls
  returned : s'.returned = s.returned
  pushed : s'.pushed = s.pushed
  pendingFunctors : s'.pendingFunctors = s.pendingFunctors
  executed : s'.executed = s.executed
  phase : s'.phase = s.phase
  invoked : s'.invoked = s.invoked

theorem cancels_frame (hc : Cancels timerId s s') : Frame s s' := by
  rcases hc with ⟨t, -, -, -, rfl⟩ | ⟨-, rfl⟩ <;> exact ⟨rfl, rfl, rfl, rfl, rfl, rfl, rfl, rfl⟩

/-- The calls, and the functors pushed, are changed by the foreign threads only. -/
theorem effect_local (he : Effect s s' a) (ha : foreign a = false) :
    s'.calls = s.calls ∧ s'.pushed = s.pushed ∧
      ∀ p ∈ s'.returned, p ∈ s.returned ∨ ∃ request clock, a = .addTimer p.1 request clock ∧
        p.2 = s.numCreated + 1 := by
  cases a with
  | addTimer timerId request clock =>
    obtain ⟨-, hq, -, rfl⟩ := he
    refine ⟨rfl, rfl, fun p hp => ?_⟩
    rcases List.mem_cons.mp hp with rfl | hp
    · exact Or.inr ⟨request, clock, rfl, hq⟩
    · exact Or.inl hp
  | cancel timerId =>
    have hf := cancels_frame he.2
    exact ⟨hf.calls, hf.pushed, fun p hp => Or.inl (hf.returned ▸ hp)⟩
  | handleEvent now =>
    obtain ⟨-, rfl⟩ := he
    exact ⟨rfl, rfl, fun p => Or.inl⟩
  | run =>
    obtain ⟨_, _, _, _, _, -, -, rfl⟩ := he
    exact ⟨rfl, rfl, fun p => Or.inl⟩
  | runDone =>
    obtain ⟨_, _, _, -, rfl⟩ := he
    exact ⟨rfl, rfl, fun p => Or.inl⟩
  | callsDone =>
    obtain ⟨_, _, -, rfl⟩ := he
    exact ⟨rfl, rfl, fun p => Or.inl⟩
  | resetEntry clock =>
    obtain ⟨now, e, rest, -, t, -, ⟨-, -, rfl⟩ | ⟨-, rfl⟩⟩ := he <;>
      exact ⟨rfl, rfl, fun p => Or.inl⟩
  | resetDone clock =>
    obtain ⟨now, -, ⟨e, -, -, rfl⟩ | ⟨-, rfl⟩⟩ := he <;> exact ⟨rfl, rfl, fun p => Or.inl⟩
  | swapFunctors =>
    obtain ⟨-, rfl⟩ := he
    exact ⟨rfl, rfl, fun p => Or.inl⟩
  | runFunctor clock =>
    obtain ⟨f, fs, -, hx⟩ := he
    cases f with
    | insert timer =>
      obtain ⟨t, -, rfl⟩ := hx
      exact ⟨rfl, rfl, fun p => Or.inl⟩
    | cancelTimer timerId =>
      have hf := cancels_frame hx
      exact ⟨hf.calls, hf.pushed, fun p hp => Or.inl (hf.returned ▸ hp)⟩
  | functorsDone =>
    obtain ⟨-, rfl⟩ := he
    exact ⟨rfl, rfl, fun p => Or.inl⟩
  | expire clock =>
    obtain ⟨_, -, -, rfl⟩ := he
    exact ⟨rfl, rfl, fun p => Or.inl⟩
  | otherNew =>
    have hs : s' = { s with numCreated := s.numCreated + 1 } := he
    subst hs
    exact ⟨rfl, rfl, fun p => Or.inl⟩
  | clientNew | clientPush | clientReturn | clientCancel => cases ha

/-- The thread is in `handle_event`. -/
def dispatching : Phase → Bool
  | .calling .. | .resetting .. => true
  | _ => false

theorem batch_eq_nil {p : Phase} (hp : dispatching p = false) : batch p = [] := by
  cases p with
  | idle | draining => rfl
  | calling | resetting => cases hp

/-- The actions that move the scheduler's thread through `start`. -/
def control : Act → Bool
  | .handleEvent .. | .run | .runDone | .callsDone | .resetEntry .. | .resetDone .. | .swapFunctors
  | .runFunctor .. | .functorsDone => true
  | _ => false

theorem effect_frame (he : Effect s s' a) (ha : control a = false) :
    s'.phase = s.phase ∧ s'.invoked = s.invoked ∧ s'.executed = s.executed ∧
      ∀ i ∈ s.cancelingTimers, i ∈ s'.cancelingTimers := by
  cases a with
  | addTimer timerId request clock =>
    obtain ⟨-, -, -, rfl⟩ := he
    exact ⟨rfl, rfl, rfl, fun i => id⟩
  | cancel timerId =>
    rcases he.2 with ⟨u, -, -, -, rfl⟩ | ⟨-, rfl⟩
    · exact ⟨rfl, rfl, rfl, fun i => id⟩
    · refine ⟨rfl, rfl, rfl, fun i hi => ?_⟩
      show i ∈ (noted timerId s).cancelingTimers
      unfold noted
      split_ifs
      · exact OrdSet.mem_insert.mpr (Or.inr hi)
      · exact hi
  | clientNew c timer request =>
    obtain ⟨-, -, rfl⟩ := he
    exact ⟨rfl, rfl, rfl, fun i => id⟩
  | clientPush c =>
    obtain ⟨_, _, -, rfl⟩ := he
    exact ⟨rfl, rfl, rfl, fun i => id⟩
  | clientReturn c timerId =>
    obtain ⟨_, -, -, rfl⟩ := he
    exact ⟨rfl, rfl, rfl, fun i => id⟩
  | clientCancel c timerId =>
    obtain ⟨-, rfl⟩ := he
    exact ⟨rfl, rfl, rfl, fun i => id⟩
  | expire clock =>
    obtain ⟨_, -, -, rfl⟩ := he
    exact ⟨rfl, rfl, rfl, fun i => id⟩
  | otherNew =>
    have hs : s' = { s with numCreated := s.numCreated + 1 } := he
    subst hs
    exact ⟨rfl, rfl, rfl, fun i => id⟩
  | _ => cases ha

theorem effect_invoked (he : Effect s s' a) (ha : a ≠ .run) : s'.invoked = s.invoked := by
  by_cases hctl : control a = false
  · exact (effect_frame he hctl).2.1
  cases a with
  | run => exact absurd rfl ha
  | handleEvent now => rw [he.2]; rfl
  | runDone =>
    obtain ⟨_, _, _, -, rfl⟩ := he
    rfl
  | callsDone =>
    obtain ⟨_, _, -, rfl⟩ := he
    rfl
  | resetEntry clock =>
    obtain ⟨now, e, rest, -, t, -, ⟨-, -, rfl⟩ | ⟨-, rfl⟩⟩ := he <;> rfl
  | resetDone clock =>
    obtain ⟨now, -, ⟨e, -, -, rfl⟩ | ⟨-, rfl⟩⟩ := he <;> rfl
  | swapFunctors => rw [he.2]
  | runFunctor clock =>
    obtain ⟨f, fs, -, hx⟩ := he
    cases f with
    | insert timer =>
      obtain ⟨t, -, rfl⟩ := hx
      rfl
    | cancelTimer timerId => exact (cancels_frame hx).invoked
  | functorsDone => rw [he.2]
  | _ => exact absurd rfl hctl

/-- What an action does to the calls: only `clientNew` makes one, for a new timer. -/
theorem effect_created (he : Effect s s' a) {c : ℕ} (hc : s'.calls c = .created b q) :
    s.calls c = .created b q ∨ s.numCreated < q := by
  have hcases : ∀ {call : AddCall} {c' : ℕ}, Function.update s.calls c' call c = .created b q →
      (c = c' ∧ call = .created b q) ∨ s.calls c = .created b q := by
    intro call c' h
    by_cases hcc : c = c'
    · subst hcc
      exact Or.inl ⟨rfl, (Function.update_self c _ s.calls).symm.trans h⟩
    · exact Or.inr ((Function.update_of_ne hcc _ s.calls).symm.trans h)
  cases a with
  | clientNew c' timer request =>
    obtain ⟨-, -, rfl⟩ := he
    rcases hcases hc with ⟨-, h⟩ | h
    · cases h
      exact Or.inr (Nat.lt_succ_self _)
    · exact Or.inl h
  | clientPush c' =>
    obtain ⟨timer, q', -, rfl⟩ := he
    rcases hcases hc with ⟨-, h⟩ | h
    · cases h
    · exact Or.inl h
  | clientReturn c' timerId =>
    obtain ⟨_, -, -, rfl⟩ := he
    rcases hcases hc with ⟨-, h⟩ | h
    · cases h
    · exact Or.inl h
  | clientCancel c' timerId =>
    obtain ⟨-, rfl⟩ := he
    exact Or.inl hc
  | _ => exact Or.inl (by rw [← (effect_local he rfl).1]; exact hc)

end

/-! ### The queue of functors -/

section
variable {s s' : State} {a : Act}

/-- What an action does to the functors: none, one is queued, or the first one is executed. -/
theorem effect_queue (he : Effect s s' a) :
    (s'.pushed = s.pushed ∧ s'.executed = s.executed ∧ queue s' = queue s) ∨
    (∃ f, s'.pushed = s.pushed ++ [f] ∧ s'.executed = s.executed ∧ queue s' = queue s ++ [f] ∧
      ∀ b, f = .insert b → ∃ c q, s.calls c = .created b q) ∨
    ∃ f fs clock, s.phase = .draining (f :: fs) ∧ s'.pushed = s.pushed ∧
      s'.executed = s.executed + 1 ∧ queue s = f :: queue s' ∧
      Executes f clock { s with phase := .draining fs, executed := s.executed + 1 } s' := by
  cases a with
  | addTimer timerId request clock =>
    obtain ⟨-, -, -, rfl⟩ := he
    exact Or.inl ⟨rfl, rfl, rfl⟩
  | cancel timerId =>
    have hf := cancels_frame he.2
    exact Or.inl ⟨hf.pushed, hf.executed, by unfold queue; rw [hf.pendingFunctors, hf.phase]⟩
  | handleEvent now =>
    obtain ⟨hp, rfl⟩ := he
    exact Or.inl ⟨rfl, rfl, by unfold queue; rw [hp]; rfl⟩
  | run =>
    obtain ⟨_, _, _, _, _, hp, -, rfl⟩ := he
    exact Or.inl ⟨rfl, rfl, by unfold queue; rw [hp]; rfl⟩
  | runDone =>
    obtain ⟨_, _, _, hp, rfl⟩ := he
    exact Or.inl ⟨rfl, rfl, by unfold queue; rw [hp]; rfl⟩
  | callsDone =>
    obtain ⟨_, _, hp, rfl⟩ := he
    exact Or.inl ⟨rfl, rfl, by unfold queue; rw [hp]; rfl⟩
  | resetEntry clock =>
    obtain ⟨now, e, rest, hp, t, -, ⟨-, -, rfl⟩ | ⟨-, rfl⟩⟩ := he <;>
      exact Or.inl ⟨rfl, rfl, by unfold queue; rw [hp]; rfl⟩
  | resetDone clock =>
    obtain ⟨now, hp, ⟨e, -, -, rfl⟩ | ⟨-, rfl⟩⟩ := he <;>
      exact Or.inl ⟨rfl, rfl, by unfold queue; rw [hp]; rfl⟩
  | swapFunctors =>
    obtain ⟨hp, rfl⟩ := he
    exact Or.inl ⟨rfl, rfl, by unfold queue; simp [hp, draining]⟩
  | runFunctor clock =>
    obtain ⟨f, fs, hp, hx⟩ := he
    refine Or.inr (Or.inr ⟨f, fs, clock, hp, ?_⟩)
    cases f with
    | insert timer =>
      obtain ⟨t, ht, rfl⟩ := hx
      exact ⟨rfl, rfl, by unfold queue; rw [hp]; rfl, t, ht, rfl⟩
    | cancelTimer timerId =>
      have hf := cancels_frame hx
      exact ⟨hf.pushed, hf.executed,
        by unfold queue; rw [hp, hf.pendingFunctors, hf.phase]; rfl, hx⟩
  | functorsDone =>
    obtain ⟨hp, rfl⟩ := he
    exact Or.inl ⟨rfl, rfl, by unfold queue; rw [hp]; rfl⟩
  | clientNew c timer request =>
    obtain ⟨-, -, rfl⟩ := he
    exact Or.inl ⟨rfl, rfl, rfl⟩
  | clientPush c =>
    obtain ⟨timer, q, hc, rfl⟩ := he
    refine Or.inr (Or.inl ⟨_, rfl, rfl, (List.append_assoc _ _ _).symm, fun b hb => ?_⟩)
    cases hb
    exact ⟨c, q, hc⟩
  | clientReturn c timerId =>
    obtain ⟨_, -, -, rfl⟩ := he
    exact Or.inl ⟨rfl, rfl, rfl⟩
  | clientCancel c timerId =>
    obtain ⟨-, rfl⟩ := he
    refine Or.inr (Or.inl ⟨_, rfl, rfl, (List.append_assoc _ _ _).symm, fun b hb => ?_⟩)
    cases hb
  | expire clock =>
    obtain ⟨_, -, -, rfl⟩ := he
    exact Or.inl ⟨rfl, rfl, rfl⟩
  | otherNew =>
    have hs : s' = { s with numCreated := s.numCreated + 1 } := he
    subst hs
    exact Or.inl ⟨rfl, rfl, rfl⟩

/-- **The functors are executed in the order they were queued in.** -/
def Fifo (s : State) : Prop := s.executed ≤ s.pushed.length ∧ s.pushed.drop s.executed = queue s

theorem Fifo.step (hf : Fifo s) (he : Effect s s' a) : Fifo s' := by
  obtain ⟨hle, hq⟩ := hf
  unfold Fifo
  rcases effect_queue he with ⟨h1, h2, h3⟩ | ⟨f, h1, h2, h3, -⟩ | ⟨f, fs, clock, -, h1, h2, h3, -⟩
  · rw [h1, h2, h3]
    exact ⟨hle, hq⟩
  · rw [h1, h2, h3, List.drop_append_of_le_length hle, hq]
    exact ⟨hle.trans (by simp), rfl⟩
  · rw [h3] at hq
    have hlt : s.executed < s.pushed.length := by
      by_contra hge
      rw [List.drop_eq_nil_of_le (not_lt.mp hge)] at hq
      cases hq
    rw [h1, h2]
    rw [List.drop_eq_getElem_cons hlt] at hq
    exact ⟨hlt, (List.cons.inj hq).2⟩

theorem reachable_fifo {l : List Act} (hr : Run exec initial l s) : Fifo s :=
  (run_invariant (fun _ _ _ _ hfifo heff _ => hfifo.step heff) hr inv_initial ⟨le_rfl, rfl⟩).2

end

end ToolsCxx.TimerScheduler.Frames
