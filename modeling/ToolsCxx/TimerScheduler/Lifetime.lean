import ToolsCxx.TimerScheduler.Frames

/-! # `TimerScheduler`: what becomes of a timer

A timer is named by its `TimerId`. It waits for its insertion to be executed; then it is in the sets
(`Stored`) or in the batch of a dispatch (`Taken`). `Over` says from the actions of a run when it is
over: its insertion having been executed, a cancel of it is executed while no dispatch has it in its
batch, or `reset` reaches it and it is not to be repeated or has been cancelled. `alive_iff`: the
timer is in the heap if and only if it is not over. -/

namespace ToolsCxx.TimerScheduler.Lifetime

open ToolsCxx.Base ToolsCxx.Lib.Machine ToolsCxx.Lib.OrderedSet
open ToolsCxx.TimerScheduler.Model ToolsCxx.TimerScheduler.Ownership
open ToolsCxx.TimerScheduler.Effects ToolsCxx.TimerScheduler.Frames

/-! ### When a timer is over -/

/-- The timer at the address `a` is in the sets. -/
def Stored (a : Addr) (s : State) : Prop := ∃ e ∈ s.timers, e.timer = a

/-- A dispatch has it in its batch, and `reset` has not reached it. -/
def Taken (a : Addr) (s : State) : Prop := ∃ e ∈ batch s.phase, e.timer = a

/-- The action executes the insertion of the timer at the address `a`. -/
def Inserts (a : Addr) (s : State) : Act → Prop
  | .runFunctor _ => ∃ functors, s.phase = .draining (.insert a :: functors)
  | _ => False

/-- It executes a cancel of `timerId`. -/
def Cancelling (timerId : TimerId) (s : State) : Act → Prop
  | .cancel i => i = timerId
  | .runFunctor _ => ∃ functors, s.phase = .draining (.cancelTimer timerId :: functors)
  | _ => False

/-- It is the round of `reset` for the timer at the address `a`. -/
def Reaches (a : Addr) (s : State) : Act → Prop
  | .resetEntry _ => ∃ now e rest, s.phase = .resetting now (e :: rest) ∧ e.timer = a
  | _ => False

/-- The insertion has been executed. -/
def Inserted (a : Addr) (s : State) (l : List Act) : Prop :=
  Happened exec (fun _ t x => Inserts a t x) s l

/-- A cancel has been executed after it. -/
def Cancelled (timerId : TimerId) (s : State) (l : List Act) : Prop :=
  Happened exec (fun l t x => Inserted timerId.timer s l ∧ Cancelling timerId t x) s l

/-- The action `x`, after the actions `l` that lead from `s` to `t`, is the last for the timer. -/
def Last (interval : ℚ) (timerId : TimerId) (s : State) (l : List Act) (t : State) (x : Act) :
    Prop :=
  Inserted timerId.timer s l ∧
    (Cancelling timerId t x ∧ ¬ Taken timerId.timer t ∨
      Reaches timerId.timer t x ∧ (interval ≤ 0 ∨ Cancelled timerId s l))

/-- **The timer is over** after the actions `l`. -/
def Over (interval : ℚ) (timerId : TimerId) (s : State) (l : List Act) : Prop :=
  Happened exec (Last interval timerId s) s l

/-! ### The steps that delete a timer -/

/-- The action takes a branch that deletes the timer at the address `a`: `cancel_timer` finds it in
`m_activeTimers`, or `reset` does not restart it. -/
def Deletes (s : State) (a : Addr) : Act → Prop
  | .cancel timerId => timerId.timer = a ∧ timerId ∈ s.activeTimers
  | .runFunctor _ => ∃ timerId functors, s.phase = .draining (.cancelTimer timerId :: functors) ∧
    timerId.timer = a ∧ timerId ∈ s.activeTimers
  | .resetEntry _ => ∃ now e rest t, s.phase = .resetting now (e :: rest) ∧ e.timer = a ∧
    s.heap a = some t ∧
      ¬ (t.repeated = true ∧ (⟨a, t.sequence⟩ : ActiveTimerEntry) ∉ s.cancelingTimers)
  | _ => False

section
variable {s s' : State} {x : Act} {a : Addr} {q : ℕ} {timerId : TimerId}

/-- `cancel_timer` deletes the timer it finds. -/
theorem cancels_deletes (hc : Cancels timerId s s') (hi : timerId ∈ s.activeTimers) :
    s'.heap timerId.timer = none := by
  rcases hc with ⟨t, -, -, -, rfl⟩ | ⟨hno, -⟩
  · exact Function.update_self _ _ _
  · exact absurd hi hno

/-- It deletes no timer that it does not find. -/
theorem cancels_spares (h : Inv [] s) (hc : Cancels timerId s s')
    (hno : ¬ (timerId.timer = a ∧ timerId ∈ s.activeTimers)) : s'.heap a = s.heap a := by
  rcases hc with ⟨t, ht, hq, he, rfl⟩ | ⟨-, rfl⟩
  · have hi : timerId ∈ s.activeTimers := h.active_iff.mpr ⟨t, ht, hq, he⟩
    have hne : a ≠ timerId.timer := fun hat => hno ⟨hat.symm, hi⟩
    exact Function.update_of_ne hne _ _
  · rfl

theorem deletes_heap (he : Effect s s' x) (hd : Deletes s a x) : s'.heap a = none := by
  cases x with
  | cancel timerId =>
    obtain ⟨rfl, hi⟩ := hd
    exact cancels_deletes he.2 hi
  | runFunctor clock =>
    obtain ⟨timerId, fs, hp, rfl, hi⟩ := hd
    obtain ⟨f, fs', hp', hx⟩ := he
    rw [hp] at hp'
    cases hp'
    exact cancels_deletes hx hi
  | resetEntry clock =>
    obtain ⟨now, e, rest, t, hp, rfl, ht, hno⟩ := hd
    obtain ⟨now', e', rest', hp', u, hu, hcase⟩ := he
    rw [hp] at hp'
    cases hp'
    have hut : u = t := Option.some.inj (hu.symm.trans ht)
    subst hut
    rcases hcase with ⟨hrep, hnot, -⟩ | ⟨-, rfl⟩
    · exact absurd ⟨hrep, hnot⟩ hno
    · exact Function.update_self _ _ _
  | _ => exact absurd hd id

/-- A timer that is not deleted keeps its sequence. -/
theorem spares_heap (h : Inv [] s) (he : Effect s s' x) (hd : ¬ Deletes s a x)
    (ha : ∃ t, s.heap a = some t ∧ t.sequence = q) :
    ∃ t, s'.heap a = some t ∧ t.sequence = q := by
  have hsame : s'.heap a = s.heap a → ∃ t, s'.heap a = some t ∧ t.sequence = q := fun hh => by
    rw [hh]; exact ha
  obtain ⟨t, ht, htq⟩ := ha
  cases x with
  | addTimer timerId request clock =>
    obtain ⟨-, -, hfree, rfl⟩ := he
    have hne : a ≠ timerId.timer := by
      rintro rfl
      rw [hfree] at ht; cases ht
    exact hsame (Function.update_of_ne hne _ _)
  | clientNew c timer request =>
    obtain ⟨-, hfree, rfl⟩ := he
    have hne : a ≠ timer := by
      rintro rfl
      rw [hfree] at ht; cases ht
    exact hsame (Function.update_of_ne hne _ _)
  | cancel timerId => exact hsame (cancels_spares h he.2 hd)
  | runFunctor clock =>
    obtain ⟨f, fs, hp, hx⟩ := he
    cases f with
    | insert timer =>
      obtain ⟨u, -, rfl⟩ := hx
      exact hsame rfl
    | cancelTimer timerId =>
      have h1 : Inv [] { s with phase := .draining fs, executed := s.executed + 1 } :=
        Inv.popped h hp
      have hheap := cancels_spares h1 hx fun hfound => hd ⟨timerId, fs, hp, hfound⟩
      exact hsame hheap
  | resetEntry clock =>
    obtain ⟨now, e, rest, hp, u, hu, hcase⟩ := he
    by_cases hea : e.timer = a
    · subst hea
      have hut : u = t := Option.some.inj (hu.symm.trans ht)
      subst hut
      rcases hcase with ⟨hrep, hno, rfl⟩ | ⟨hno, -⟩
      · refine ⟨u.restart now, Function.update_self _ _ _, ?_⟩
        rw [Timer.restart_of_repeated hrep]
        exact htq
      · exact absurd ⟨now, e, rest, u, hp, rfl, ht, hno⟩ hd
    · rcases hcase with ⟨-, -, rfl⟩ | ⟨-, rfl⟩ <;>
        exact hsame (Function.update_of_ne (Ne.symm hea) _ _)
  | handleEvent now => exact hsame (by rw [he.2]; rfl)
  | run =>
    obtain ⟨_, _, _, _, _, -, -, rfl⟩ := he
    exact hsame rfl
  | runDone =>
    obtain ⟨_, _, _, -, rfl⟩ := he
    exact hsame rfl
  | callsDone =>
    obtain ⟨_, _, -, rfl⟩ := he
    exact hsame rfl
  | resetDone clock => obtain ⟨now, -, ⟨e, -, -, rfl⟩ | ⟨-, rfl⟩⟩ := he <;> exact hsame rfl
  | swapFunctors => exact hsame (by rw [he.2])
  | functorsDone => exact hsame (by rw [he.2])
  | clientPush c =>
    obtain ⟨_, _, -, rfl⟩ := he
    exact hsame rfl
  | clientReturn c timerId =>
    obtain ⟨_, -, -, rfl⟩ := he
    exact hsame rfl
  | clientCancel c timerId => exact hsame (by rw [he.2]; rfl)
  | expire clock =>
    obtain ⟨_, -, -, rfl⟩ := he
    exact hsame rfl
  | otherNew => exact hsame (by rw [he])

/-- The timer of sequence `q` has been created, and is not at the address `a`. -/
def Away (a : Addr) (q : ℕ) (s : State) : Prop :=
  q ≤ s.numCreated ∧ ∀ t, s.heap a = some t → t.sequence ≠ q

theorem Away.step (hw : Away a q s) (he : Effect s s' x) : Away a q s' := by
  obtain ⟨hle, hne⟩ := hw
  obtain ⟨hnum, hkeep⟩ := effect_keeps he
  refine ⟨hle.trans hnum, fun t' ht' htq => ?_⟩
  rcases hkeep a t' ht' with hlt | ⟨t, ht, hseq, -⟩
  · omega
  · exact hne t ht (hseq.trans htq)

end

/-! ### Where a timer is -/

section
variable {s s' : State} {x : Act} {timerId : TimerId}

/-- What an action that does not delete the timer does to its place. -/
inductive Moves (timerId : TimerId) (s s' : State) : Act → Prop
  | stays {x : Act} (hstored : Stored timerId.timer s' ↔ Stored timerId.timer s)
    (htaken : Taken timerId.timer s' ↔ Taken timerId.timer s) (hno : ¬ Inserts timerId.timer s x)
    (hcancel : Taken timerId.timer s →
      (timerId ∈ s'.cancelingTimers ↔ timerId ∈ s.cancelingTimers ∨ Cancelling timerId s x)) :
    Moves timerId s s' x
  | inserted {x : Act} (hx : Inserts timerId.timer s x) (hstored : Stored timerId.timer s') :
    Moves timerId s s' x
  | dispatched (now : Timestamp) (hbatch : batch s.phase = [])
    (hplace : Stored timerId.timer s' ∨ Taken timerId.timer s' ↔ Stored timerId.timer s)
    (hnone : s'.cancelingTimers = ∅) : Moves timerId s s' (.handleEvent now)
  | restarted {x : Act} (hx : Reaches timerId.timer s x) (hstored : Stored timerId.timer s') :
    Moves timerId s s' x

/-- An action that touches neither the sets nor the batch. -/
theorem Moves.of_frame (ht : s'.timers = s.timers) (hb : batch s'.phase = batch s.phase)
    (hc : s'.cancelingTimers = s.cancelingTimers) (hno : ¬ Inserts timerId.timer s x)
    (hcancel : ¬ Cancelling timerId s x) : Moves timerId s s' x := by
  refine .stays ?_ ?_ hno fun _ => ?_
  · unfold Stored; rw [ht]
  · unfold Taken; rw [hb]
  · rw [hc]
    exact (or_iff_left hcancel).symm

theorem stored_insert {e : TimerEntry} {a : Addr} (ht : s'.timers = s.timers.insert e) :
    Stored a s' ↔ e.timer = a ∨ Stored a s := by
  unfold Stored
  rw [ht]
  simp only [OrdSet.mem_insert, or_and_right, exists_or, exists_eq_left]

theorem stored_erase {e : TimerEntry} {a : Addr} (ht : s'.timers = s.timers.erase e)
    (he : e.timer ≠ a) : Stored a s' ↔ Stored a s := by
  unfold Stored
  rw [ht]
  simp only [OrdSet.mem_erase]
  refine exists_congr fun e' => and_congr_left fun hea => and_iff_right ?_
  rintro rfl
  exact he hea

/-- The timer that a cancel finds in the sets is the one that it names. -/
theorem active_iff_stored (h : Inv [] s) {t : Timer} (ht : s.heap timerId.timer = some t)
    (hq : t.sequence = timerId.sequence) {i : TimerId} :
    i.timer = timerId.timer ∧ i ∈ s.activeTimers ↔ i = timerId ∧ Stored timerId.timer s := by
  constructor
  · rintro ⟨hi, hact⟩
    obtain ⟨u, hu, huq, he⟩ := h.active_iff.mp hact
    rw [hi, ht] at hu
    obtain rfl := Option.some.inj hu
    refine ⟨?_, _, he, hi⟩
    show (⟨i.timer, i.sequence⟩ : TimerId) = ⟨timerId.timer, timerId.sequence⟩
    rw [hi, ← huq, hq]
  · rintro ⟨rfl, e, he, hea⟩
    refine ⟨rfl, (h.active i).mpr ⟨e, he, t, by rw [hea]; exact ht, ?_⟩⟩
    rw [hea, hq]

theorem not_taken_of_stored (h : Inv [] s) {a : Addr} (hs : Stored a s) : ¬ Taken a s :=
  h.disjoint.2.2.2.2 a hs

theorem not_stored_of_inserts (h : Inv [] s) {a : Addr} (hx : Inserts a s x) :
    ¬ Stored a s ∧ ¬ Taken a s := by
  have hq : .insert a ∈ queue s := by
    cases x with
    | runFunctor clock =>
      obtain ⟨fs, hp⟩ := hx
      unfold queue
      rw [hp]
      exact List.mem_append_left _ List.mem_cons_self
    | _ => exact absurd hx id
  exact ⟨h.disjoint.2.2.1 a hq, h.disjoint.2.2.2.1 a hq⟩

/-- What `cancel_timer` does to a timer that it does not delete. -/
theorem cancels_places (h : Inv [] s) {i : TimerId} (hc : Cancels i s s')
    (hno : ¬ (i.timer = timerId.timer ∧ i ∈ s.activeTimers)) :
    (Stored timerId.timer s' ↔ Stored timerId.timer s) ∧
      (s.callingExpiredTimer = true → Taken timerId.timer s →
        (timerId ∈ s'.cancelingTimers ↔ timerId ∈ s.cancelingTimers ∨ i = timerId)) := by
  rcases hc with ⟨u, hu, huq, he, rfl⟩ | ⟨hi, rfl⟩
  · have hact : i ∈ s.activeTimers := h.active_iff.mpr ⟨u, hu, huq, he⟩
    have hne : i.timer ≠ timerId.timer := fun hit => hno ⟨hit, hact⟩
    refine ⟨stored_erase rfl hne, fun _ _ => ?_⟩
    exact (or_iff_left fun hit => hne (congrArg TimerId.timer hit)).symm
  · refine ⟨Iff.rfl, fun hcalling _ => ?_⟩
    show timerId ∈ (noted i s).cancelingTimers ↔ _
    unfold noted
    rw [if_pos hcalling, OrdSet.mem_insert, or_comm, eq_comm]

/-- **What an action does to the place of a timer** that it does not delete. -/
theorem effect_moves (h : Inv [] s) {t : Timer} (ht : s.heap timerId.timer = some t)
    (he : Effect s s' x) (hno : ¬ Deletes s timerId.timer x) : Moves timerId s s' x := by
  cases x with
  | addTimer i request clock =>
    obtain ⟨-, -, hfree, rfl⟩ := he
    have hne : i.timer ≠ timerId.timer := fun hit => by
      rw [hit, ht] at hfree; cases hfree
    exact .stays ((stored_insert rfl).trans (or_iff_right hne)) Iff.rfl id
      fun _ => (or_iff_left id).symm
  | cancel i =>
    have hphase := (effect_frame he rfl).1
    obtain ⟨huser, hc⟩ := he
    obtain ⟨hstored, hcancel⟩ := cancels_places h hc hno
    refine .stays hstored (by unfold Taken; rw [hphase]) id fun htaken => hcancel ?_ htaken
    obtain ⟨e, he, -⟩ := htaken
    cases hp : s.phase with
    | calling now called rest running => exact h.calling.mpr ⟨_, _, _, _, hp⟩
    | idle | draining => rw [hp] at he; exact absurd he List.not_mem_nil
    | resetting => rw [hp] at huser; cases huser
  | handleEvent now =>
    obtain ⟨hp, rfl⟩ := he
    refine .dispatched now (by rw [hp]; rfl) ?_ rfl
    have hstored : Stored timerId.timer (dispatched now s) ↔
        ∃ e, (e ∈ s.timers ∧ now < e.expiration) ∧ e.timer = timerId.timer :=
      exists_congr fun e => and_congr_left fun _ => mem_unexpiredAt h
    have htaken : Taken timerId.timer (dispatched now s) ↔
        ∃ e, (e ∈ s.timers ∧ e.expiration ≤ now) ∧ e.timer = timerId.timer :=
      exists_congr fun e => and_congr_left fun _ => mem_expiredAt h
    rw [hstored, htaken, ← exists_or]
    refine exists_congr fun e => ?_
    rw [← or_and_right, ← and_or_left, and_iff_left (lt_or_ge now e.expiration)]
  | run =>
    obtain ⟨now, called, e, rest, u, hp, -, rfl⟩ := he
    exact .of_frame rfl (by rw [hp]; simp [batch]) rfl id id
  | runDone =>
    obtain ⟨now, called, rest, hp, rfl⟩ := he
    exact .of_frame rfl (by rw [hp]; rfl) rfl id id
  | callsDone =>
    obtain ⟨now, called, hp, rfl⟩ := he
    exact .of_frame rfl (by rw [hp]; simp [batch]) rfl id id
  | resetEntry clock =>
    obtain ⟨now, e, rest, hp, u, hu, hcase⟩ := he
    by_cases hea : e.timer = timerId.timer
    · refine .restarted ⟨now, e, rest, hp, hea⟩ ?_
      rcases hcase with ⟨hrep, hnot, rfl⟩ | ⟨hnot, -⟩
      · exact ⟨_, OrdSet.mem_insert.mpr (Or.inl rfl), hea⟩
      · rw [hea] at hu hnot
        exact absurd ⟨now, e, rest, u, hp, hea, hu, hnot⟩ hno
    · have htaken : ∀ {s' : State}, s'.phase = .resetting now rest →
          (Taken timerId.timer s' ↔ Taken timerId.timer s) := by
        intro s' hp'
        unfold Taken
        rw [hp, hp']
        simp only [batch, List.mem_cons, or_and_right, exists_or, exists_eq_left, hea, false_or]
      rcases hcase with ⟨-, -, rfl⟩ | ⟨-, rfl⟩
      · have hstored : ∀ {s' : State},
            s'.timers = s.timers.insert ⟨(u.restart now).expiration, e.timer⟩ →
              (Stored timerId.timer s' ↔ Stored timerId.timer s) := fun ht' =>
          (stored_insert ht').trans (or_iff_right hea)
        exact .stays (hstored rfl) (htaken rfl) id fun _ => (or_iff_left id).symm
      · exact .stays Iff.rfl (htaken rfl) id fun _ => (or_iff_left id).symm
  | resetDone clock =>
    obtain ⟨now, hp, ⟨e, -, -, rfl⟩ | ⟨-, rfl⟩⟩ := he <;>
      exact .of_frame rfl (by rw [hp]; rfl) rfl id id
  | swapFunctors =>
    obtain ⟨hp, rfl⟩ := he
    exact .of_frame rfl (by rw [hp]; rfl) rfl id id
  | runFunctor clock =>
    obtain ⟨f, fs, hp, hx⟩ := he
    have hnone : ¬ Taken timerId.timer s := by
      rintro ⟨e, he, -⟩
      rw [hp] at he
      exact absurd he List.not_mem_nil
    have hnone' : s'.phase = .draining fs → ¬ Taken timerId.timer s' := by
      rintro hp' ⟨e, he, -⟩
      rw [hp'] at he
      exact absurd he List.not_mem_nil
    cases f with
    | insert b =>
      obtain ⟨u, -, rfl⟩ := hx
      by_cases hb : b = timerId.timer
      · exact .inserted ⟨fs, by rw [hp, hb]⟩ ((stored_insert rfl).mpr (Or.inl hb))
      · refine .stays ((stored_insert rfl).trans (or_iff_right hb))
          (iff_of_false (hnone' rfl) hnone) ?_ fun htaken => absurd htaken hnone
        rintro ⟨fs', hp'⟩
        rw [hp] at hp'
        cases hp'
        exact hb rfl
    | cancelTimer i =>
      have hframe := cancels_frame hx
      obtain ⟨hstored, -⟩ := cancels_places (Inv.popped h hp) hx fun hfound =>
        hno ⟨i, fs, hp, hfound⟩
      refine .stays hstored (iff_of_false (hnone' hframe.phase) hnone) ?_
        fun htaken => absurd htaken hnone
      rintro ⟨fs', hp'⟩
      rw [hp] at hp'
      cases hp'
  | functorsDone =>
    obtain ⟨hp, rfl⟩ := he
    exact .of_frame rfl (by rw [hp]; rfl) rfl id id
  | clientNew c timer request =>
    obtain ⟨-, -, rfl⟩ := he
    exact .of_frame rfl rfl rfl id id
  | clientPush c =>
    obtain ⟨_, _, -, rfl⟩ := he
    exact .of_frame rfl rfl rfl id id
  | clientReturn c i =>
    obtain ⟨_, -, -, rfl⟩ := he
    exact .of_frame rfl rfl rfl id id
  | clientCancel c i =>
    obtain ⟨-, rfl⟩ := he
    exact .of_frame rfl rfl rfl id id
  | expire clock =>
    obtain ⟨_, -, -, rfl⟩ := he
    exact .of_frame rfl rfl rfl id id
  | otherNew =>
    have hs : s' = { s with numCreated := s.numCreated + 1 } := he
    subst hs
    exact .of_frame rfl rfl rfl id id

end

/-! ### The life of a timer -/

/-- `reset` reaches the timers of its batch. -/
theorem taken_of_reaches {s : State} {x : Act} {timerId : TimerId}
    (hx : Reaches timerId.timer s x) : Taken timerId.timer s ∧ ¬ Cancelling timerId s x := by
  cases x with
  | resetEntry clock =>
    obtain ⟨now, e, rest, hp, hea⟩ := hx
    exact ⟨⟨e, by rw [hp]; exact List.mem_cons_self, hea⟩, id⟩
  | _ => exact absurd hx id

/-- **A timer that is not over**: it is there, it is in the sets or in a batch if its insertion has
been executed, and a cancel executed since then has been noted. -/
structure Life (interval : ℚ) (timerId : TimerId) (s : State) (l : List Act) (t : State) :
    Prop where
  live : ∃ u, t.heap timerId.timer = some u ∧ u.sequence = timerId.sequence ∧
    u.repeated = decide (0 < interval)
  inserted : Inserted timerId.timer s l ↔ Stored timerId.timer t ∨ Taken timerId.timer t
  stored : Stored timerId.timer t → ¬ Cancelled timerId s l
  taken : Taken timerId.timer t → (timerId ∈ t.cancelingTimers ↔ Cancelled timerId s l)

section
variable {s t t' : State} {l : List Act} {x : Act} {timerId : TimerId} {interval : ℚ}

theorem inserted_of_cancelled (h : Cancelled timerId s l) : Inserted timerId.timer s l := by
  obtain ⟨l₁, x, l₂, t, rfl, -, ⟨l₃, y, l₄, u, rfl, hu, hy⟩, -⟩ := h
  exact ⟨l₃, y, l₄ ++ x :: l₂, u, by rw [List.append_assoc, List.cons_append], hu, hy⟩

theorem inserted_snoc (hr : Run exec s l t) : Inserted timerId.timer s (l ++ [x]) ↔
    Inserted timerId.timer s l ∨ Inserts timerId.timer t x :=
  happened_snoc hr

theorem cancelled_snoc (hr : Run exec s l t) : Cancelled timerId s (l ++ [x]) ↔
    Cancelled timerId s l ∨ Inserted timerId.timer s l ∧ Cancelling timerId t x :=
  happened_snoc hr

/-- The steps that delete the timer are those the life of it tells. -/
theorem Life.deletes_iff (hl : Life interval timerId s l t) (h : Inv [] t) :
    Deletes t timerId.timer x ↔ Last interval timerId s l t x := by
  obtain ⟨u, hu, huq, hrep⟩ := hl.live
  -- a cancel deletes it if it is in the sets
  have hcancel : ∀ {i : TimerId}, i.timer = timerId.timer ∧ i ∈ t.activeTimers ↔
      Inserted timerId.timer s l ∧ i = timerId ∧ ¬ Taken timerId.timer t := by
    intro i
    rw [active_iff_stored h hu huq, hl.inserted]
    constructor
    · rintro ⟨hi, hstored⟩
      exact ⟨Or.inl hstored, hi, not_taken_of_stored h hstored⟩
    · rintro ⟨hplace, hi, hno⟩
      exact ⟨hi, hplace.resolve_right hno⟩
  unfold Last
  cases x with
  | cancel i =>
    refine hcancel.trans (and_congr_right fun _ => ?_)
    exact (or_iff_left fun hx => hx.1.elim).symm
  | runFunctor clock =>
    constructor
    · rintro ⟨i, fs, hp, hfound⟩
      obtain ⟨hins, rfl, hno⟩ := hcancel.mp hfound
      exact ⟨hins, Or.inl ⟨⟨fs, hp⟩, hno⟩⟩
    · rintro ⟨hins, ⟨⟨fs, hp⟩, hno⟩ | ⟨hx, -⟩⟩
      · exact ⟨timerId, fs, hp, hcancel.mpr ⟨hins, rfl, hno⟩⟩
      · exact hx.elim
  | resetEntry clock =>
    have hnoted : Taken timerId.timer t → (¬ (u.repeated = true ∧
        (⟨timerId.timer, u.sequence⟩ : ActiveTimerEntry) ∉ t.cancelingTimers) ↔
        interval ≤ 0 ∨ Cancelled timerId s l) := by
      intro htaken
      rw [huq, hl.taken htaken, hrep, not_and_or, not_not, decide_eq_true_iff, not_lt]
    constructor
    · rintro ⟨now, e, rest, v, hp, hea, hv, hno⟩
      obtain rfl : u = v := Option.some.inj (hu.symm.trans hv)
      have htaken : Taken timerId.timer t := ⟨e, by rw [hp]; exact List.mem_cons_self, hea⟩
      exact ⟨hl.inserted.mpr (Or.inr htaken),
        Or.inr ⟨⟨now, e, rest, hp, hea⟩, (hnoted htaken).mp hno⟩⟩
    · rintro ⟨-, ⟨hx, -⟩ | ⟨⟨now, e, rest, hp, hea⟩, hend⟩⟩
      · exact hx.elim
      · have htaken : Taken timerId.timer t := ⟨e, by rw [hp]; exact List.mem_cons_self, hea⟩
        exact ⟨now, e, rest, u, hp, hea, hu, (hnoted htaken).mpr hend⟩
  | _ => exact iff_of_false id fun hx => hx.2.elim (fun hc => hc.1) fun hr => hr.1

/-- An action that does not delete the timer. -/
theorem Life.step (hl : Life interval timerId s l t) (hr : Run exec s l t) (h : Inv [] t)
    (he : Effect t t' x) (h' : Inv [] t') (hno : ¬ Last interval timerId s l t x) :
    Life interval timerId s (l ++ [x]) t' := by
  have hspared : ¬ Deletes t timerId.timer x := fun hd => hno ((hl.deletes_iff h).mp hd)
  obtain ⟨u, hu, huq, hrep⟩ := hl.live
  have hlive : ∃ u, t'.heap timerId.timer = some u ∧ u.sequence = timerId.sequence ∧
      u.repeated = decide (0 < interval) := by
    obtain ⟨v, hv, hvq⟩ := spares_heap h he hspared ⟨u, hu, huq⟩
    refine ⟨v, hv, hvq, ?_⟩
    rcases (effect_keeps he).2 _ v hv with hlt | ⟨w, hw, -, hwrep⟩
    · have := h.seq_le _ u hu
      omega
    · rw [hu] at hw
      rw [← hwrep, ← Option.some.inj hw, hrep]
  rcases effect_moves h hu he hspared with
    ⟨hstored, htaken, hins, hcancel⟩ | ⟨hx, hstored⟩ | ⟨now, hbatch, hplace, hnone⟩ | ⟨hx, hstored⟩
  · -- it stays where it is
    refine ⟨hlive, ?_, fun hs => ?_, fun ht => ?_⟩
    · rw [inserted_snoc hr, or_iff_left hins, hl.inserted, hstored, htaken]
    · have hs := hstored.mp hs
      rw [cancelled_snoc hr, not_or]
      exact ⟨hl.stored hs, fun hx => hno ⟨hx.1, Or.inl ⟨hx.2, not_taken_of_stored h hs⟩⟩⟩
    · have ht := htaken.mp ht
      rw [cancelled_snoc hr, hcancel ht, hl.taken ht,
        and_iff_right (hl.inserted.mpr (Or.inr ht))]
  · -- its insertion is executed
    obtain ⟨hns, hnt⟩ := not_stored_of_inserts h hx
    have hins : ¬ Inserted timerId.timer s l := fun hins => (hl.inserted.mp hins).elim hns hnt
    refine ⟨hlive, ?_, fun _ => ?_, fun ht => absurd ht (not_taken_of_stored h' hstored)⟩
    · rw [inserted_snoc hr]
      exact iff_of_true (Or.inr hx) (Or.inl hstored)
    · rw [cancelled_snoc hr]
      exact fun hc => hins (hc.elim inserted_of_cancelled And.left)
  · -- a dispatch begins
    have hnt : ¬ Taken timerId.timer t := by
      rintro ⟨e, he, -⟩
      rw [hbatch] at he
      exact absurd he List.not_mem_nil
    have hcancel : Stored timerId.timer t → ¬ Cancelled timerId s (l ++ [.handleEvent now]) := by
      intro hs
      rw [cancelled_snoc hr, not_or]
      exact ⟨hl.stored hs, And.right⟩
    refine ⟨hlive, ?_, fun hs => hcancel (hplace.mp (Or.inl hs)), fun ht => ?_⟩
    · have hno : ¬ Inserts timerId.timer t (.handleEvent now) := id
      rw [inserted_snoc hr, or_iff_left hno, hl.inserted, hplace, or_iff_left hnt]
    · refine iff_of_false ?_ (hcancel (hplace.mp (Or.inr ht)))
      rw [hnone]
      exact OrdSet.not_mem_empty
  · -- `reset` restarts it
    obtain ⟨htaken, hcx⟩ := taken_of_reaches hx
    have hins := hl.inserted.mpr (Or.inr htaken)
    refine ⟨hlive, ?_, fun _ => ?_, fun ht => absurd ht (not_taken_of_stored h' hstored)⟩
    · rw [inserted_snoc hr]
      exact iff_of_true (Or.inl hins) (Or.inl hstored)
    · rw [cancelled_snoc hr, not_or]
      exact ⟨fun hc => hno ⟨hins, Or.inr ⟨hx, Or.inr hc⟩⟩, fun hc => hcx hc.2⟩

/-- The timer is over and has been deleted, or it is not over and lives. -/
theorem over_or_life (h : Inv [] s) (hcreated : timerId.sequence ≤ s.numCreated)
    (hl : Life interval timerId s [] s) (hr : Run exec s l t) :
    (Over interval timerId s l ∧ Away timerId.timer timerId.sequence t) ∨
      (¬ Over interval timerId s l ∧ Life interval timerId s l t) := by
  refine (Run.induction (P := fun l t => timerId.sequence ≤ t.numCreated ∧
    ((Over interval timerId s l ∧ Away timerId.timer timerId.sequence t) ∨
      (¬ Over interval timerId s l ∧ Life interval timerId s l t)))
    ⟨hcreated, Or.inr ⟨not_happened_nil, hl⟩⟩ ?_ hr).2
  rintro l t x t' hr ⟨hnum, ih⟩ ha
  have hinv := run_inv hr h
  obtain ⟨heff, hinv'⟩ := exec_effect hinv ha
  have hnum' := hnum.trans (effect_keeps heff).1
  refine ⟨hnum', ?_⟩
  have hsnoc : Over interval timerId s (l ++ [x]) ↔
      Over interval timerId s l ∨ Last interval timerId s l t x := happened_snoc hr
  rw [hsnoc]
  rcases ih with ⟨hover, haway⟩ | ⟨hnot, hlife⟩
  · exact Or.inl ⟨Or.inl hover, haway.step heff⟩
  · by_cases hlast : Last interval timerId s l t x
    · refine Or.inl ⟨Or.inr hlast, hnum', fun u hu => ?_⟩
      rw [deletes_heap heff ((hlife.deletes_iff hinv).mpr hlast)] at hu
      cases hu
    · exact Or.inr ⟨not_or.mpr ⟨hnot, hlast⟩, hlife.step hr hinv heff hinv' hlast⟩

/-- **A timer that waits** to be inserted in `s` is there after the actions `l` if and only if it is
not over. -/
theorem alive_iff {a : Addr} {q : ℕ} {u : Timer} (h : Inv [] s) (hu : s.heap a = some u)
    (hq : u.sequence = q) (hrep : u.repeated = decide (0 < interval))
    (hwaits : ¬ Stored a s ∧ ¬ Taken a s) (hr : Run exec s l t) :
    (∃ u, t.heap a = some u ∧ u.sequence = q) ↔ ¬ Over interval ⟨a, q⟩ s l := by
  have hl : Life interval ⟨a, q⟩ s [] s := by
    refine ⟨⟨u, hu, hq, hrep⟩, ?_, fun hs => absurd hs hwaits.1, fun ht => absurd ht hwaits.2⟩
    exact iff_of_false not_happened_nil (not_or.mpr hwaits)
  rcases over_or_life h (hq ▸ h.seq_le _ u hu) hl hr with ⟨hover, haway⟩ | ⟨hnot, hlife⟩
  · exact iff_of_false (fun ⟨v, hv, hvq⟩ => haway.2 v hv hvq) (not_not.mpr hover)
  · obtain ⟨v, hv, hvq, -⟩ := hlife.live
    exact iff_of_true ⟨v, hv, hvq⟩ hnot

end

end ToolsCxx.TimerScheduler.Lifetime
