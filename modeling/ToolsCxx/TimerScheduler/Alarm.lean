import ToolsCxx.TimerScheduler.Frames

/-! # `TimerScheduler`: the timerfd

No timer is forgotten: whenever the thread is not in `handle_event`, and there is a timer in
`m_timers`, the timerfd is armed, or has expired and waits to be read (`never_forgotten`). Its
deadline is the one of the last arming (`timerfd_resetTimerfd`), and that arming was for no later
time than the first timer's.

The invariant (`Alarmed`) also covers the dispatch, which begins by consuming the alarm: until it is
armed again all the timers in `m_timers` have a valid expiration, so that the end of `reset` will
arm it. -/

namespace ToolsCxx.TimerScheduler.Alarm

open ToolsCxx.Base ToolsCxx.Lib.Machine ToolsCxx.Lib.OrderedSet
open ToolsCxx.TimerScheduler.Model ToolsCxx.TimerScheduler.Ownership
open ToolsCxx.TimerScheduler.Effects ToolsCxx.TimerScheduler.Frames

/-! ### Arming -/

/-- The microseconds `get_time_from_now` arms the timerfd for, as the kernel adds them up. -/
theorem timespec_sum (microseconds : ℤ) :
    microseconds.tdiv Timestamp.kmicrosecondsPerSecond * Timestamp.kmicrosecondsPerSecond +
      (microseconds.tmod Timestamp.kmicrosecondsPerSecond * 1000).tdiv 1000 = microseconds := by
  rw [Int.mul_tdiv_cancel _ (by omega), mul_comm, Int.mul_tdiv_add_tmod]

/-- The difference is clamped. -/
theorem getTimeFromNow_eq (expiration now : Timestamp) : getTimeFromNow expiration now =
    ⟨(max 100 (expiration.getDifference now)).tdiv Timestamp.kmicrosecondsPerSecond,
      (max 100 (expiration.getDifference now)).tmod Timestamp.kmicrosecondsPerSecond * 1000⟩ := by
  have hmax : (if expiration.getDifference now < 100 then 100 else expiration.getDifference now) =
      max 100 (expiration.getDifference now) := by
    split_ifs with h <;> omega
  unfold getTimeFromNow
  simp only [hmax]

/-- **`reset_timerfd`** never disarms. The deadline is at least 100 microseconds away. -/
theorem timerfd_resetTimerfd (expiration now : Timestamp) (s : State) :
    (resetTimerfd expiration now s).timerfd =
      .armed (now + max 100 (expiration.getDifference now)) := by
  have hsum := timespec_sum (max 100 (expiration.getDifference now))
  have hpos : 100 ≤ max 100 (expiration.getDifference now) := le_max_left _ _
  unfold resetTimerfd timerfdSettime
  rw [getTimeFromNow_eq, if_neg, add_assoc, hsum]
  intro hzero
  obtain ⟨h1, h2⟩ := Timespec.mk.inj hzero
  rw [h1, h2, zero_mul, Int.zero_tdiv, add_zero] at hsum
  omega

/-! ### The invariant -/

theorem expiration_le {e e' : TimerEntry} (h : e ≤ e') : e.expiration ≤ e'.expiration := by
  rcases TimerEntry.le_iff.mp h with h | ⟨h, -⟩
  · exact h.le
  · exact h.le

/-- **The alarm covers the timers.** If there is one, it is that of the last arming, and was set for
no later time than any timer's. If there is none, there is no timer, or it is being dispatched and
every timer has a valid expiration. -/
structure Alarmed (s : State) : Prop where
  armed : ∀ d, s.timerfd = .armed d ∨ s.timerfd = .readable d → ∃ arm rest,
    s.armings = arm :: rest ∧ d = arm.now + max 100 (arm.expiration.getDifference arm.now) ∧
      ∀ e ∈ s.timers, arm.expiration ≤ e.expiration
  disarmed : s.timerfd = .disarmed → (∀ e ∈ s.timers, 0 < e.expiration) ∧
    (dispatching s.phase = false → ∀ e, e ∉ s.timers)

theorem alarmed_initial : Alarmed initial where
  armed d hd := by rcases hd with hd | hd <;> cases hd
  disarmed _ := ⟨fun e he => absurd he OrdSet.not_mem_empty, fun _ _ => OrdSet.not_mem_empty⟩

section
variable {s s' : State} (h : Alarmed s)
include h

/-- Timers may leave, and others may change. -/
theorem Alarmed.of_subset (hfd : s'.timerfd = s.timerfd) (harm : s'.armings = s.armings)
    (hsub : ∀ e ∈ s'.timers, e ∈ s.timers)
    (hp : dispatching s'.phase = false → dispatching s.phase = false) : Alarmed s' where
  armed d hd := by
    rw [hfd] at hd
    obtain ⟨arm, rest, ha, hdeq, hle⟩ := h.armed d hd
    exact ⟨arm, rest, harm.trans ha, hdeq, fun e he => hle e (hsub e he)⟩
  disarmed hd := by
    obtain ⟨hpos, hnone⟩ := h.disarmed (hfd.symm.trans hd)
    exact ⟨fun e he => hpos e (hsub e he), fun hi e he => hnone (hp hi) e (hsub e he)⟩

omit h in
/-- The timerfd is armed for the first timer. -/
theorem alarmed_resetTimerfd {expiration clock : Timestamp}
    (hle : ∀ e ∈ s.timers, expiration ≤ e.expiration) :
    Alarmed (resetTimerfd expiration clock s) where
  armed d hd := by
    rw [timerfd_resetTimerfd] at hd
    refine ⟨⟨expiration, clock⟩, s.armings, rfl, ?_, hle⟩
    rcases hd with hd | hd <;> cases hd
    rfl
  disarmed hd := by
    rw [timerfd_resetTimerfd] at hd
    cases hd

/-- **`insert`** arms the timerfd for a timer that will be the first. -/
theorem Alarmed.inserted (timer : Addr) (t : Timer) (clock : Timestamp) :
    Alarmed (inserted timer t clock s) := by
  have hfirst : ∀ b, s.timers.begin? = some b →
      b ∈ s.timers ∧ ∀ e ∈ s.timers, b.expiration ≤ e.expiration := fun b hb =>
    ⟨(OrdSet.begin?_eq_some hb).1, fun e he => expiration_le ((OrdSet.begin?_eq_some hb).2 e he)⟩
  unfold Ownership.inserted armIfEarliest
  by_cases hear : isEarliest t.expiration s.timers = true
  · rw [if_pos hear]
    refine alarmed_resetTimerfd (s := { s with
      timers := s.timers.insert ⟨t.expiration, timer⟩
      activeTimers := s.activeTimers.insert ⟨timer, t.sequence⟩ }) fun e he => ?_
    rcases OrdSet.mem_insert.mp he with rfl | he
    · exact le_rfl
    · cases hb : s.timers.begin? with
      | none => exact absurd he (OrdSet.begin?_eq_none.mp hb e)
      | some b =>
        unfold isEarliest at hear
        rw [hb] at hear
        exact (of_decide_eq_true hear).le.trans ((hfirst b hb).2 e he)
  · rw [if_neg hear]
    cases hb : s.timers.begin? with
    | none => exact absurd (by unfold isEarliest; rw [hb]) hear
    | some b =>
      have hbt : b.expiration ≤ t.expiration := by
        unfold isEarliest at hear
        rw [hb] at hear
        exact not_lt.mp fun hlt => hear (decide_eq_true hlt)
      refine ⟨fun d hd => ?_, fun hd => ?_⟩
      · obtain ⟨arm, rest, ha, hdeq, hle⟩ := h.armed d hd
        refine ⟨arm, rest, ha, hdeq, fun e he => ?_⟩
        rcases OrdSet.mem_insert.mp he with rfl | he
        · exact (hle b (hfirst b hb).1).trans hbt
        · exact hle e he
      · obtain ⟨hpos, hnone⟩ := h.disarmed hd
        refine ⟨fun e he => ?_, fun hi => absurd (hfirst b hb).1 (hnone hi b)⟩
        rcases OrdSet.mem_insert.mp he with rfl | he
        · exact (hpos b (hfirst b hb).1).trans_le hbt
        · exact hpos e he

theorem Alarmed.cancels {timerId : TimerId} (hc : Cancels timerId s s') : Alarmed s' := by
  rcases hc with ⟨t, -, -, -, rfl⟩ | ⟨-, rfl⟩
  · exact h.of_subset rfl rfl (fun e he => (OrdSet.mem_erase.mp he).2) id
  · exact h.of_subset rfl rfl (fun e => id) id

/-- The dispatch consumes the alarm, and takes out every timer without a valid expiration. -/
theorem Alarmed.dispatched (hinv : Inv [] s) {now : Timestamp} (hnow : 0 < now) :
    Alarmed (dispatched now s) := by
  have hmem : ∀ e ∈ (Effects.dispatched now s).timers, e ∈ s.timers ∧ now < e.expiration :=
    fun e he => (mem_unexpiredAt hinv).mp he
  have hread : ∀ d, readTimerfd s.timerfd = .armed d ∨ readTimerfd s.timerfd = .readable d →
      s.timerfd = .armed d := by
    intro d hd
    cases hfd : s.timerfd <;> rw [hfd] at hd <;> rcases hd with hd | hd <;> cases hd
    rfl
  refine ⟨fun d hd => ?_, fun _ => ⟨fun e he => hnow.trans (hmem e he).2, fun hi => by cases hi⟩⟩
  obtain ⟨arm, rest, ha, hdeq, hle⟩ := h.armed d (Or.inl (hread d hd))
  exact ⟨arm, rest, ha, hdeq, fun e he => hle e (hmem e he).1⟩

/-- **The end of `reset`** leaves no timer without an alarm. -/
theorem Alarmed.rearms {clock : Timestamp}
    (hr : Rearms clock { s with phase := .idle } s') : Alarmed s' := by
  rcases hr with ⟨e, hb, -, rfl⟩ | ⟨hinvalid, rfl⟩
  · exact alarmed_resetTimerfd fun e' he' => expiration_le ((OrdSet.begin?_eq_some hb).2 e' he')
  · refine ⟨h.armed, fun hd => ?_⟩
    obtain ⟨hpos, -⟩ := h.disarmed hd
    refine ⟨hpos, fun _ => ?_⟩
    -- the first timer would have a valid expiration
    cases hb : s.timers.begin? with
    | none => exact OrdSet.begin?_eq_none.mp hb
    | some b =>
      have hvalid : b.expiration.isValid = true :=
        decide_eq_true (hpos b (OrdSet.begin?_eq_some hb).1)
      rw [hinvalid b hb] at hvalid
      cases hvalid

end

/-- The clock reading an action takes. -/
def clockOf : Act → Option Timestamp
  | .addTimer _ _ clock | .handleEvent clock | .resetEntry clock | .resetDone clock
  | .runFunctor clock | .expire clock => some clock
  | _ => none

/-- **Every action** keeps the timers under the alarm. -/
theorem Alarmed.step {s s' : State} {a : Act} (h : Alarmed s) (hinv : Inv [] s)
    (he : Effect s s' a) (hclock : ∀ t, clockOf a = some t → 0 < t) : Alarmed s' := by
  cases a with
  | addTimer timerId request clock =>
    obtain ⟨-, -, -, rfl⟩ := he
    have h1 : Alarmed (allocated timerId.timer request s) := h.of_subset rfl rfl (fun e => id) id
    exact (h1.inserted _ _ clock).of_subset rfl rfl (fun e => id) id
  | cancel timerId => exact h.cancels he.2
  | handleEvent now =>
    obtain ⟨-, rfl⟩ := he
    exact h.dispatched hinv (hclock now rfl)
  | run =>
    obtain ⟨_, _, _, _, _, hp, -, rfl⟩ := he
    exact h.of_subset rfl rfl (fun e => id) fun hi => by cases hi
  | runDone =>
    obtain ⟨_, _, _, hp, rfl⟩ := he
    exact h.of_subset rfl rfl (fun e => id) fun hi => by cases hi
  | callsDone =>
    obtain ⟨_, _, hp, rfl⟩ := he
    exact h.of_subset rfl rfl (fun e => id) fun hi => by cases hi
  | resetEntry clock =>
    obtain ⟨now, e, rest, hp, t, ht, ⟨-, -, rfl⟩ | ⟨-, rfl⟩⟩ := he
    · have h1 : Alarmed
          (restarted e.timer (t.restart now) { s with phase := .resetting now rest }) :=
        h.of_subset rfl rfl (fun e => id) fun hi => by cases hi
      exact h1.inserted _ _ clock
    · exact h.of_subset rfl rfl (fun e => id) fun hi => by cases hi
  | resetDone clock =>
    obtain ⟨now, hp, hr⟩ := he
    exact h.rearms hr
  | swapFunctors =>
    obtain ⟨hp, rfl⟩ := he
    exact h.of_subset rfl rfl (fun e => id) fun _ => by rw [hp]; rfl
  | runFunctor clock =>
    obtain ⟨f, fs, hp, hx⟩ := he
    have h1 : Alarmed { s with phase := .draining fs, executed := s.executed + 1 } :=
      h.of_subset rfl rfl (fun e => id) fun _ => by rw [hp]; rfl
    cases f with
    | insert timer =>
      obtain ⟨t, -, rfl⟩ := hx
      exact h1.inserted _ _ clock
    | cancelTimer timerId => exact h1.cancels hx
  | functorsDone =>
    obtain ⟨hp, rfl⟩ := he
    exact h.of_subset rfl rfl (fun e => id) fun _ => by rw [hp]; rfl
  | clientNew c timer request =>
    obtain ⟨-, -, rfl⟩ := he
    exact h.of_subset rfl rfl (fun e => id) id
  | clientPush c =>
    obtain ⟨_, _, -, rfl⟩ := he
    exact h.of_subset rfl rfl (fun e => id) id
  | clientReturn c timerId =>
    obtain ⟨_, -, -, rfl⟩ := he
    exact h.of_subset rfl rfl (fun e => id) id
  | clientCancel c timerId =>
    obtain ⟨-, rfl⟩ := he
    exact h.of_subset rfl rfl (fun e => id) id
  | expire clock =>
    obtain ⟨d, hd, -, rfl⟩ := he
    refine ⟨fun d' hd' => ?_, fun hd' => by cases hd'⟩
    rcases hd' with hd' | hd' <;> cases hd'
    exact h.armed d (Or.inl hd)
  | otherNew =>
    have hs : s' = { s with numCreated := s.numCreated + 1 } := he
    subst hs
    exact h.of_subset rfl rfl (fun e => id) id

/-! ### Every run -/

/-- **No timer is forgotten.** The clock shows positive times, and no difference taken to arm the
timerfd overflows. -/
theorem never_forgotten {l : List Act} {s : State} (hr : Run exec initial l s)
    (hclock : ∀ a ∈ l, ∀ t, clockOf a = some t → 0 < t)
    (hfits : ∀ arm ∈ s.armings, InInt64 (arm.expiration - arm.now))
    (hp : dispatching s.phase = false) {e : TimerEntry} (he : s.timers.begin? = some e) :
    ∃ d arm, (s.timerfd = .armed d ∨ s.timerfd = .readable d) ∧ s.armings.head? = some arm ∧
      d ≤ max e.expiration (arm.now + 100) := by
  have h : Alarmed s :=
    (run_invariant_of (P := Alarmed) (fun _ _ _ hpos hinv hA heff _ => hA.step hinv heff hpos) hr
      hclock inv_initial alarmed_initial).2
  have hmem := (OrdSet.begin?_eq_some he).1
  have hfd : ∃ d, s.timerfd = .armed d ∨ s.timerfd = .readable d := by
    cases hfd : s.timerfd with
    | disarmed => exact absurd hmem ((h.disarmed hfd).2 hp e)
    | armed d => exact ⟨d, Or.inl rfl⟩
    | readable d => exact ⟨d, Or.inr rfl⟩
  obtain ⟨d, hd⟩ := hfd
  obtain ⟨arm, rest, harm, rfl, hle⟩ := h.armed d hd
  refine ⟨_, arm, hd, by rw [harm]; rfl, ?_⟩
  rw [Timestamp.getDifference_of_mem (hfits arm (by rw [harm]; exact List.mem_cons_self))]
  have hearlier := hle e hmem
  rcases le_total (arm.expiration - arm.now) 100 with h100 | h100
  · rw [max_eq_left h100]
    exact le_max_right _ _
  · rw [max_eq_right h100, add_sub_cancel]
    exact le_max_of_le_left hearlier

/-- A dispatch consumes the alarm of the timer it runs, and arms the timerfd for the other one. -/
def consuming : List Act :=
  [.addTimer ⟨16, 1⟩ (.runAt 1000) 500, .addTimer ⟨32, 2⟩ (.runAt 5000) 500, .expire 1000,
    .handleEvent 1000, .run, .runDone, .callsDone, .resetEntry 1010, .resetDone 1010]

theorem never_forgotten_consuming : ∃ d arm,
    ((after exec initial consuming).timerfd = .armed d ∨
      (after exec initial consuming).timerfd = .readable d) ∧
    (after exec initial consuming).armings.head? = some arm ∧ d ≤ max 5000 (arm.now + 100) :=
  never_forgotten (run_after (l := consuming) rfl) (by decide) (by decide) rfl (e := ⟨5000, 32⟩) rfl

end ToolsCxx.TimerScheduler.Alarm
