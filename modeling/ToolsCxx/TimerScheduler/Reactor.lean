import ToolsCxx.Lib.Transitions
import ToolsCxx.Pollers.Exact
import ToolsCxx.TimerScheduler.Wakeup

/-! # `TimerScheduler` with its poller

The loop of `start` with the `Poller` that `create_poller` has made and the two `Channel`s: `poll`
is the poller's, on the conditions of the timerfd and the eventfd, and the callbacks that are
called are those of `handle_event`.

* `refines_loop`: the whole is a run of `Loop`, whose `poll` reports the channels that are ready.
  No assertion of the poller fails, and no ready channel waits for another call.
* `request_wakes`: the request of a foreign thread lets `poll` return for it. -/

namespace ToolsCxx.TimerScheduler.Reactor

open ToolsCxx.Lib.Machine ToolsCxx.Pollers.Abstract ToolsCxx.Pollers.Exact
open ToolsCxx.Pollers.Base hiding Channel Fault Result
open ToolsCxx.Pollers.HangUp (AnyPoller Callback createPoller execPoller base handleEvent pipeReady)
open ToolsCxx.TimerScheduler.Loop (Channel)

/-! ### The state and the operations -/

structure State where
  loop : Loop.State
  poller : AnyPoller Channel

/-- What can go wrong. -/
inductive Fault where
  | poller (e : Pollers.Base.Fault)
  | scheduler (e : Model.Fault)
  deriving DecidableEq, Repr

abbrev Result (α : Type) := Except (Halt Fault) α

variable (fd : Channel → ℕ)

/-- The poller after the constructor of the scheduler. -/
def construct (usePoll : Bool) : Pollers.Base.Result (AnyPoller Channel) := do
  let poller ← execPoller fd (createPoller usePoll) (.update .timerfd .enableReading)
  execPoller fd poller (.update .eventfd .enableReading)

/-- The condition of a channel's descriptor. The eventfd can be written to. -/
def condition (s : Loop.State) : Channel → Events
  | .timerfd => if s.isReady .timerfd then pollIn else 0
  | .eventfd => (if s.isReady .eventfd then pollIn else 0) ||| pollOut

/-- The conditions of the descriptors. -/
def ready (s : Loop.State) (f : ℕ) : Events :=
  if f = fd .timerfd then condition s .timerfd
  else if f = fd .eventfd then condition s .eventfd
  else 0

/-- Only the read callback is set. -/
def installed : Callback → Bool
  | .read => true
  | _ => false

/-- The active channels whose `handle_event` calls the callback. -/
def called (poller : AnyPoller Channel) : List Channel :=
  (base poller).activeChannels.filter fun c =>
    Callback.read ∈ handleEvent installed ((base poller).channels c).revents

/-- A call of `poll`. -/
def isPoll : Loop.Act → Bool
  | .poll _ => true
  | _ => false

inductive Act where
  /-- `poll` returns; `order` is the choice of the kernel -/
  | poll (order : List ℕ)
  /-- it returns because of a signal -/
  | interrupted
  /-- any other action -/
  | loop (a : Loop.Act)
  deriving DecidableEq

/-- The loop goes on with the channels. -/
def dispatch (s : State) (poller : AnyPoller Channel) : State where
  loop := { s.loop with position := .dispatch (called poller) }
  poller := poller

/-- What an action does. -/
def exec (s : State) : Act → Result State
  | .poll order => do
    enable (s.loop.position = .poll)
    let poller ← (execPoller fd s.poller (.poll (ready fd s.loop) order)).mapError (.map .poller)
    return dispatch s poller
  | .interrupted => do
    enable (s.loop.position = .poll)
    let poller ← (execPoller fd s.poller .interrupted).mapError (.map .poller)
    return dispatch s poller
  | .loop a => do
    enable (isPoll a = false)
    let loop ← (Loop.exec s.loop a).mapError (.map .scheduler)
    return { s with loop := loop }

/-! ### What the poller reports -/

/-- Both channels are registered for reading. -/
def both : Interest Channel where
  events _ := kReadEvent
  registered := {.timerfd, .eventfd}

variable {fd} {s s' : State} {t : Loop.State} {p p' : AnyPoller Channel}

theorem both_eq :
    (Interest.initial.update Channel.timerfd .enableReading).update .eventfd .enableReading =
      both := by
  have hevents : ((Interest.initial.update Channel.timerfd .enableReading).update .eventfd
      .enableReading).events = both.events := by
    funext c
    cases c <;> decide
  have hregistered : ((Interest.initial.update Channel.timerfd .enableReading).update .eventfd
      .enableReading).registered = both.registered := by
    decide
  exact congrArg₂ Interest.mk hevents hregistered

/-- **The constructor** registers both channels. -/
theorem exists_construct (hfd : Function.Injective fd) (usePoll : Bool) :
    ∃ p, construct fd usePoll = .ok p ∧ Watches fd both p := by
  obtain ⟨p, hp, hw⟩ := watches_exec hfd (watches_create usePoll)
    (rfl : Interest.initial.exec (.update Channel.timerfd .enableReading) = .ok _)
  obtain ⟨p', hp', hw'⟩ := watches_exec hfd hw
    (rfl : Interest.exec _ (.update Channel.eventfd .enableReading) = .ok _)
  rw [both_eq] at hw'
  refine ⟨p', ?_, hw'⟩
  unfold construct
  rw [hp]
  exact hp'

theorem ready_fd (hfd : Function.Injective fd) (c : Channel) :
    ready fd t (fd c) = condition t c := by
  have hne : fd .eventfd ≠ fd .timerfd := fun h => nomatch hfd h
  unfold ready
  cases c with
  | timerfd => rw [if_pos rfl]
  | eventfd => rw [if_neg hne, if_pos rfl]

/-- The bits that are reported of a channel. -/
theorem reported_eq (hfd : Function.Injective fd) (c : Channel) :
    both.reported fd (ready fd t) c = if t.isReady c then pollIn else 0 := by
  have hbits : ∀ ready : Bool,
      report kReadEvent (if ready = true then pollIn else 0) =
        (if ready = true then pollIn else 0) ∧
      report kReadEvent ((if ready = true then pollIn else 0) ||| pollOut) =
        if ready = true then pollIn else 0 := by decide
  unfold Interest.reported
  rw [ready_fd hfd]
  cases c with
  | timerfd => exact (hbits (t.isReady .timerfd)).1
  | eventfd => exact (hbits (t.isReady .eventfd)).2

theorem read_mem_handleEvent (ready : Bool) : Callback.read ∈
    handleEvent installed (if ready = true then pollIn else 0) ↔ ready = true := by
  cases ready <;> decide

/-- **The callbacks that are called** after `poll`: those of the channels that are ready. -/
theorem called_perm (hfd : Function.Injective fd) (h : Reports fd both (ready fd t) (base p)) :
    (called p).Perm ([.timerfd, .eventfd].filter t.isReady) := by
  have hnodup : ([.timerfd, .eventfd] : List Channel).Nodup := by decide
  refine (List.perm_ext_iff_of_nodup (h.nodup.filter _) (hnodup.filter _)).mpr fun c => ?_
  have hmem : c ∈ ([.timerfd, .eventfd] : List Channel) := by cases c <;> decide
  have hregistered : c ∈ both.registered := by cases c <;> decide
  rw [List.mem_filter, List.mem_filter, decide_eq_true_eq, h.active]
  constructor
  · rintro ⟨hactive, hread⟩
    rw [h.revents c ((h.active c).mpr hactive), reported_eq hfd, read_mem_handleEvent] at hread
    exact ⟨hmem, hread⟩
  · rintro ⟨-, hready⟩
    have hactive : c ∈ both.registered ∧ both.reported fd (ready fd t) c ≠ 0 := by
      refine ⟨hregistered, ?_⟩
      rw [reported_eq hfd, hready]
      decide
    refine ⟨hactive, ?_⟩
    rw [h.revents c ((h.active c).mpr hactive), reported_eq hfd, read_mem_handleEvent]
    exact hready

/-- A call of `poll`. -/
theorem exec_poll (hfd : Function.Injective fd) (h : Watches fd both s.poller)
    (hpoll : s.loop.position = .poll) (order : List ℕ) :
    ∃ p, exec fd s (.poll order) = .ok (dispatch s p) ∧ Watches fd both p ∧
      (called p).Perm ([.timerfd, .eventfd].filter s.loop.isReady) := by
  have hfew : both.registered.card ≤ Pollers.EPoll.kEventListSize := by decide
  obtain ⟨p, hp, hw, hreports⟩ := poll_exact hfd hfew h order
  refine ⟨p, ?_, hw, called_perm hfd hreports⟩
  show (enable _ >>= _) = _
  rw [enable_bind_of hpoll]
  show ((execPoller fd s.poller _).mapError _ >>= _) = _
  rw [mapError_eq_ok.mpr hp]
  rfl

/-- One that is interrupted. -/
theorem exec_interrupted (hfd : Function.Injective fd) (h : Watches fd both s.poller)
    (hpoll : s.loop.position = .poll) :
    ∃ p, exec fd s .interrupted = .ok (dispatch s p) ∧ Watches fd both p ∧ called p = [] := by
  obtain ⟨p, hp, hw⟩ := watches_exec hfd h (rfl : both.exec .interrupted = .ok _)
  refine ⟨p, ?_, hw, ?_⟩
  · show (enable _ >>= _) = _
    rw [enable_bind_of hpoll]
    show ((execPoller fd s.poller _).mapError _ >>= _) = _
    rw [mapError_eq_ok.mpr hp]
    rfl
  · have hnil : (base p).activeChannels = [] := by
      cases hs : s.poller with
      | inl q => rw [hs] at hp; cases hp; rfl
      | inr q => rw [hs] at hp; cases hp; rfl
    unfold called
    rw [hnil]
    rfl

/-! ### The runs -/

/-- An action of the whole stands for one of `Loop`. -/
inductive Stands : Act → Loop.Act → Prop where
  | poll {order : List ℕ} {channels : List Channel} : Stands (.poll order) (.poll channels)
  | interrupted : Stands .interrupted (.poll [])
  | loop (a : Loop.Act) : Stands (.loop a) a

/-- **An action is one of `Loop`.** -/
theorem exec_stands (hfd : Function.Injective fd) (h : Watches fd both s.poller) {a : Act}
    (ha : exec fd s a = .ok s') : ∃ b, Stands a b ∧ Loop.exec s.loop b = .ok s'.loop ∧
      Watches fd both s'.poller := by
  cases a with
  | poll order =>
    obtain ⟨hpoll, -⟩ := enable_bind_eq_ok.mp ha
    obtain ⟨p, hp, hw, hperm⟩ := exec_poll hfd h hpoll order
    cases hp.symm.trans ha
    exact ⟨.poll (called p), .poll, enable_bind_of ⟨hpoll, .inr hperm⟩, hw⟩
  | interrupted =>
    obtain ⟨hpoll, -⟩ := enable_bind_eq_ok.mp ha
    obtain ⟨p, hp, hw, hnil⟩ := exec_interrupted hfd h hpoll
    cases hp.symm.trans ha
    refine ⟨.poll [], .interrupted, ?_, hw⟩
    show (enable _ >>= _) = _
    rw [enable_bind_of ⟨hpoll, .inl rfl⟩]
    unfold dispatch
    rw [hnil]
    rfl
  | loop a =>
    obtain ⟨-, ha⟩ := enable_bind_eq_ok.mp ha
    obtain ⟨t, ht, ha⟩ := bind_eq_ok.mp ha
    cases ha
    exact ⟨a, .loop a, mapError_eq_ok.mp ht, h⟩

theorem run_stands (hfd : Function.Injective fd) (hw : Watches fd both p) {l : List Act}
    (hr : Run (exec fd) ⟨Loop.initial, p⟩ l s) :
    ∃ l', List.Forall₂ Stands l l' ∧ Run Loop.exec Loop.initial l' s.loop ∧
      Watches fd both s.poller := by
  have hstep : ∀ u a u' t, u.loop = t ∧ Watches fd both u.poller → exec fd u a = .ok u' →
      ∃ b t', Stands a b ∧ Loop.exec t b = .ok t' ∧ u'.loop = t' ∧ Watches fd both u'.poller := by
    rintro u a u' _ ⟨rfl, h⟩ ha
    obtain ⟨b, hstands, hb, hw'⟩ := exec_stands hfd h ha
    exact ⟨b, _, hstands, hb, rfl, hw'⟩
  obtain ⟨l', t, hl, hrun, rfl, hw'⟩ := hr.matched hstep ⟨rfl, hw⟩
  exact ⟨l', hl, hrun, hw'⟩

theorem loop_no_fault (h : Ownership.Inv [] t.sched) (a : Loop.Act) (e : Model.Fault) :
    Loop.exec t a ≠ .error (.fault e) := by
  intro ha
  cases a with
  | start | test | poll | quit | clientQuit | writeEventfd =>
    obtain ⟨-, ha⟩ := enable_bind_eq_fault.mp ha
    cases ha
  | readEventfd =>
    simp only [Loop.exec, Loop.readEventfd] at ha
    split at ha
    · obtain ⟨-, ha⟩ := enable_bind_eq_fault.mp ha
      cases ha
    · cases ha
  | sched b =>
    obtain ⟨-, ha⟩ := enable_bind_eq_fault.mp ha
    have hb := Effects.exec_no_fault h b e
    cases hexec : Model.exec t.sched b with
    | ok u => rw [hexec] at ha; cases ha
    | error halt =>
      rw [hexec] at ha hb
      cases ha
      exact hb rfl

/-- **The scheduler with its poller is the loop.** Whichever poller it has, every run of the whole
is a run of `Loop`, with the same state of the scheduler; nothing in the scheduler or in the poller
goes wrong; and `poll` leads to the callbacks of exactly the channels that are ready. -/
theorem refines_loop (hfd : Function.Injective fd) {usePoll : Bool}
    (hp : construct fd usePoll = .ok p) {l : List Act}
    (hr : Run (exec fd) ⟨Loop.initial, p⟩ l s) :
    (∃ l', List.Forall₂ Stands l l' ∧ Run Loop.exec Loop.initial l' s.loop) ∧
    (∀ a e, exec fd s a ≠ .error (.fault e)) ∧
    ∀ order, s.loop.position = .poll → ∃ channels s', exec fd s (.poll order) = .ok s' ∧
      s'.loop = { s.loop with position := .dispatch channels } ∧
        channels.Perm ([.timerfd, .eventfd].filter s.loop.isReady) := by
  obtain ⟨q, hq, hw⟩ := exists_construct hfd usePoll
  cases hq.symm.trans hp
  obtain ⟨l', hl, hrun, hw'⟩ := run_stands hfd hw hr
  refine ⟨⟨l', hl, hrun⟩, fun a e ha => ?_, fun order hpoll => ?_⟩
  · cases a with
    | poll order =>
      obtain ⟨hpoll, -⟩ := enable_bind_eq_fault.mp ha
      obtain ⟨p', hp', -⟩ := exec_poll hfd hw' hpoll order
      cases hp'.symm.trans ha
    | interrupted =>
      obtain ⟨hpoll, -⟩ := enable_bind_eq_fault.mp ha
      obtain ⟨p', hp', -⟩ := exec_interrupted hfd hw' hpoll
      cases hp'.symm.trans ha
    | loop a =>
      obtain ⟨-, ha⟩ := enable_bind_eq_fault.mp ha
      have hinv := Effects.reachable_inv (Loop.run_sched hrun)
      cases hexec : Loop.exec s.loop a with
      | ok t => rw [hexec] at ha; cases ha
      | error halt =>
        rw [hexec] at ha
        cases halt with
        | disabled => cases ha
        | fault e' => exact loop_no_fault hinv a e' hexec
  · obtain ⟨p', hp', -, hperm⟩ := exec_poll hfd hw' hpoll order
    exact ⟨called p', _, hp', rfl, hperm⟩

/-- A functor is queued and its eventfd written while the scheduler is blocked. -/
def requested : List Act :=
  [.loop .start, .loop .test, .loop (.sched (.clientCancel 1 ⟨16, 1⟩)), .loop (.writeEventfd 1)]

/-- The descriptors. -/
def fds : Channel → ℕ
  | .timerfd => 4
  | .eventfd => 5

theorem fds_injective : Function.Injective fds := by
  intro c d h
  cases c <;> cases d <;> first | rfl | cases h

theorem refines_loop_requested : ∃ p, construct fds false = .ok p ∧
    let s := after (exec fds) ⟨Loop.initial, p⟩ requested
    (∃ l', List.Forall₂ Stands requested l' ∧ Run Loop.exec Loop.initial l' s.loop) ∧
    (∀ a e, exec fds s a ≠ .error (.fault e)) ∧
    ∀ order, s.loop.position = .poll → ∃ channels s', exec fds s (.poll order) = .ok s' ∧
      s'.loop = { s.loop with position := .dispatch channels } ∧
        channels.Perm ([.timerfd, .eventfd].filter s.loop.isReady) := by
  obtain ⟨p, hp, -⟩ := exists_construct fds_injective false
  exact ⟨p, hp, refines_loop fds_injective hp (run_after (l := requested) rfl)⟩

/-- **A request wakes the scheduler.** While the scheduler's thread is in `poll`, a functor that is
queued and has not been executed is followed by a `write_eventfd` of its thread, or else `poll`
returns with the callback of the eventfd's channel. -/
theorem request_wakes (hfd : Function.Injective fd) {usePoll : Bool}
    (hp : construct fd usePoll = .ok p) {l : List Act}
    (hr : Run (exec fd) ⟨Loop.initial, p⟩ l s) (hpoll : s.loop.position = .poll) {k : ℕ}
    (hk : k < s.loop.sched.pushed.length) (hran : s.loop.ran.length ≤ k) :
    Wakeup.Responsible s.loop k ∨ ∀ order, ∃ channels s', exec fd s (.poll order) = .ok s' ∧
      s'.loop.position = .dispatch channels ∧ .eventfd ∈ channels := by
  obtain ⟨q, hq, hw⟩ := exists_construct hfd usePoll
  cases hq.symm.trans hp
  obtain ⟨l', -, hrun, hw'⟩ := run_stands hfd hw hr
  have hinv := Wakeup.reachable_inv hrun
  have hfifo := Frames.reachable_fifo (Loop.run_sched hrun)
  have hidle : s.loop.sched.phase = .idle := hinv.idle (by rw [hpoll]; rfl)
  have hlen : s.loop.ran.length = s.loop.sched.executed := by
    rw [hinv.inOrder, List.length_take, Nat.min_eq_left hfifo.1]
  -- the functor is in `m_pendingFunctors`
  have hpending : s.loop.sched.pushed.length ≤ k + s.loop.sched.pendingFunctors.length := by
    have hqueue : s.loop.sched.pendingFunctors =
        s.loop.sched.pushed.drop s.loop.sched.executed := by
      rw [hfifo.2]
      unfold Ownership.queue
      rw [hidle]
      rfl
    rw [hqueue, List.length_drop]
    omega
  rcases hinv.announced (by rw [hpoll]; rfl) k hk hpending with heventfd | hresponsible
  · refine .inr fun order => ?_
    obtain ⟨p', hp', -, hperm⟩ := exec_poll hfd hw' hpoll order
    refine ⟨called p', _, hp', rfl, hperm.mem_iff.mpr (List.mem_filter.mpr ⟨?_, ?_⟩)⟩
    · exact List.mem_cons_of_mem _ List.mem_cons_self
    · exact decide_eq_true heventfd
  · exact .inl hresponsible

theorem request_wakes_requested : ∃ p, construct fds false = .ok p ∧
    let s := after (exec fds) ⟨Loop.initial, p⟩ requested
    Wakeup.Responsible s.loop 0 ∨ ∀ order, ∃ channels s', exec fds s (.poll order) = .ok s' ∧
      s'.loop.position = .dispatch channels ∧ .eventfd ∈ channels := by
  obtain ⟨p, hp, -⟩ := exists_construct fds_injective false
  have hk : (0 : ℕ) < 1 := Nat.one_pos
  exact ⟨p, hp, request_wakes fds_injective hp (run_after (l := requested) rfl) rfl hk
    (Nat.le_refl 0)⟩

end ToolsCxx.TimerScheduler.Reactor
