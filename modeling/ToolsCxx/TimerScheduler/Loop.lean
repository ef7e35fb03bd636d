import ToolsCxx.TimerScheduler.Frames

/-! # `TimerScheduler`: the loop of `start`, and the eventfd

The machine of `Model`, with the loop of `start` around it: where the scheduler's thread is in the
loop, `m_quit`, the counter of the eventfd, and the foreign threads between their request and its
`write_eventfd`. An action of `Model` is taken only where `start` takes it (`allowed`); the actions
of this machine, without the new ones, are a run of the machine of `Model` (`run_sched`). -/

namespace ToolsCxx.TimerScheduler.Loop

open ToolsCxx.Lib.Machine
open ToolsCxx.TimerScheduler.Model (Addr TimerId Functor Fault Result Phase)
open ToolsCxx.TimerScheduler.Effects ToolsCxx.TimerScheduler.Frames

/-! ### The state -/

/-- The two channels of the scheduler. -/
inductive Channel where
  | timerfd
  | eventfd
  deriving DecidableEq

/-- Where the scheduler's thread is. -/
inductive Position where
  | outside
  /-- at the condition of the loop -/
  | test
  /-- blocked in `poll` -/
  | poll
  /-- before the `handle_event` of the first of the channels, or inside one -/
  | dispatch (channels : List Channel)
  /-- in `handle_pending_functor` -/
  | functors
  deriving DecidableEq

/-- A foreign thread between a request and its `write_eventfd`. -/
inductive Client where
  | idle
  /-- it has queued the functor number `k` -/
  | pushed (k : ℕ)
  /-- it has set `m_quit` -/
  | quitting
  deriving DecidableEq

structure State where
  sched : Model.State
  quit : Bool
  eventfd : ℕ
  position : Position
  clients : ℕ → Client
  -- history: the functors executed, the threads that queued the functors, and those that have set
  -- `m_quit` since `start` has cleared it
  ran : List Functor
  pushers : List ℕ
  quitters : List ℕ

/-- The state after the constructor. -/
def initial : State where
  sched := Model.initial
  quit := false
  eventfd := 0
  position := .outside
  clients := fun _ => .idle
  ran := []
  pushers := []
  quitters := []

/-- The scheduler's thread is outside `start`, or in a callback. -/
def State.userCode (s : State) : Bool :=
  match s.sched.phase with
  | .calling _ _ _ running => running
  | _ => s.position = .outside

/-- `poll` reports the channel. -/
def State.isReady (s : State) : Channel → Bool
  | .timerfd =>
    match s.sched.timerfd with
    | .readable _ => true
    | _ => false
  | .eventfd => 0 < s.eventfd

/-! ### The new actions -/

/-- `start`, up to its loop. -/
def start (s : State) : Except (Halt Fault) State := do
  enable (s.position = .outside)
  return { s with quit := false, position := .test, quitters := [] }

/-- `while(!m_quit)`. -/
def test (s : State) : Except (Halt Fault) State := do
  enable (s.position = .test)
  return { s with position := if s.quit then .outside else .poll }

/-- `poll` returns the channels that are ready, in any order; or none, because of the time or of a
signal. -/
def poll (ready : List Channel) (s : State) : Except (Halt Fault) State := do
  enable (s.position = .poll ∧
    (ready = [] ∨ ready.Perm ([.timerfd, .eventfd].filter s.isReady)))
  return { s with position := .dispatch ready }

/-- The `handle_event` of the eventfd's channel: `read_eventfd`. -/
def readEventfd (s : State) : Except (Halt Fault) State :=
  match s.position with
  | .dispatch (.eventfd :: channels) => do
    enable (s.sched.phase = .idle)
    return { s with eventfd := 0, position := .dispatch channels }
  | _ => .error .disabled

/-- `quit` on the scheduler's thread. -/
def quit (s : State) : Except (Halt Fault) State := do
  enable s.userCode
  return { s with quit := true }

/-- `quit` on the foreign thread `c`, up to its `write_eventfd`. -/
def clientQuit (c : ℕ) (s : State) : Except (Halt Fault) State := do
  enable (s.clients c = .idle ∧ s.sched.calls c = .none)
  return { s with
    quit := true
    clients := Function.update s.clients c .quitting
    quitters := s.quitters ++ [c] }

/-- `write_eventfd` on the foreign thread `c`. -/
def writeEventfd (c : ℕ) (s : State) : Except (Halt Fault) State := do
  enable (s.clients c ≠ .idle)
  return { s with
    eventfd := s.eventfd + 1
    clients := Function.update s.clients c .idle }

/-! ### The actions of `Model` -/

/-- Where the thread must be for an action. -/
def allowed (s : State) : Model.Act → Prop
  | .addTimer .. | .cancel .. => s.userCode
  | .handleEvent .. => ∃ channels, s.position = .dispatch (.timerfd :: channels)
  | .swapFunctors => s.position = .dispatch []
  | .runFunctor .. | .functorsDone => s.position = .functors
  | .clientNew c .. | .clientPush c | .clientReturn c .. | .clientCancel c .. => s.clients c = .idle
  | _ => True

instance (s : State) (a : Model.Act) : Decidable (allowed s a) :=
  match a with
  | .handleEvent _ =>
    match h : s.position with
    | .dispatch (.timerfd :: channels) => .isTrue ⟨channels, h⟩
    | .dispatch [] | .dispatch (.eventfd :: _) | .outside | .test | .poll | .functors =>
      .isFalse fun ⟨_, h'⟩ => nomatch h.symm.trans h'
  | .addTimer .. | .cancel .. => inferInstanceAs (Decidable (s.userCode = true))
  | .swapFunctors => inferInstanceAs (Decidable (s.position = .dispatch []))
  | .runFunctor .. | .functorsDone => inferInstanceAs (Decidable (s.position = .functors))
  | .clientNew c .. | .clientPush c | .clientReturn c .. | .clientCancel c .. =>
    inferInstanceAs (Decidable (s.clients c = .idle))
  | .run | .runDone | .callsDone | .resetEntry .. | .resetDone .. | .expire .. | .otherNew =>
    .isTrue trivial

/-- The foreign thread `c` has queued a functor. -/
def hasPushed (c : ℕ) (s : State) : State :=
  { s with
    clients := Function.update s.clients c (.pushed s.pushers.length)
    pushers := s.pushers ++ [c] }

/-- What an action means to the loop. -/
def follow (s : State) : Model.Act → State
  | .handleEvent .. =>
    match s.position with
    | .dispatch (_ :: channels) => { s with position := .dispatch channels }
    | _ => s
  | .swapFunctors => { s with position := .functors }
  | .runFunctor .. =>
    match s.sched.phase with
    | .draining (functor :: _) => { s with ran := s.ran ++ [functor] }
    | _ => s
  | .functorsDone => { s with position := .test }
  | .clientPush c | .clientCancel c .. => hasPushed c s
  | _ => s

/-- An action of `Model`. -/
def sched (a : Model.Act) (s : State) : Except (Halt Fault) State := do
  enable (allowed s a)
  let t ← Model.exec s.sched a
  return { follow s a with sched := t }

/-! ### The machine -/

inductive Act where
  | start
  | test
  | poll (ready : List Channel)
  | readEventfd
  | quit
  | clientQuit (c : ℕ)
  | writeEventfd (c : ℕ)
  | sched (a : Model.Act)
  deriving DecidableEq

/-- What an action does. -/
def exec (s : State) : Act → Except (Halt Fault) State
  | .start => start s
  | .test => test s
  | .poll ready => poll ready s
  | .readEventfd => readEventfd s
  | .quit => quit s
  | .clientQuit c => clientQuit c s
  | .writeEventfd c => writeEventfd c s
  | .sched a => sched a s

/-! ### The machine of `Model` -/

/-- The action of `Model` that an action is. -/
def Act.model? : Act → Option Model.Act
  | .sched a => some a
  | _ => none

/-- The actions of the loop leave the members that `Model` has as they are. -/
theorem exec_model {s s' : State} {a : Act} (ha : exec s a = .ok s') :
    (a.model? = none ∧ s'.sched = s.sched) ∨
    ∃ b, a = .sched b ∧ allowed s b ∧ Model.exec s.sched b = .ok s'.sched ∧
      s' = { follow s b with sched := s'.sched } := by
  cases a with
  | start | test | poll | quit | clientQuit | writeEventfd =>
    obtain ⟨-, ha⟩ := enable_bind_eq_ok.mp ha
    cases ha
    exact .inl ⟨rfl, rfl⟩
  | readEventfd =>
    simp only [exec, readEventfd] at ha
    split at ha
    · obtain ⟨-, ha⟩ := enable_bind_eq_ok.mp ha
      cases ha
      exact .inl ⟨rfl, rfl⟩
    · cases ha
  | sched b =>
    obtain ⟨hal, ha⟩ := enable_bind_eq_ok.mp ha
    obtain ⟨t, hb, ha⟩ := bind_eq_ok.mp ha
    cases ha
    exact .inr ⟨b, rfl, hal, hb, rfl⟩

/-- **The loop refines the machine of `Model`.** -/
theorem run_sched {s : State} {l : List Act} (h : Run exec initial l s) :
    Run Model.exec Model.initial (l.filterMap Act.model?) s.sched := by
  refine Run.induction
    (P := fun l s => Run Model.exec Model.initial (l.filterMap Act.model?) s.sched)
    (run_nil.mpr rfl) ?_ h
  intro l t a t' _ ih ha
  rw [List.filterMap_append]
  rcases exec_model ha with ⟨hnone, hsame⟩ | ⟨b, rfl, -, hb, -⟩
  · rw [List.filterMap_cons_none hnone, hsame, List.filterMap_nil, List.append_nil]
    exact ih
  · exact ih.trans (run_cons.mpr ⟨_, hb, run_nil.mpr rfl⟩)

end ToolsCxx.TimerScheduler.Loop
