import ToolsCxx.Base.Timestamp
import ToolsCxx.Lib.Machine
import ToolsCxx.Lib.OrderedSet
import Mathlib.Data.Prod.Lex

/-! # `TimerScheduler`: the state and the operations

The members of `TimerScheduler`, the heap its `Timer`s live in, the timerfd, and the functions of
`TimerScheduler.cpp` on them. Every use of a `Timer*` goes through the heap and faults if the
`Timer` has been deleted; every `assert` of the source is a `check`.

A function that can be left and re-entered is cut at that point: `handle_event` into `handleEvent`
(up to its loop), `run` and `runDone` (one round of the loop), `callsDone`, `resetEntry` (one round
of the loop of `reset`) and `resetDone`; `handle_pending_functor` into `swapFunctors`, `runFunctor`
and `functorsDone`; `add_timer` on a foreign thread into `clientNew`, `clientPush` and
`clientReturn`. The last section puts them together as a machine.

A clock reading is an argument of the operation that takes it, and so is the address `new` returns.
-/

namespace ToolsCxx.TimerScheduler.Model

open ToolsCxx.Base ToolsCxx.Lib.Machine ToolsCxx.Lib.OrderedSet

/-! ### Timers and their keys -/

/-- An address; a `Timer*` is one. -/
abbrev Addr := ℕ

def nullptr : Addr := 0

/-- `UINTPTR_MAX`. -/
def uintptrMax : Addr := 2 ^ 64 - 1

/-- `Timer`. Its callback is the identity of the timer: what it does is up to the run. -/
structure Timer where
  expiration : Timestamp
  interval : ℚ
  repeated : Bool
  sequence : ℕ
  deriving DecidableEq

/-- `Timer::Timer`. -/
def Timer.new (when : Timestamp) (interval : ℚ) (sequence : ℕ) : Timer where
  expiration := when
  interval := interval
  repeated := decide (0 < interval)
  sequence := sequence

/-- `Timer::restart`. -/
def Timer.restart (t : Timer) (now : Timestamp) : Timer :=
  if t.repeated then { t with expiration := now.addTime t.interval }
  else { t with expiration := Timestamp.invalid }

theorem Timer.restart_of_repeated {t : Timer} (h : t.repeated = true) (now : Timestamp) :
    t.restart now = { t with expiration := now.addTime t.interval } := by
  unfold restart; rw [if_pos h]

/-- `TimerId`. -/
structure TimerId where
  timer : Addr
  sequence : ℕ

/-- `TimerEntry`, a pair ordered first by the time. -/
structure TimerEntry where
  expiration : Timestamp
  timer : Addr

/-- `ActiveTimerEntry`: the pair stored for a timer has the two fields of its `TimerId`. -/
abbrev ActiveTimerEntry := TimerId

instance : LinearOrder TimerEntry :=
  LinearOrder.lift' (fun e => toLex (e.expiration, e.timer)) fun a b h => by
    cases a; cases b; cases h; rfl

instance : LinearOrder TimerId :=
  LinearOrder.lift' (fun i => toLex (i.timer, i.sequence)) fun a b h => by
    cases a; cases b; cases h; rfl

theorem TimerEntry.lt_iff {a b : TimerEntry} : a < b ↔
    a.expiration < b.expiration ∨ a.expiration = b.expiration ∧ a.timer < b.timer :=
  Prod.Lex.toLex_lt_toLex

theorem TimerEntry.le_iff {a b : TimerEntry} : a ≤ b ↔
    a.expiration < b.expiration ∨ a.expiration = b.expiration ∧ a.timer ≤ b.timer :=
  Prod.Lex.toLex_le_toLex

abbrev TimerSet := OrdSet TimerEntry

abbrev ActiveTimerSet := OrdSet ActiveTimerEntry

/-- What `run_at`, `run_after` and `run_every` are called with. The last two read the clock. -/
inductive Request where
  | runAt (time : Timestamp)
  | runAfter (now : Timestamp) (delay : ℚ)
  | runEvery (now : Timestamp) (interval : ℚ)
  deriving DecidableEq

/-- The expiration they pass to `add_timer`. -/
def Request.when : Request → Timestamp
  | .runAt time => time
  | .runAfter now delay => now.addTime delay
  | .runEvery now interval => now.addTime interval

/-- The interval they pass to `add_timer`. -/
def Request.interval : Request → ℚ
  | .runAt _ => 0
  | .runAfter _ _ => 0
  | .runEvery _ interval => interval

/-- A queued call: what `std::bind` makes of `insert` or `cancel_timer` and its argument. -/
inductive Functor where
  | insert (timer : Addr)
  | cancelTimer (timerId : TimerId)
  deriving DecidableEq

/-! ### The timerfd -/

/-- The timerfd: a one-shot alarm. -/
inductive Timerfd where
  | disarmed
  | armed (deadline : Timestamp)
  | readable (deadline : Timestamp)
  deriving DecidableEq

/-- `struct timespec`. -/
structure Timespec where
  tvSec : ℤ
  tvNsec : ℤ
  deriving DecidableEq

/-- `get_time_from_now`, the clock showing `now`. -/
def getTimeFromNow (when now : Timestamp) : Timespec :=
  let microseconds := when.getDifference now
  let microseconds := if microseconds < 100 then 100 else microseconds
  { tvSec := microseconds.tdiv Timestamp.kmicrosecondsPerSecond
    tvNsec := microseconds.tmod Timestamp.kmicrosecondsPerSecond * 1000 }

/-- `timerfd_settime` with a relative `it_value` and no interval: zero disarms. -/
def timerfdSettime (itValue : Timespec) (now : Timestamp) : Timerfd :=
  if itValue = ⟨0, 0⟩ then .disarmed
  else .armed (now + itValue.tvSec * Timestamp.kmicrosecondsPerSecond + itValue.tvNsec.tdiv 1000)

/-- `read_timerfd`: an expired alarm is consumed; otherwise the read fails and is logged. -/
def readTimerfd : Timerfd → Timerfd
  | .disarmed => .disarmed
  | .armed deadline => .armed deadline
  | .readable _ => .disarmed

/-! ### The state -/

/-- Where the scheduler's thread is. -/
inductive Phase where
  /-- outside `handle_event` and `handle_pending_functor` -/
  | idle
  /-- in the loop of `handle_event`, after the calls `called`; `running` inside the last of them -/
  | calling (now : Timestamp) (called rest : List TimerEntry) (running : Bool)
  /-- in the loop of `reset` -/
  | resetting (now : Timestamp) (rest : List TimerEntry)
  /-- in the loop of `handle_pending_functor` -/
  | draining (functors : List Functor)
  deriving DecidableEq

/-- An `add_timer` call of a foreign thread. -/
inductive AddCall where
  | none
  /-- after `new Timer` -/
  | created (timer : Addr) (sequence : ℕ)
  /-- after the insertion has been queued -/
  | pushed (timer : Addr) (sequence : ℕ)
  deriving DecidableEq

/-- A callback that was started: the entry of the batch, and the timer found there. -/
structure Invocation where
  entry : TimerEntry
  sequence : ℕ
  repeated : Bool

/-- A call of `reset_timerfd`, and the clock reading it took. -/
structure Arming where
  expiration : Timestamp
  now : Timestamp
  deriving DecidableEq

structure State where
  -- the members of `TimerScheduler`
  timers : TimerSet
  activeTimers : ActiveTimerSet
  cancelingTimers : ActiveTimerSet
  callingExpiredTimer : Bool
  pendingFunctors : List Functor
  -- the timerfd, the heap, and `Timer::m_sNumCreated`
  timerfd : Timerfd
  heap : Addr → Option Timer
  numCreated : ℕ
  -- control
  phase : Phase
  calls : ℕ → AddCall
  -- history: the ids returned and the sequences of the timers they were returned for, the functors
  -- queued and how many of them have been executed, the callbacks started, the armings
  returned : List (TimerId × ℕ)
  pushed : List Functor
  executed : ℕ
  invoked : List Invocation
  armings : List Arming

/-- The state after the constructor. -/
def initial : State where
  timers := ∅
  activeTimers := ∅
  cancelingTimers := ∅
  callingExpiredTimer := false
  pendingFunctors := []
  timerfd := .disarmed
  heap := fun _ => none
  numCreated := 0
  phase := .idle
  calls := fun _ => .none
  returned := []
  pushed := []
  executed := 0
  invoked := []
  armings := []

/-- What can go wrong. -/
inductive Fault where
  /-- an `assert` fails -/
  | assertion
  /-- a deleted `Timer` is used -/
  | useAfterFree
  /-- a deleted `Timer` is deleted -/
  | doubleFree
  deriving DecidableEq, Repr

abbrev Result (α : Type) := Except (Halt Fault) α

/-! ### The heap -/

/-- The `Timer` at an address. -/
def deref (timer : Addr) (s : State) : Result Timer :=
  match s.heap timer with
  | some t => .ok t
  | none => .error (.fault .useAfterFree)

/-- `delete`. -/
def delete (timer : Addr) (s : State) : Result State :=
  match s.heap timer with
  | some _ => .ok { s with heap := Function.update s.heap timer none }
  | none => .error (.fault .doubleFree)

/-- `new Timer`: the allocator returns any address that is free. -/
def newTimer (timer : Addr) (request : Request) (s : State) : Result State := do
  enable (s.heap timer = none ∧ timer ≠ nullptr ∧ timer < uintptrMax)
  return { s with
    heap := Function.update s.heap timer
      (some (Timer.new request.when request.interval (s.numCreated + 1)))
    numCreated := s.numCreated + 1 }

/-! ### The operations -/

/-- `reset_timerfd`. -/
def resetTimerfd (expiration now : Timestamp) (s : State) : State :=
  { s with
    timerfd := timerfdSettime (getTimeFromNow expiration now) now
    armings := ⟨expiration, now⟩ :: s.armings }

/-- `iter == m_timers.end() || when < iter->first`, with `iter` the first entry. -/
def isEarliest (when : Timestamp) (timers : TimerSet) : Bool :=
  match timers.begin? with
  | none => true
  | some entry => when < entry.expiration

/-- The timerfd is armed for a timer that will be the first one. -/
def armIfEarliest (when clock : Timestamp) (s : State) : State :=
  if isEarliest when s.timers then resetTimerfd when clock s else s

/-- `insert`. -/
def insertTimer (timer : Addr) (clock : Timestamp) (s : State) : Result State := do
  check (s.timers.size = s.activeTimers.size) .assertion
  let t ← deref timer s
  let s := armIfEarliest t.expiration clock s
  check (⟨t.expiration, timer⟩ ∉ s.timers) .assertion
  let s := { s with timers := s.timers.insert ⟨t.expiration, timer⟩ }
  check (⟨timer, t.sequence⟩ ∉ s.activeTimers) .assertion
  let s := { s with activeTimers := s.activeTimers.insert ⟨timer, t.sequence⟩ }
  check (s.timers.size = s.activeTimers.size) .assertion
  return s

/-- `cancel_timer`. -/
def cancelTimer (timerId : TimerId) (s : State) : Result State := do
  check (s.timers.size = s.activeTimers.size) .assertion
  let s ←
    if timerId ∈ s.activeTimers then do
      let t ← deref timerId.timer s
      let s := { s with timers := s.timers.erase ⟨t.expiration, timerId.timer⟩ }
      let s ← delete timerId.timer s
      pure { s with activeTimers := s.activeTimers.erase timerId }
    else if s.callingExpiredTimer then
      pure { s with cancelingTimers := s.cancelingTimers.insert timerId }
    else
      pure s
  check (s.timers.size = s.activeTimers.size) .assertion
  return s

/-- The loop of `get_expired`: the entries of the batch leave `m_activeTimers`. -/
def eraseActive (expired : List TimerEntry) (s : State) : Result State :=
  expired.foldlM (fun s entry => do
    let t ← deref entry.timer s
    return { s with activeTimers := s.activeTimers.erase ⟨entry.timer, t.sequence⟩ }) s

/-- `get_expired`. -/
def getExpired (now : Timestamp) (s : State) : Result (List TimerEntry × State) := do
  check (s.timers.size = s.activeTimers.size) .assertion
  let sentry : TimerEntry := ⟨now, uintptrMax⟩
  check (isEarliest now (s.timers.above sentry)) .assertion
  let expired := s.timers.below sentry
  let s ← eraseActive expired { s with timers := s.timers.above sentry }
  check (s.timers.size = s.activeTimers.size) .assertion
  return (expired, s)

/-- `handle_event`, up to its loop. -/
def handleEvent (now : Timestamp) (s : State) : Result State := do
  enable (s.phase = .idle)
  let s := { s with timerfd := readTimerfd s.timerfd }
  let (expired, s) ← getExpired now s
  return { s with
    callingExpiredTimer := true
    cancelingTimers := ∅
    phase := .calling now [] expired false }

/-- `timerEntry.second->run()`, up to the start of the callback. -/
def run (s : State) : Result State :=
  match s.phase with
  | .calling now called (entry :: rest) false => do
    let t ← deref entry.timer s
    return { s with
      phase := .calling now (called ++ [entry]) rest true
      invoked := s.invoked ++ [⟨entry, t.sequence, t.repeated⟩] }
  | _ => .error .disabled

/-- The callback returns. -/
def runDone (s : State) : Result State :=
  match s.phase with
  | .calling now called rest true => .ok { s with phase := .calling now called rest false }
  | _ => .error .disabled

/-- The loop of `handle_event` ends, and `reset` begins. -/
def callsDone (s : State) : Result State :=
  match s.phase with
  | .calling now called [] false =>
    .ok { s with callingExpiredTimer := false, phase := .resetting now called }
  | _ => .error .disabled

/-- One round of the loop of `reset`. -/
def resetEntry (clock : Timestamp) (s : State) : Result State :=
  match s.phase with
  | .resetting now (entry :: rest) => do
    let s := { s with phase := .resetting now rest }
    let t ← deref entry.timer s
    if t.repeated ∧ (⟨entry.timer, t.sequence⟩ : ActiveTimerEntry) ∉ s.cancelingTimers then
      insertTimer entry.timer clock
        { s with heap := Function.update s.heap entry.timer (some (t.restart now)) }
    else
      delete entry.timer s
  | _ => .error .disabled

/-- `newExpire`, the expiration `reset` arms the timerfd for. -/
def newExpire (s : State) : Result Timestamp :=
  match s.timers.begin? with
  | none => .ok Timestamp.invalid
  | some entry => do
    let t ← deref entry.timer s
    return t.expiration

/-- The end of `reset`. -/
def resetDone (clock : Timestamp) (s : State) : Result State :=
  match s.phase with
  | .resetting _ [] => do
    let s := { s with phase := .idle }
    let newExpire ← newExpire s
    return if newExpire.isValid then resetTimerfd newExpire clock s else s
  | _ => .error .disabled

/-- `handle_pending_functor`, up to its loop. -/
def swapFunctors (s : State) : Result State := do
  enable (s.phase = .idle)
  return { s with phase := .draining s.pendingFunctors, pendingFunctors := [] }

/-- One round of its loop. -/
def runFunctor (clock : Timestamp) (s : State) : Result State :=
  match s.phase with
  | .draining (functor :: functors) =>
    let s := { s with phase := .draining functors, executed := s.executed + 1 }
    match functor with
    | .insert timer => insertTimer timer clock s
    | .cancelTimer timerId => cancelTimer timerId s
  | _ => .error .disabled

/-- Its end. -/
def functorsDone (s : State) : Result State :=
  match s.phase with
  | .draining [] => .ok { s with phase := .idle }
  | _ => .error .disabled

/-! ### The calls of the clients -/

/-- `m_pendingFunctors.push_back`, under the mutex. -/
def pushFunctor (functor : Functor) (s : State) : State :=
  { s with
    pendingFunctors := s.pendingFunctors ++ [functor]
    pushed := s.pushed ++ [functor] }

/-- The code of the owner runs on the scheduler's thread outside `start` and inside a callback. -/
def Phase.userCode : Phase → Bool
  | .idle => true
  | .calling _ _ _ running => running
  | _ => false

/-- `add_timer` on the scheduler's thread, returning `timerId`. -/
def addTimer (timerId : TimerId) (request : Request) (clock : Timestamp) (s : State) :
    Result State := do
  enable (s.phase.userCode ∧ timerId.sequence = s.numCreated + 1)
  let s ← newTimer timerId.timer request s
  let s ← insertTimer timerId.timer clock s
  return { s with returned := (timerId, timerId.sequence) :: s.returned }

/-- `cancel` on the scheduler's thread. -/
def cancel (timerId : TimerId) (s : State) : Result State := do
  enable s.phase.userCode
  cancelTimer timerId s

/-- `add_timer` on the foreign thread `c`: `new Timer`. -/
def clientNew (c : ℕ) (timer : Addr) (request : Request) (s : State) : Result State := do
  enable (s.calls c = .none)
  let s ← newTimer timer request s
  return { s with calls := Function.update s.calls c (.created timer s.numCreated) }

/-- The insertion is queued. -/
def clientPush (c : ℕ) (s : State) : Result State :=
  match s.calls c with
  | .created timer sequence =>
    .ok { pushFunctor (.insert timer) s with
      calls := Function.update s.calls c (.pushed timer sequence) }
  | _ => .error .disabled

/-- `return TimerId(timer, timer->get_sequence())`. The `Timer` may have been deleted by now, and
the value read is then arbitrary. -/
def clientReturn (c : ℕ) (timerId : TimerId) (s : State) : Result State :=
  match s.calls c with
  | .pushed timer sequence => do
    enable (timerId.timer = timer ∧ ∀ t ∈ s.heap timer, timerId.sequence = t.sequence)
    return { s with
      calls := Function.update s.calls c .none
      returned := (timerId, sequence) :: s.returned }
  | _ => .error .disabled

/-- `cancel` on the foreign thread `c`. -/
def clientCancel (c : ℕ) (timerId : TimerId) (s : State) : Result State := do
  enable (s.calls c = .none)
  return pushFunctor (.cancelTimer timerId) s

/-! ### The environment -/

/-- The alarm goes off. -/
def expire (clock : Timestamp) (s : State) : Result State :=
  match s.timerfd with
  | .armed deadline => do
    enable (deadline ≤ clock)
    return { s with timerfd := .readable deadline }
  | _ => .error .disabled

/-- Another scheduler of the process creates a `Timer`. -/
def otherNew (s : State) : Result State := .ok { s with numCreated := s.numCreated + 1 }

/-! ### The machine -/

/-- The actions: of the scheduler's thread, of the foreign threads, of the environment. -/
inductive Act where
  | addTimer (timerId : TimerId) (request : Request) (clock : Timestamp)
  | cancel (timerId : TimerId)
  | handleEvent (now : Timestamp)
  | run
  | runDone
  | callsDone
  | resetEntry (clock : Timestamp)
  | resetDone (clock : Timestamp)
  | swapFunctors
  | runFunctor (clock : Timestamp)
  | functorsDone
  | clientNew (c : ℕ) (timer : Addr) (request : Request)
  | clientPush (c : ℕ)
  | clientReturn (c : ℕ) (timerId : TimerId)
  | clientCancel (c : ℕ) (timerId : TimerId)
  | expire (clock : Timestamp)
  | otherNew
  deriving DecidableEq

/-- What an action does. -/
def exec (s : State) : Act → Result State
  | .addTimer timerId request clock => addTimer timerId request clock s
  | .cancel timerId => cancel timerId s
  | .handleEvent now => handleEvent now s
  | .run => run s
  | .runDone => runDone s
  | .callsDone => callsDone s
  | .resetEntry clock => resetEntry clock s
  | .resetDone clock => resetDone clock s
  | .swapFunctors => swapFunctors s
  | .runFunctor clock => runFunctor clock s
  | .functorsDone => functorsDone s
  | .clientNew c timer request => clientNew c timer request s
  | .clientPush c => clientPush c s
  | .clientReturn c timerId => clientReturn c timerId s
  | .clientCancel c timerId => clientCancel c timerId s
  | .expire clock => expire clock s
  | .otherNew => otherNew s

end ToolsCxx.TimerScheduler.Model
