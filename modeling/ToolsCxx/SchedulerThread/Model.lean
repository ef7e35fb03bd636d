import ToolsCxx.Lib.Machine
import Mathlib.Logic.Function.Basic

/-! # `TimerSchedulerThread` and `CoSchedulerThread`: the state and the operations

The two classes run a scheduler in a thread of its own. They differ in how their `start` returns
`m_scheduler`, and in the `quit` of their schedulers (`Kind`). The threads are the owner, which
calls `start`, uses the scheduler and at last runs the destructor, the worker in `thread_func`, and
clients, to which the owner has passed the pointer.

Of the scheduler the state has what the life of the thread depends on: whether the object exists,
and `m_quit`. The body of its loop is one step, in which a timer's callback or a coroutine may have
called `quit` before (`Act.callback`). -/

namespace ToolsCxx.SchedulerThread.Model

open ToolsCxx.Lib.Machine

/-! ### The state -/

/-- The two classes. -/
inductive Kind where
  | timer
  | co
  deriving DecidableEq

/-- A thread other than the worker, in the scheduler's `quit`. -/
inductive Quit where
  /-- at `m_quit = true` -/
  | set
  /-- at `!is_in_timerQueue_thread()` -/
  | tid
  /-- at `write_eventfd()` -/
  | write
  deriving DecidableEq

/-- The owner. -/
inductive Owner where
  /-- the object has been constructed -/
  | idle
  /-- at `m_thread.reset(new std::thread(..))` -/
  | create
  /-- at `std::unique_lock<std::mutex> ul(m_mutex)` -/
  | lock
  /-- at `m_scheduler == nullptr`, in `start` -/
  | test
  /-- at `m_cond.wait(ul)` -/
  | wait
  /-- blocked in it -/
  | waiting
  /-- woken, and not holding the mutex yet -/
  | woken
  /-- at `s = m_scheduler` -/
  | copy
  /-- at the end of the block -/
  | unlock
  /-- at `return m_scheduler` -/
  | read
  /-- `start` has returned -/
  | free
  /-- in `quit`, called by the destructor if `dtor` -/
  | quitting (pc : Quit) (dtor : Bool)
  /-- at `m_scheduler != nullptr`, in the destructor -/
  | dtor
  /-- at `m_thread->join()` -/
  | join
  | done
  deriving DecidableEq

/-- The worker, in `thread_func`. -/
inductive Worker where
  /-- not created -/
  | unborn
  /-- at the construction of `s` -/
  | construct
  /-- at `std::unique_lock<std::mutex> ul(m_mutex)` -/
  | lock
  /-- at `m_scheduler = &s` -/
  | publish
  /-- at the end of the block -/
  | unlock
  /-- at `m_cond.notify_one()` -/
  | notify
  /-- at `m_quit = false`, in `s.start()` -/
  | clear
  /-- at `while(!m_quit)` -/
  | test
  /-- in the body of the loop -/
  | body
  /-- at the destruction of `s` -/
  | destroy
  | exited
  deriving DecidableEq

/-- Another thread. -/
inductive Client where
  /-- it does not have the pointer -/
  | none
  | idle
  | quitting (pc : Quit)
  deriving DecidableEq

/-- The threads that lock `m_mutex`. -/
inductive Thread where
  | owner
  | worker
  deriving DecidableEq

structure State where
  /-- `m_scheduler` is not null: it is the address of the worker's `s` -/
  scheduler : Bool
  mutex : Option Thread
  /-- `s` has been constructed and not been destroyed -/
  alive : Bool
  /-- `m_quit` of `s` -/
  quit : Bool
  owner : Owner
  worker : Worker
  clients : ℕ → Client

/-- The state after the constructor. -/
def initial : State where
  scheduler := false
  mutex := none
  alive := false
  quit := false
  owner := .idle
  worker := .unborn
  clients _ := .none

/-- What can go wrong. -/
inductive Fault where
  /-- the scheduler that is used does not exist -/
  | destroyed
  deriving DecidableEq, Repr

abbrev Result (α : Type) := Except (Halt Fault) α

/-! ### `quit` -/

/-- `quit`: the step at `pc`. -/
def quitStep (pc : Quit) (s : State) : Result State := do
  check (s.alive = true) .destroyed
  return match pc with
    | .set => { s with quit := true }
    | .tid | .write => s

/-- The step after it: `CoScheduler::quit` has only one. -/
def Quit.next (k : Kind) : Quit → Option Quit
  | .set => match k with
    | .timer => some .tid
    | .co => none
  | .tid => some .write
  | .write => none

/-! ### The owner -/

/-- `start` and the destructor: the next step of the owner. -/
def ownerStep (k : Kind) (s : State) : Result State :=
  match s.owner with
  | .create => .ok { s with owner := .lock, worker := .construct }
  | .lock | .woken => do
    enable (s.mutex = none)
    return { s with mutex := some .owner, owner := .test }
  | .test =>
    if s.scheduler then
      match k with
      | .timer => .ok { s with owner := .unlock }
      | .co => .ok { s with owner := .copy }
    else .ok { s with owner := .wait }
  | .wait => .ok { s with mutex := none, owner := .waiting }
  | .copy => .ok { s with owner := .unlock }
  | .unlock =>
    match k with
    | .timer => .ok { s with mutex := none, owner := .read }
    | .co => .ok { s with mutex := none, owner := .free }
  | .read => .ok { s with owner := .free }
  | .quitting pc dtor => do
    let s ← quitStep pc s
    match pc.next k with
    | some pc' => return { s with owner := .quitting pc' dtor }
    | none => return { s with owner := if dtor then .join else .free }
  | .dtor => .ok { s with owner := if s.scheduler then .quitting .set true else .done }
  | .join => do
    enable (s.worker = .exited)
    return { s with owner := .done }
  | .idle | .waiting | .free | .done => .error .disabled

/-- What the owner calls. -/
inductive Call where
  | start
  /-- `quit` of the scheduler -/
  | quit
  /-- another function of the scheduler; it does not touch `m_quit` -/
  | use
  /-- the destructor -/
  | dtor
  deriving DecidableEq

/-- A call by the owner. -/
def ownerCall (c : Call) (s : State) : Result State :=
  match s.owner, c with
  | .idle, .start => .ok { s with owner := .create }
  | .idle, .dtor | .free, .dtor => .ok { s with owner := .dtor }
  | .free, .quit => .ok { s with owner := .quitting .set false }
  | .free, .use => do
    check (s.alive = true) .destroyed
    return s
  | _, _ => .error .disabled

/-! ### The worker -/

/-- `thread_func`: the next step of the worker. -/
def threadFunc (s : State) : Result State :=
  match s.worker with
  | .construct => .ok { s with alive := true, quit := false, worker := .lock }
  | .lock => do
    enable (s.mutex = none)
    return { s with mutex := some .worker, worker := .publish }
  | .publish => .ok { s with scheduler := true, worker := .unlock }
  | .unlock => .ok { s with mutex := none, worker := .notify }
  | .notify =>
    .ok { s with owner := if s.owner = .waiting then .woken else s.owner, worker := .clear }
  | .clear => .ok { s with quit := false, worker := .test }
  | .test => .ok { s with worker := if s.quit then .destroy else .body }
  | .body => .ok { s with worker := .test }
  | .destroy => .ok { s with alive := false, worker := .exited }
  | .unborn | .exited => .error .disabled

/-! ### The machine -/

/-- The actions. -/
inductive Act where
  /-- the next step of the owner, and a call by it -/
  | owner
  | call (c : Call)
  /-- the owner wakes up by itself -/
  | spurious
  /-- the next step of the worker -/
  | worker
  /-- a timer's callback or a coroutine calls `quit`, on the worker's thread -/
  | callback
  /-- the owner passes the pointer to a client; the client calls `quit`, and its next step -/
  | share (c : ℕ)
  | clientQuit (c : ℕ)
  | client (c : ℕ)
  deriving DecidableEq

/-- What an action does. -/
def exec (k : Kind) (s : State) : Act → Result State
  | .owner => ownerStep k s
  | .call c => ownerCall c s
  | .spurious => do
    enable (s.owner = .waiting)
    return { s with owner := .woken }
  | .worker => threadFunc s
  | .callback => do
    enable (s.worker = .body)
    return { s with quit := true }
  | .share c => do
    enable (s.owner = .free)
    enable (s.clients c = .none)
    return { s with clients := Function.update s.clients c .idle }
  | .clientQuit c => do
    enable (s.clients c = .idle)
    return { s with clients := Function.update s.clients c (.quitting .set) }
  | .client c =>
    match s.clients c with
    | .quitting pc => do
      let s ← quitStep pc s
      match pc.next k with
      | some pc' => return { s with clients := Function.update s.clients c (.quitting pc') }
      | none => return { s with clients := Function.update s.clients c .idle }
    | .none | .idle => .error .disabled

end ToolsCxx.SchedulerThread.Model
