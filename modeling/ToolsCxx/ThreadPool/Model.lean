import ToolsCxx.Base.Integers
import ToolsCxx.Lib.Machine
import Mathlib.Logic.Function.Basic

/-! # `ThreadPool`: the state and the operations

The members of `ThreadPool`, and the program counters of the threads that are in its functions: the
workers in `thread_func`, the thread that calls `start`, the callers of `call` and the callers of
`stop`, among them the destructor. A step of a thread is a read or a write of `m_stop` or
`m_runningNum`, an operation on `m_mutex` or `m_cond`, an operation of `m_latch`, which has a mutex
of its own, or a use of the queue inside the critical section.

`pthread_cond_wait` releases the mutex and blocks in one step; a wake-up, by a signal, the broadcast
or spuriously, makes the thread compete for the mutex again. -/

namespace ToolsCxx.ThreadPool.Model

open ToolsCxx.Base ToolsCxx.Lib.Machine

/-! ### The state -/

/-- The identity of a `Task`. -/
abbrev Task := ℕ

/-- A `pthread_t`. The value-initialised one is 0. -/
abbrev PthreadT := ℕ

/-- A worker in `thread_func`. Once it has a task it is the one dequeued as number `k`. -/
inductive Worker where
  /-- not created -/
  | unborn
  /-- at `pthread_mutex_lock` -/
  | lock
  /-- at `!pool->m_stop` -/
  | testStop
  /-- at `pool->m_taskQue.empty()` -/
  | testQueue
  /-- at `pool->m_latch.get_count() != 0` -/
  | getCount
  /-- at `pool->m_latch.count_down()` -/
  | countDown
  /-- at `pthread_cond_wait` -/
  | wait
  /-- blocked in it -/
  | waiting
  /-- woken, and not holding the mutex yet -/
  | woken
  /-- at `if(pool->m_stop)` -/
  | checkStop
  /-- at `pthread_mutex_unlock`, to leave the loop -/
  | unlockStop
  /-- at `front()` and `pop()` -/
  | dequeue
  /-- at `pthread_mutex_unlock`, with a task -/
  | unlock (k : ℕ) (task : Task)
  /-- at `++ pool->m_runningNum` -/
  | increment (k : ℕ) (task : Task)
  /-- at `task()` -/
  | start (k : ℕ) (task : Task)
  /-- in it -/
  | running
  /-- at `-- pool->m_runningNum` -/
  | decrement
  | exited
  deriving DecidableEq

/-- The thread in `start`. -/
inductive Starter where
  | idle
  /-- at the test of the loop -/
  | creating
  /-- at `m_threads.push_back` -/
  | pushing (ptid : PthreadT)
  /-- at `m_latch.wait()` -/
  | latch
  /-- blocked in it -/
  | latchWaiting
  | returned
  deriving DecidableEq

/-- A thread in `call`. -/
inductive Caller where
  | idle
  /-- at `pthread_mutex_lock` -/
  | lock (task : Task)
  /-- at `m_taskQue.push` -/
  | push (task : Task)
  /-- at `pthread_mutex_unlock` -/
  | unlock
  /-- at `pthread_cond_signal` -/
  | signal
  /-- at `if(m_runningNum == m_threadNum)` -/
  | warn
  deriving DecidableEq

/-- A thread in `stop`. -/
inductive Stopper where
  | idle
  /-- at `if(m_stop)` -/
  | test
  /-- at `m_stop = true` -/
  | set
  /-- at `pthread_cond_broadcast` -/
  | broadcast
  /-- at the beginning of the loop -/
  | loop
  /-- in the loop -/
  | joining (rest : List PthreadT)
  | done
  deriving DecidableEq

/-- The threads that lock `m_mutex`. -/
inductive Thread where
  | worker (i : ℕ)
  | caller (c : ℕ)
  deriving DecidableEq

structure State where
  -- the members of `ThreadPool`; `count` is that of `m_latch`
  threadNum : ℤ
  stop : Bool
  runningNum : ℤ
  count : ℤ
  threads : List PthreadT
  mutex : Option Thread
  taskQue : List Task
  -- the threads; the worker `i` is the one `start` creates as number `i`
  workers : ℕ → Worker
  starter : Starter
  callers : ℕ → Caller
  stoppers : ℕ → Stopper
  -- history: the threads created, the arguments of `pthread_join`, the tasks pushed, the tasks
  -- dequeued with their workers, the workers that started a task and its number, the warnings
  created : List PthreadT
  joined : List PthreadT
  pushed : List Task
  dequeued : List (ℕ × Task)
  started : List (ℕ × ℕ)
  warnings : ℕ

/-- The state after the constructor: `m_threads(numThreads)` has `numThreads` elements. -/
def initial (numThreads : ℕ) : State where
  threadNum := int32 numThreads
  stop := false
  runningNum := 0
  count := int32 numThreads
  threads := List.replicate numThreads 0
  mutex := none
  taskQue := []
  workers := fun _ => .unborn
  starter := .idle
  callers := fun _ => .idle
  stoppers := fun _ => .idle
  created := []
  joined := []
  pushed := []
  dequeued := []
  started := []
  warnings := 0

/-- What can go wrong. -/
inductive Fault where
  /-- `front` of an empty queue -/
  | emptyQueue
  deriving DecidableEq, Repr

abbrev Result (α : Type) := Except (Halt Fault) α

/-! ### The mutex and the condition -/

/-- `pthread_mutex_lock`. -/
def lock (t : Thread) (s : State) : Result State := do
  enable (s.mutex = none)
  return { s with mutex := some t }

/-- `pthread_mutex_unlock`. -/
def unlock (s : State) : State := { s with mutex := none }

/-- The worker goes on at `pc`. -/
def State.goto (s : State) (i : ℕ) (pc : Worker) : State :=
  { s with workers := Function.update s.workers i pc }

/-- A worker that is blocked is woken. -/
def Worker.wake : Worker → Worker
  | .waiting => .woken
  | pc => pc

/-- `pthread_cond_signal` wakes the blocked worker `target`, or none if none is blocked. -/
def signal (target : Option ℕ) (s : State) : Result State :=
  match target with
  | some i => do
    enable (s.workers i = .waiting)
    return s.goto i .woken
  | none => do
    enable (∀ i < s.created.length, s.workers i ≠ .waiting)
    return s

/-- `pthread_cond_broadcast`. -/
def broadcast (s : State) : State := { s with workers := fun i => (s.workers i).wake }

/-! ### `m_latch` -/

/-- `CountDownLatch::count_down`. -/
def countDown (s : State) : State :=
  { s with
    count := s.count - 1
    starter := if s.count - 1 = 0 ∧ s.starter = .latchWaiting then .latch else s.starter }

/-- `CountDownLatch::wait`: the test of its loop, and `m_cond.wait`. -/
def latchWait (s : State) : State :=
  { s with starter := if 0 < s.count then .latchWaiting else .returned }

/-! ### `thread_func` -/

/-- `thread_func`: the next step of the worker `i`. -/
def threadFunc (i : ℕ) (s : State) : Result State :=
  match s.workers i with
  | .lock => do
    let s ← lock (.worker i) s
    return s.goto i .testStop
  | .testStop => .ok (s.goto i (if s.stop then .checkStop else .testQueue))
  | .testQueue => .ok (s.goto i (if s.taskQue = [] then .getCount else .checkStop))
  | .getCount => .ok (s.goto i (if s.count ≠ 0 then .countDown else .wait))
  | .countDown => .ok ((countDown s).goto i .wait)
  | .wait => .ok ((unlock s).goto i .waiting)
  | .woken => do
    let s ← lock (.worker i) s
    return s.goto i .testStop
  | .checkStop => .ok (s.goto i (if s.stop then .unlockStop else .dequeue))
  | .unlockStop => .ok ((unlock s).goto i .exited)
  | .dequeue =>
    match s.taskQue with
    | [] => .error (.fault .emptyQueue)
    | task :: rest =>
      let k := s.dequeued.length
      .ok ({ s with taskQue := rest, dequeued := s.dequeued ++ [(i, task)] }.goto i
        (.unlock k task))
  | .unlock k task => .ok ((unlock s).goto i (.increment k task))
  | .increment k task => .ok ({ s with runningNum := s.runningNum + 1 }.goto i (.start k task))
  | .start k _ => .ok ({ s with started := s.started ++ [(i, k)] }.goto i .running)
  | .running => .ok (s.goto i .decrement)
  | .decrement => .ok ({ s with runningNum := s.runningNum - 1 }.goto i .lock)
  | .unborn | .waiting | .exited => .error .disabled

/-! ### `start` -/

/-- `start`: the next step. `pthread_create` returns an id that is not in use. -/
def start (ptid : PthreadT) (s : State) : Result State :=
  match s.starter with
  | .idle => .ok { s with starter := .creating }
  | .creating =>
    if s.created.length < s.threadNum then do
      enable (ptid ∉ s.created)
      return { s.goto s.created.length .lock with
        created := s.created ++ [ptid]
        starter := .pushing ptid }
    else .ok { s with starter := .latch }
  | .pushing ptid => .ok { s with threads := s.threads ++ [ptid], starter := .creating }
  | .latch => .ok (latchWait s)
  | .latchWaiting | .returned => .error .disabled

/-! ### `call` -/

/-- `call(task)`, by the thread `c`. -/
def call (c : ℕ) (task : Task) (s : State) : Result State := do
  enable (s.callers c = .idle)
  return { s with callers := Function.update s.callers c (.lock task) }

/-- `call`: the next step. -/
def callStep (c : ℕ) (target : Option ℕ) (s : State) : Result State :=
  match s.callers c with
  | .idle => .error .disabled
  | .lock task => do
    let s ← lock (.caller c) s
    return { s with callers := Function.update s.callers c (.push task) }
  | .push task =>
    .ok { s with
      taskQue := s.taskQue ++ [task]
      pushed := s.pushed ++ [task]
      callers := Function.update s.callers c .unlock }
  | .unlock => .ok { unlock s with callers := Function.update s.callers c .signal }
  | .signal => do
    let s ← signal target s
    return { s with callers := Function.update s.callers c .warn }
  | .warn =>
    .ok { s with
      warnings := if s.runningNum = s.threadNum then s.warnings + 1 else s.warnings
      callers := Function.update s.callers c .idle }

/-! ### `stop` -/

/-- `stop()`, by the thread `k`. -/
def stop (k : ℕ) (s : State) : Result State := do
  enable (s.stoppers k = .idle)
  return { s with stoppers := Function.update s.stoppers k .test }

/-- `pthread_join` returns if the id is that of no thread, or of one that has exited. To join an id
that is not that of a thread, or one that has been joined before, is undefined; here the call
returns, and `joined` records the id. -/
def Joinable (s : State) (ptid : PthreadT) : Prop :=
  ∀ i < s.created.length, s.created[i]? = some ptid → s.workers i = .exited

instance (s : State) (ptid : PthreadT) : Decidable (Joinable s ptid) :=
  inferInstanceAs (Decidable (∀ i < s.created.length, _))

/-- `stop`: the next step. The loop goes over the elements `m_threads` has when it begins. -/
def stopStep (k : ℕ) (s : State) : Result State :=
  match s.stoppers k with
  | .test =>
    .ok { s with stoppers := Function.update s.stoppers k (if s.stop then .done else .set) }
  | .set => .ok { s with stop := true, stoppers := Function.update s.stoppers k .broadcast }
  | .broadcast => .ok { broadcast s with stoppers := Function.update s.stoppers k .loop }
  | .loop => .ok { s with stoppers := Function.update s.stoppers k (.joining s.threads) }
  | .joining (ptid :: rest) => do
    enable (Joinable s ptid)
    return { s with
      joined := s.joined ++ [ptid]
      stoppers := Function.update s.stoppers k (.joining rest) }
  | .joining [] => .ok { s with threads := [], stoppers := Function.update s.stoppers k .done }
  | .idle | .done => .error .disabled

/-! ### The machine -/

/-- The actions. -/
inductive Act where
  /-- the next step of a worker -/
  | worker (i : ℕ)
  /-- a worker or the thread in `start` wakes up by itself -/
  | spurious (i : ℕ)
  | spuriousLatch
  /-- the next step of `start` -/
  | start (ptid : PthreadT)
  /-- a call of `call`, and its next step -/
  | call (c : ℕ) (task : Task)
  | caller (c : ℕ) (target : Option ℕ)
  /-- a call of `stop`, and its next step -/
  | stop (k : ℕ)
  | stopper (k : ℕ)
  deriving DecidableEq

/-- What an action does. -/
def exec (s : State) : Act → Result State
  | .worker i => threadFunc i s
  | .spurious i => do
    enable (s.workers i = .waiting)
    return s.goto i .woken
  | .spuriousLatch => do
    enable (s.starter = .latchWaiting)
    return { s with starter := .latch }
  | .start ptid => start ptid s
  | .call c task => call c task s
  | .caller c target => callStep c target s
  | .stop k => stop k s
  | .stopper k => stopStep k s

end ToolsCxx.ThreadPool.Model
