import ToolsCxx.Base.Integers
import ToolsCxx.Lib.Machine
import ToolsCxx.Lib.OrderedMap

/-! # `CoScheduler`: the state and the operations

The members of `CoScheduler`, where the scheduler's thread is, and the functions of
`CoScheduler.cpp` on them. A context that is saved is what the thread goes on with when it is
switched to (`Context`); `m_mainContext` is the place in `start` a coroutine was resumed at, and
there is none once `start` has returned: to switch to it then is a fault.

`start` is cut where it switches to a coroutine and at its loops: `start`, `test`, `visit` (one
resumption), `leave` (the end of a round of the `for` loop), and `swapTasks`, `drainTask` and
`drainDone` for `handle_pending_tasks`. The body of a coroutine is up to the run: it may call
`yield`, `create_coroutine` and `quit`, and return (`finish`).

The tasks are numbered in the order of the calls of `create_coroutine`. -/

namespace ToolsCxx.CoScheduler.Model

open ToolsCxx.Base ToolsCxx.Lib.Machine ToolsCxx.Lib.OrderedMap

/-! ### Coroutines -/

/-- A task, by the number of the call that has submitted it. -/
abbrev Task := ℕ

/-- `Coroutine::Status`. -/
inductive Status where
  | READY
  | SUSPENDED
  | RUNNING
  | FINISHED
  deriving DecidableEq

/-- What `m_context` holds. -/
inductive Context where
  | unset
  /-- the beginning of `schedule` -/
  | entry
  /-- the call of `yield` in the coroutine's task -/
  | body
  /-- a call of `yield` outside the coroutines -/
  | main
  deriving DecidableEq

/-- `Coroutine`. -/
structure Coroutine where
  task : Task
  status : Status
  context : Context
  deriving DecidableEq

/-- `Coroutine::Coroutine`. -/
def Coroutine.new (task : Task) : Coroutine where
  task := task
  status := .READY
  context := .unset

/-! ### The state -/

/-- Where the scheduler's thread is. -/
inductive Position where
  | outside
  /-- at `while(!m_quit)` -/
  | test
  /-- at the head of the `for` loop; `pos` is `none` at the end of `m_coStore` -/
  | visit (pos : Option ℤ)
  /-- in the task of a coroutine -/
  | running (id : ℤ)
  /-- after the `switch` -/
  | leave (pos : ℤ)
  /-- in the loop of `handle_pending_tasks` -/
  | draining (tasks : List Task)
  deriving DecidableEq

/-- What happens to the coroutines. -/
inductive Event where
  | resume (id : ℤ)
  | yield (id : ℤ)
  | return (id : ℤ)
  | erase (id : ℤ)
  deriving DecidableEq

structure State where
  -- the members of `CoScheduler`
  quit : Bool
  coNum : ℤ
  curCo : ℤ
  mainContext : Option ℤ
  coStore : OrdMap ℤ Coroutine
  pendingTasks : List Task
  -- control
  position : Position
  -- history: how many tasks have been submitted; those that were pushed to `m_pendingTasks`, those
  -- coroutines were made for, those whose function was entered, those whose coroutine was erased;
  -- the events, and how many passes over `m_coStore` have begun
  submitted : ℕ
  pushed : List Task
  created : List Task
  entered : List Task
  erased : List Task
  trace : List Event
  passes : ℕ

/-- The state after the constructor. -/
def initial : State where
  quit := false
  coNum := 0
  curCo := -1
  mainContext := none
  coStore := ∅
  pendingTasks := []
  position := .outside
  submitted := 0
  pushed := []
  created := []
  entered := []
  erased := []
  trace := []
  passes := 0

/-- What can go wrong. -/
inductive Fault where
  /-- an `assert` fails -/
  | assertion
  /-- an iterator to an entry that was erased is used -/
  | iterator
  /-- a context that was not saved, or whose function has returned, is switched to -/
  | staleContext
  /-- `m_coNum` overflows -/
  | overflow
  deriving DecidableEq, Repr

abbrev Result (α : Type) := Except (Halt Fault) α

/-- The scheduler's thread is outside `start`, or in the task of a coroutine. -/
def Position.userCode : Position → Bool
  | .outside => true
  | .running _ => true
  | _ => false

/-- What a context that is saved in a call of `yield` holds. -/
def Position.here : Position → Context
  | .running _ => .body
  | _ => .main

/-! ### The operations -/

/-- The entry an iterator points to. -/
def deref (pos : ℤ) (s : State) : Result Coroutine :=
  match s.coStore.find pos with
  | some co => .ok co
  | none => .error (.fault .iterator)

/-- `m_coStore.find(m_curCo)`, and the assertion that it is found. -/
def findCurCo (s : State) : Result Coroutine :=
  match s.coStore.find s.curCo with
  | some co => .ok co
  | none => .error (.fault .assertion)

/-- A switch to `m_mainContext`. -/
def switchToMain (s : State) : Result State :=
  match s.mainContext with
  | some pos => .ok { s with position := .leave pos }
  | none => .error (.fault .staleContext)

/-- `schedule`, up to the call of the task. -/
def schedule (s : State) : Result State := do
  let co ← findCurCo s
  return { s with position := .running s.curCo, entered := s.entered ++ [co.task] }

/-- `swapcontext(&m_mainContext, context)`, the context being that of the coroutine at `pos`. -/
def switchTo (pos : ℤ) (context : Context) (s : State) : Result State :=
  let s := { s with mainContext := some pos, trace := s.trace ++ [.resume pos] }
  match context with
  | .entry => schedule s
  | .body => .ok { s with position := .running pos }
  | .unset | .main => .error (.fault .staleContext)

/-- `start`, up to its loop. -/
def start (s : State) : Result State := do
  enable (s.position = .outside)
  return { s with quit := false, position := .test }

/-- `while(!m_quit)`. When `start` returns, the place `m_mainContext` was saved at is gone. -/
def test (s : State) : Result State := do
  enable (s.position = .test)
  if s.quit then
    return { s with position := .outside, mainContext := none }
  else
    return { s with position := .visit s.coStore.begin?, passes := s.passes + 1 }

/-- The `switch`. -/
def visit (s : State) : Result State :=
  match s.position with
  | .visit (some pos) => do
    let co ← deref pos s
    match co.status with
    | .READY =>
      switchTo pos .entry { s with
        curCo := pos
        coStore := s.coStore.set pos { co with status := .RUNNING, context := .entry } }
    | .SUSPENDED =>
      switchTo pos co.context { s with
        curCo := pos
        coStore := s.coStore.set pos { co with status := .RUNNING } }
    | .RUNNING | .FINISHED => return { s with position := .leave pos }
  | _ => .error .disabled

/-- The end of a round of the `for` loop. -/
def leave (s : State) : Result State :=
  match s.position with
  | .leave pos => do
    let co ← deref pos s
    let s := { s with position := .visit (s.coStore.next? pos) }
    if s.curCo = -1 ∧ co.status = .FINISHED then
      return { s with
        coStore := s.coStore.erase pos
        erased := s.erased ++ [co.task]
        trace := s.trace ++ [.erase pos] }
    else
      return s
  | _ => .error .disabled

/-- A coroutine for the task is put into `m_coStore`. -/
def addCoroutine (task : Task) (s : State) : Result State := do
  let s := { s with coStore := s.coStore.set s.coNum (.new task), created := s.created ++ [task] }
  check (s.coNum < intMax) .overflow
  return { s with coNum := s.coNum + 1 }

/-- `handle_pending_tasks`, up to its loop. -/
def swapTasks (s : State) : Result State := do
  enable (s.position = .visit none)
  return { s with position := .draining s.pendingTasks, pendingTasks := [] }

/-- One round of its loop. -/
def drainTask (s : State) : Result State :=
  match s.position with
  | .draining (task :: tasks) => addCoroutine task { s with position := .draining tasks }
  | _ => .error .disabled

/-- Its end. -/
def drainDone (s : State) : Result State := do
  enable (s.position = .draining [])
  return { s with position := .test }

/-- `yield`, on the scheduler's thread. -/
def yield (s : State) : Result State := do
  enable s.position.userCode
  if s.curCo = -1 then
    return s
  else
    let co ← findCurCo s
    switchToMain { s with
      coStore := s.coStore.set s.curCo
        { co with status := .SUSPENDED, context := s.position.here }
      trace := s.trace ++ [.yield s.curCo] }

/-- The task returns, and `schedule` after it; `uc_link` is `m_mainContext`. -/
def finish (s : State) : Result State :=
  match s.position with
  | .running id => do
    let co ← deref id s
    switchToMain { s with
      curCo := -1
      coStore := s.coStore.set id { co with status := .FINISHED }
      trace := s.trace ++ [.return id] }
  | _ => .error .disabled

/-- `m_pendingTasks.push_back`, under the mutex. -/
def pushTask (task : Task) (s : State) : State :=
  { s with pendingTasks := s.pendingTasks ++ [task], pushed := s.pushed ++ [task] }

/-- A call of `create_coroutine` is made. -/
def submit (s : State) : State := { s with submitted := s.submitted + 1 }

/-- `create_coroutine`, on the scheduler's thread. -/
def createCoroutine (s : State) : Result State := do
  enable s.position.userCode
  if s.curCo ≠ -1 then
    return pushTask s.submitted (submit s)
  else
    addCoroutine s.submitted (submit s)

/-- `create_coroutine`, on another thread. -/
def clientCreate (s : State) : Result State := .ok (pushTask s.submitted (submit s))

/-- `quit`, on any thread. -/
def quit (s : State) : Result State := .ok { s with quit := true }

/-! ### The machine -/

/-- The actions: of the scheduler's thread in `start`, of its user code, of the other threads. -/
inductive Act where
  | start
  | test
  | visit
  | leave
  | swapTasks
  | drainTask
  | drainDone
  | yield
  | finish
  | createCoroutine
  | clientCreate
  | quit
  deriving DecidableEq

/-- What an action does. -/
def exec (s : State) : Act → Result State
  | .start => start s
  | .test => test s
  | .visit => visit s
  | .leave => leave s
  | .swapTasks => swapTasks s
  | .drainTask => drainTask s
  | .drainDone => drainDone s
  | .yield => yield s
  | .finish => finish s
  | .createCoroutine => createCoroutine s
  | .clientCreate => clientCreate s
  | .quit => quit s

end ToolsCxx.CoScheduler.Model
