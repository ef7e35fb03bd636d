import ToolsCxx.Base.Integers
import ToolsCxx.Lib.Machine
import Mathlib.Data.Finset.Basic
import Mathlib.Logic.Function.Basic

/-! # `ConnSocket`: the objects and the operations

The `ConnSocket` objects that are alive, and the heap their `SocketGuard`s live in. A `SocketGuard*`
is null or an address; every use of it goes through the heap and faults if there is no guard. The
allocator may hand out an address again, so the guards are numbered in the order of their creation
as well (`serials`). -/

namespace ToolsCxx.Socket.Model

open ToolsCxx.Base ToolsCxx.Lib.Machine

/-! ### The state -/

/-- An address. -/
abbrev Addr := ℕ

/-- The identity of an `InetAddress`. -/
abbrev InetAddress := ℕ

structure SocketGuard where
  sockfd : ℤ
  count : ℤ
  deriving DecidableEq

/-- `ConnSocket`; the guard is `none` if the pointer is null. -/
structure ConnSocket where
  guard : Option Addr
  remoteAddr : InetAddress
  deriving DecidableEq

/-- `ConnSocket()`. -/
def ConnSocket.default : ConnSocket where
  guard := none
  remoteAddr := 0

structure State where
  -- the objects that are alive, and their members
  alive : Finset ℕ
  sockets : ℕ → ConnSocket
  heap : Addr → Option SocketGuard
  -- history: the number of the guard that was last created at an address, the descriptors the
  -- guards were created with, the guards that were deleted with the descriptors closed
  serials : Addr → ℕ
  opened : List ℤ
  closed : List (ℕ × ℤ)

def initial : State where
  alive := ∅
  sockets _ := .default
  heap _ := none
  serials _ := 0
  opened := []
  closed := []

/-- What can go wrong. -/
inductive Fault where
  /-- a null pointer is used -/
  | nullGuard
  /-- a deleted guard is used -/
  | useAfterFree
  /-- an `int` overflows -/
  | overflow
  deriving DecidableEq, Repr

abbrev Result (α : Type) := Except (Halt Fault) α

/-! ### The guards -/

/-- `new SocketGuard(sockfd)`: the allocator returns any address that is free. -/
def newGuard (g : Addr) (sockfd : ℤ) (s : State) : Result State := do
  enable (s.heap g = none)
  return { s with
    heap := Function.update s.heap g (some ⟨sockfd, 1⟩)
    serials := Function.update s.serials g s.opened.length
    opened := s.opened ++ [sockfd] }

/-- `delete`: the destructor closes the descriptor. -/
def deleteGuard (g : Addr) (guard : SocketGuard) (s : State) : State :=
  { s with
    heap := Function.update s.heap g none
    closed := s.closed ++ [(s.serials g, guard.sockfd)] }

/-- `++ m_guard->m_count`. -/
def increment (guard : Option Addr) (s : State) : Result State :=
  match guard with
  | none => .error (.fault .nullGuard)
  | some g =>
    match s.heap g with
    | none => .error (.fault .useAfterFree)
    | some guard => do
      check (guard.count < intMax) .overflow
      let guard := { guard with count := guard.count + 1 }
      return { s with heap := Function.update s.heap g (some guard) }

/-! ### The operations -/

/-- `ConnSocket::ConnSocket()`. -/
def construct (i : ℕ) (s : State) : Result State := do
  enable (i ∉ s.alive)
  return { s with
    alive := insert i s.alive
    sockets := Function.update s.sockets i .default }

/-- `ConnSocket::ConnSocket(int sockfd, InetAddress addr)`. -/
def constructFrom (i : ℕ) (sockfd : ℤ) (addr : InetAddress) (g : Addr) (s : State) :
    Result State := do
  enable (i ∉ s.alive)
  let s ← newGuard g sockfd s
  return { s with
    alive := insert i s.alive
    sockets := Function.update s.sockets i ⟨some g, addr⟩ }

/-- `ConnSocket::ConnSocket(const ConnSocket &sock)`. -/
def copy (i j : ℕ) (s : State) : Result State := do
  enable (i ∉ s.alive ∧ j ∈ s.alive)
  increment (s.sockets j).guard { s with
    alive := insert i s.alive
    sockets := Function.update s.sockets i (s.sockets j) }

/-- The body of `ConnSocket::~ConnSocket`. -/
def destructor (i : ℕ) (s : State) : Result State :=
  match (s.sockets i).guard with
  | none => .ok s
  | some g =>
    match s.heap g with
    | none => .error (.fault .useAfterFree)
    | some guard =>
      let guard := { guard with count := guard.count - 1 }
      if guard.count = 0 then .ok (deleteGuard g guard s)
      else .ok { s with heap := Function.update s.heap g (some guard) }

/-- `operator=`; the target is `i`. -/
def assign (i j : ℕ) (s : State) : Result State := do
  enable (i ∈ s.alive ∧ j ∈ s.alive)
  let s ← destructor i s
  increment (s.sockets j).guard { s with sockets := Function.update s.sockets i (s.sockets j) }

/-- An object is destroyed. -/
def destroy (i : ℕ) (s : State) : Result State := do
  enable (i ∈ s.alive)
  let s ← destructor i s
  return { s with alive := s.alive.erase i }

/-! ### The machine -/

inductive Act where
  | construct (i : ℕ)
  | constructFrom (i : ℕ) (sockfd : ℤ) (addr : InetAddress) (g : Addr)
  | copy (i j : ℕ)
  | assign (i j : ℕ)
  | destroy (i : ℕ)
  deriving DecidableEq

/-- What an action does. -/
def exec (s : State) : Act → Result State
  | .construct i => construct i s
  | .constructFrom i sockfd addr g => constructFrom i sockfd addr g s
  | .copy i j => copy i j s
  | .assign i j => assign i j s
  | .destroy i => destroy i s

end ToolsCxx.Socket.Model
