import ToolsCxx.Lib.Machine
import Mathlib.Data.Finmap
import Mathlib.Logic.Function.Basic

/-! # `Channel` and `Poller`

The channels have a type `C` of their own: an element of it is the address of a `Channel`, and
`fd : C → ℕ` gives the constant `m_fd` of each. `Poller` is the base class, together with the
channels that belong to the poller, and `Op` is what is done to a poller from outside: a channel's
`enable_*`, `disable_*` and `remove`, and `poll`. -/

namespace ToolsCxx.Pollers.Base

open ToolsCxx.Lib.Machine

/-! ### Events -/

/-- A set of event bits. -/
abbrev Events := BitVec 32

def pollIn : Events := 0x001
def pollPri : Events := 0x002
def pollOut : Events := 0x004
def pollErr : Events := 0x008
def pollHup : Events := 0x010

def kReadEvent : Events := pollIn ||| pollPri
def kWriteEvent : Events := pollOut

/-- The bits that are reported of a descriptor in the condition `ready`: those asked for, and the
errors and the hang-up. -/
def report (events ready : Events) : Events := ready &&& (events ||| pollErr ||| pollHup)

/-! ### The channels -/

structure Channel where
  events : Events
  revents : Events
  index : ℤ
  deriving DecidableEq

/-- The state after the constructor. -/
def Channel.initial : Channel where
  events := 0
  revents := 0
  index := -1

/-- How a channel changes its events. -/
inductive Change where
  | enableReading
  | disableReading
  | enableWriting
  | disableWriting
  deriving DecidableEq

/-- The new value of `m_events`. -/
def Change.apply : Change → Events → Events
  | .enableReading, events => events ||| kReadEvent
  | .disableReading, events => events &&& ~~~kReadEvent
  | .enableWriting, events => events ||| kWriteEvent
  | .disableWriting, events => events &&& ~~~kWriteEvent

/-! ### The base class -/

/-- A poller and its channels. -/
structure Poller (C : Type) where
  activeChannels : List C
  channelStore : Finmap fun _ : ℕ => C
  channels : C → Channel

namespace Poller

variable {C : Type} [DecidableEq C]

def initial : Poller C where
  activeChannels := []
  channelStore := ∅
  channels _ := .initial

/-- `channel->m_events = events`. -/
def setEvents (c : C) (events : Events) (s : Poller C) : Poller C :=
  { s with channels := Function.update s.channels c { s.channels c with events := events } }

/-- `channel->set_index(index)`. -/
def setIndex (c : C) (index : ℤ) (s : Poller C) : Poller C :=
  { s with channels := Function.update s.channels c { s.channels c with index := index } }

/-- `channel->set_revents(revents)` and `m_activeChannels.push_back(channel)`. -/
def activate (c : C) (revents : Events) (s : Poller C) : Poller C :=
  { s with
    channels := Function.update s.channels c { s.channels c with revents := revents }
    activeChannels := s.activeChannels ++ [c] }

end Poller

/-- An operation on the kernel's interest list. -/
inductive EpollOp where
  | add
  | mod
  | del
  deriving DecidableEq, Repr

/-- What can go wrong. -/
inductive Fault where
  | assertion
  /-- an element of a vector that does not exist -/
  | outOfRange
  /-- a null pointer, of an entry that `operator[]` has just made -/
  | nullChannel
  /-- `epoll_ctl` fails -/
  | epollCtl (op : EpollOp)
  deriving DecidableEq, Repr

abbrev Result (α : Type) := Except (Halt Fault) α

/-- What is done to a poller. -/
inductive Op (C : Type) where
  /-- `enable_*` and `disable_*` of a channel -/
  | update (c : C) (change : Change)
  /-- `remove` of a channel -/
  | remove (c : C)
  /-- `poll`, when the descriptors are in the conditions `ready`; `order` is the choice of the
  kernel, in which order `epoll_wait` returns the ready ones -/
  | poll (ready : ℕ → Events) (order : List ℕ)
  /-- `poll`, when the system call is interrupted -/
  | interrupted

end ToolsCxx.Pollers.Base
