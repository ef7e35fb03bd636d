import ToolsCxx.Pollers.Base
import Mathlib.Data.List.AList
import Mathlib.Data.List.Dedup

/-! # `EPollPoller`

The channels are registered in an interest list of the kernel; the index of a channel says whether
it is. The kernel is modelled with it: `epoll_ctl` fails on an `ADD` of a registered descriptor and
on a `MOD` or `DEL` of one that is not, and `epoll_wait` returns ready entries, as many as the
buffer holds, in any order. Of the buffer `m_eventList` only the size outlives a call of `poll`. -/

namespace ToolsCxx.Pollers.EPoll

open ToolsCxx.Lib.Machine ToolsCxx.Pollers.Base

/-- A `struct epoll_event`: the events, and the channel in `data.ptr`. -/
structure EpollEvent (C : Type) where
  events : Events
  ptr : C
  deriving DecidableEq

structure EPollPoller (C : Type) extends Poller C where
  eventListSize : ℕ
  -- the kernel's interest list
  interest : AList fun _ : ℕ => EpollEvent C

def kNew : ℤ := -1
def kAdded : ℤ := 1
def kEventListSize : ℕ := 16

variable {C : Type} [DecidableEq C]

/-- The state after the constructor. -/
def initial : EPollPoller C where
  toPoller := .initial
  eventListSize := kEventListSize
  interest := ∅

/-! ### The kernel -/

/-- `epoll_ctl`. -/
def epollCtl (op : EpollOp) (fd : ℕ) (event : EpollEvent C)
    (interest : AList fun _ : ℕ => EpollEvent C) : Result (AList fun _ : ℕ => EpollEvent C) :=
  match op with
  | .add => do
    check (fd ∉ interest) (.epollCtl op)
    return interest.insert fd event
  | .mod => do
    check (fd ∈ interest) (.epollCtl op)
    return interest.insert fd event
  | .del => do
    check (fd ∈ interest) (.epollCtl op)
    return interest.erase fd

/-- An entry of the interest list, if it is ready. -/
def readyEvent (ready : ℕ → Events) (interest : AList fun _ : ℕ => EpollEvent C) (fd : ℕ) :
    Option (EpollEvent C) :=
  match interest.lookup fd with
  | none => none
  | some event =>
    let revents := report event.events (ready fd)
    if revents = 0 then none else some ⟨revents, event.ptr⟩

/-- `epoll_wait`. Those in `order` come last and in this order, so that any order of the ready
entries is possible. -/
def epollWait (ready : ℕ → Events) (order : List ℕ) (maxevents : ℕ)
    (interest : AList fun _ : ℕ => EpollEvent C) : List (EpollEvent C) :=
  ((interest.keys ++ order).dedup.filterMap (readyEvent ready interest)).take maxevents

variable (fd : C → ℕ)

/-! ### Registration -/

/-- `update`. -/
def update (op : EpollOp) (c : C) (s : EPollPoller C) : Result (EPollPoller C) := do
  let interest ← epollCtl op (fd c) ⟨(s.channels c).events, c⟩ s.interest
  return { s with interest := interest }

/-- `update_channel`. -/
def updateChannel (c : C) (s : EPollPoller C) : Result (EPollPoller C) :=
  if (s.channels c).index = kNew then do
    check (s.channelStore.lookup (fd c) = none) .assertion
    update fd .add c { s with
      toPoller :=
        ({ s.toPoller with channelStore := s.channelStore.insert (fd c) c }).setIndex c kAdded }
  else do
    check ((s.channels c).index = kAdded) .assertion
    check (s.channelStore.lookup (fd c) = some c) .assertion
    update fd .mod c s

/-- `remove_channel`. -/
def removeChannel (c : C) (s : EPollPoller C) : Result (EPollPoller C) := do
  check ((s.channels c).index = kAdded) .assertion
  check (s.channelStore.lookup (fd c) = some c) .assertion
  let s ← update fd .del c { s with
    toPoller := { s.toPoller with channelStore := s.channelStore.erase (fd c) } }
  return { s with toPoller := s.toPoller.setIndex c kNew }

/-! ### `poll` -/

/-- `fill_active_channels`: the loop. -/
def fillActiveChannels : List (EpollEvent C) → Poller C → Result (Poller C)
  | [], s => .ok s
  | event :: rest, s => do
    check (s.channelStore.lookup (fd event.ptr) = some event.ptr) .assertion
    fillActiveChannels rest (s.activate event.ptr event.events)

/-- `poll`. -/
def poll (ready : ℕ → Events) (order : List ℕ) (s : EPollPoller C) : Result (EPollPoller C) := do
  let s := { s with activeChannels := [] }
  let eventList := epollWait ready order s.eventListSize s.interest
  if eventList.length = 0 then return s
  else do
    -- `fill_active_channels` begins with this assertion
    check (eventList.length ≤ s.eventListSize) .assertion
    let base ← fillActiveChannels fd eventList s.toPoller
    return { s with
      toPoller := base
      eventListSize :=
        if eventList.length = s.eventListSize then s.eventListSize * 2 else s.eventListSize }

/-- What is done to the poller. -/
def exec (s : EPollPoller C) : Op C → Result (EPollPoller C)
  | .update c change =>
    updateChannel fd c { s with
      toPoller := s.toPoller.setEvents c (change.apply (s.channels c).events) }
  | .remove c => removeChannel fd c s
  | .poll ready order => poll fd ready order s
  | .interrupted => .ok { s with activeChannels := [] }

end ToolsCxx.Pollers.EPoll
