import ToolsCxx.Pollers.Base

/-! # `PollPoller`

The channels are registered in an array of `pollfd`s; the index of a channel is its position there,
and is negative if the channel is not registered. -/

namespace ToolsCxx.Pollers.Poll

open ToolsCxx.Lib.Machine ToolsCxx.Pollers.Base

structure Pollfd where
  fd : ℕ
  events : BitVec 16
  revents : BitVec 16
  deriving DecidableEq

structure PollPoller (C : Type) extends Poller C where
  pollfdList : List Pollfd

variable {C : Type} [DecidableEq C]

/-- The state after the constructor. -/
def initial : PollPoller C where
  toPoller := .initial
  pollfdList := []

variable (fd : C → ℕ)

/-! ### Registration -/

/-- `update_channel`. -/
def updateChannel (c : C) (s : PollPoller C) : Result (PollPoller C) :=
  let events := (s.channels c).events.truncate 16
  let index := (s.channels c).index
  if index < 0 then do
    check (s.channelStore.lookup (fd c) = none) .assertion
    let pollfdList := s.pollfdList ++ [⟨fd c, events, 0⟩]
    return {
      toPoller :=
        ({ s.toPoller with channelStore := s.channelStore.insert (fd c) c }).setIndex c
          (pollfdList.length - 1)
      pollfdList := pollfdList }
  else do
    check (s.channelStore.lookup (fd c) = some c) .assertion
    check (0 ≤ index ∧ index < s.pollfdList.length) .assertion
    match s.pollfdList[index.toNat]? with
    | none => .error (.fault .outOfRange)
    | some pfd =>
      check (pfd.fd = fd c) .assertion
      return { s with
        pollfdList := s.pollfdList.set index.toNat { pfd with events := events, revents := 0 } }

/-- `iter_swap`, on the elements at the positions `i` and `j`. -/
def iterSwap {α : Type} (i j : ℕ) (l : List α) : List α :=
  match l[i]?, l[j]? with
  | some a, some b => (l.set i b).set j a
  | _, _ => l

/-- `remove_channel`. -/
def removeChannel (c : C) (s : PollPoller C) : Result (PollPoller C) := do
  check (s.channelStore.lookup (fd c) = some c) .assertion
  let store := s.channelStore.erase (fd c)
  let index := (s.channels c).index
  check (0 ≤ index ∧ index < s.pollfdList.length) .assertion
  match s.pollfdList[index.toNat]? with
  | none => .error (.fault .outOfRange)
  | some pfd =>
    check (pfd.fd = fd c) .assertion
    if index = s.pollfdList.length - 1 then
      return {
        toPoller := ({ s.toPoller with channelStore := store }).setIndex c (-1)
        pollfdList := s.pollfdList.dropLast }
    else
      match s.pollfdList.getLast? with
      | none => .error (.fault .outOfRange)
      | some back =>
        let pollfdList := iterSwap index.toNat (s.pollfdList.length - 1) s.pollfdList
        match store.lookup back.fd with
        | none => .error (.fault .nullChannel)
        | some d =>
          return {
            toPoller :=
              (({ s.toPoller with channelStore := store }).setIndex d index).setIndex c (-1)
            pollfdList := pollfdList.dropLast }

/-! ### `poll` -/

/-- The system call `poll`, for one entry. -/
def sysPoll (ready : ℕ → Events) (pfd : Pollfd) : Pollfd :=
  { pfd with revents := (report (pfd.events.signExtend 32) (ready pfd.fd)).truncate 16 }

/-- The value of the system call: the number of entries with a bit reported. -/
def numEvents (pollfdList : List Pollfd) : ℕ := pollfdList.countP fun pfd => pfd.revents ≠ 0

/-- `fill_active_channels`: the loop. -/
def fillActiveChannels : ℕ → List Pollfd → Poller C → Result (Poller C)
  | _, [], s => .ok s
  | 0, _, s => .ok s
  | numEvents + 1, pfd :: rest, s =>
    if 0 < pfd.revents.toInt then
      match s.channelStore.lookup pfd.fd with
      | none => .error (.fault .assertion)
      | some c => do
        check (fd c = pfd.fd) .assertion
        fillActiveChannels numEvents rest (s.activate c (pfd.revents.signExtend 32))
    else fillActiveChannels (numEvents + 1) rest s

/-- `poll`. -/
def poll (ready : ℕ → Events) (s : PollPoller C) : Result (PollPoller C) := do
  let pollfdList := s.pollfdList.map (sysPoll ready)
  let s := { s with activeChannels := [], pollfdList := pollfdList }
  if numEvents pollfdList = 0 then return s
  else do
    let base ← fillActiveChannels fd (numEvents pollfdList) pollfdList s.toPoller
    return { s with toPoller := base }

/-- What is done to the poller. -/
def exec (s : PollPoller C) : Op C → Result (PollPoller C)
  | .update c change =>
    updateChannel fd c { s with
      toPoller := s.toPoller.setEvents c (change.apply (s.channels c).events) }
  | .remove c => removeChannel fd c s
  | .poll ready _ => poll fd ready s
  | .interrupted => .ok { s with activeChannels := [] }

end ToolsCxx.Pollers.Poll
