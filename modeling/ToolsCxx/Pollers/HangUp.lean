import ToolsCxx.Pollers.Agreement

/-! # `Channel::handle_event` and the end of a pipe

A channel reads from a pipe: `poll` reports `POLLIN` as long as there are unread bytes, and
`POLLHUP` from the moment the peer has closed its end. The loop calls `poll` and then `handle_event`
of the channel, whose callbacks are actions of their own (`Action.callback`), so that everything
else can happen between them.

`CLOSE_EVENT` is `POLLHUP | (!POLLIN)`, which is `POLLHUP` (`close_mem_handleEvent`). So the close
callback is called for an event with `POLLIN` when `poll` reports both (`close_and_in_iff`), and
never in a run in which no call of `poll` that makes the channel active finds unread bytes after the
peer has closed, and only in such runs (`close_after_data`). -/

namespace ToolsCxx.Pollers.HangUp

open ToolsCxx.Lib.Machine ToolsCxx.Pollers.Base ToolsCxx.Pollers.Abstract
open ToolsCxx.Pollers.Poll ToolsCxx.Pollers.EPoll ToolsCxx.Pollers.Slots ToolsCxx.Pollers.Kernel
open ToolsCxx.Pollers.Agreement

/-! ### `handle_event` -/

def pollNval : Events := 0x020
def pollRdhup : Events := 0x2000

/-- `!events`. -/
def lnot (events : Events) : Events := if events = 0 then 1 else 0

def READ_EVENT : Events := pollIn ||| pollPri ||| pollRdhup
def WRITE_EVENT : Events := pollOut
def ERROR_EVENT : Events := pollErr
def CLOSE_EVENT : Events := pollHup ||| lnot pollIn

/-- The callbacks of a channel. -/
inductive Callback where
  | read
  | write
  | error
  | close
  deriving DecidableEq

section
variable (installed : Callback → Bool) (revents : Events)

/-- A callback is called if a bit of `mask` is set, and if there is one. -/
def invoke (mask : Events) (callback : Callback) : List Callback :=
  if revents &&& mask ≠ 0 then if installed callback then [callback] else [] else []

/-- `Channel::handle_event`: the callbacks it calls. -/
def handleEvent : List Callback :=
  invoke installed revents READ_EVENT .read ++ invoke installed revents WRITE_EVENT .write ++
    invoke installed revents ERROR_EVENT .error ++ invoke installed revents pollNval .error ++
    invoke installed revents CLOSE_EVENT .close

variable {installed revents}

theorem mem_invoke {mask : Events} {callback called : Callback} :
    called ∈ invoke installed revents mask callback ↔
      called = callback ∧ revents &&& mask ≠ 0 ∧ installed callback = true := by
  unfold invoke
  split_ifs with hmask hinst
  · rw [List.mem_singleton]
    exact (and_iff_left ⟨hmask, hinst⟩).symm
  · exact iff_of_false List.not_mem_nil fun h => hinst h.2.2
  · exact iff_of_false List.not_mem_nil fun h => hmask h.2.1

/-- `POLLIN` plays no part. -/
theorem close_mem_handleEvent : Callback.close ∈ handleEvent installed revents ↔
    revents &&& pollHup ≠ 0 ∧ installed .close = true := by
  have hmask : CLOSE_EVENT = pollHup := by decide
  unfold handleEvent
  rw [hmask]
  simp only [List.mem_append, mem_invoke]
  simp

end

/-! ### The pipe -/

/-- The condition of the channel's descriptor. -/
def pipeReady (unread : ℕ) (closed : Bool) : Events :=
  (if 0 < unread then pollIn else 0) ||| (if closed then pollHup else 0)

theorem report_and_hup (events ready : Events) :
    report events ready &&& pollHup = ready &&& pollHup := by
  unfold report
  rw [BitVec.and_assoc]
  congr 1
  ext k hk
  simp only [BitVec.getElem_and, BitVec.getElem_or]
  cases pollHup[k] <;> simp

theorem report_and_in (events ready : Events) :
    report events ready &&& pollIn = ready &&& (events &&& pollIn) := by
  have herr : pollErr &&& pollIn = 0 := by decide
  have hhup : pollHup &&& pollIn = 0 := by decide
  unfold report
  rw [BitVec.and_assoc, BitVec.and_or_distrib_right, BitVec.and_or_distrib_right, herr, hhup]
  simp only [BitVec.or_zero, BitVec.ofNat_eq_ofNat]

section
variable {events : Events} {unread : ℕ} {closed : Bool}

/-- The hang-up is always reported. -/
theorem hup_iff : report events (pipeReady unread closed) &&& pollHup ≠ 0 ↔ closed = true := by
  rw [report_and_hup]
  unfold pipeReady
  split_ifs with hunread hclosed hclosed <;> simp [hclosed] <;> decide

/-- The bytes are reported to a channel that reads. -/
theorem in_iff : report events (pipeReady unread closed) &&& pollIn ≠ 0 ↔
    0 < unread ∧ events &&& pollIn ≠ 0 := by
  have hready : pipeReady unread closed &&& pollIn = if 0 < unread then pollIn else 0 := by
    unfold pipeReady
    split_ifs <;> decide
  rw [report_and_in, ← BitVec.and_assoc, BitVec.and_comm _ events, BitVec.and_assoc, hready]
  split_ifs with hunread
  · exact (and_iff_right hunread).symm
  · exact iff_of_false (not_not.mpr BitVec.and_zero) fun h => hunread h.1

/-- **When the close callback overtakes data**: if and only if both are reported. -/
theorem close_and_in_iff {installed : Callback → Bool} (hreads : events &&& pollIn ≠ 0) :
    (Callback.close ∈ handleEvent installed (report events (pipeReady unread closed)) ∧
      report events (pipeReady unread closed) &&& pollIn ≠ 0) ↔
    closed = true ∧ 0 < unread ∧ installed .close = true := by
  rw [close_mem_handleEvent, hup_iff, in_iff]
  tauto

end

/-! ### The loop -/

/-- What `create_poller` can make. -/
abbrev AnyPoller (C : Type) := PollPoller C ⊕ EPollPoller C

variable {C : Type} [DecidableEq C]

/-- `Poller::create_poller`: the choice is that of the environment. -/
def createPoller (usePoll : Bool) : AnyPoller C :=
  if usePoll then .inl Poll.initial else .inr EPoll.initial

/-- The base class. -/
def base : AnyPoller C → Poller C
  | .inl p => p.toPoller
  | .inr e => e.toPoller

def execPoller (fd : C → ℕ) : AnyPoller C → Op C → Result (AnyPoller C)
  | .inl p, op => do
    let p ← Poll.exec fd p op
    return .inl p
  | .inr e, op => do
    let e ← EPoll.exec fd e op
    return .inr e

/-- The poller, the pipe, and the call of `handle_event` that is going on, if any: the `m_revents`
of the channel and the callbacks that it has not called yet. -/
structure State (C : Type) where
  poller : AnyPoller C
  unread : ℕ
  closed : Bool
  revents : Events
  pending : List Callback

/-- The channels are not registered, and the pipe is empty. -/
def initial (usePoll : Bool) : State C where
  poller := createPoller usePoll
  unread := 0
  closed := false
  revents := 0
  pending := []

inductive Action (C : Type) where
  /-- the peer writes `n` bytes -/
  | peerWrites (n : ℕ)
  /-- the peer closes its end -/
  | peerCloses
  /-- a channel is changed, by the program or by a callback of some channel -/
  | update (d : C) (change : Change)
  | remove (d : C)
  /-- `poll`, when the other descriptors are in the conditions `others` -/
  | poll (others : ℕ → Events) (order : List ℕ)
  | interrupted
  /-- the next callback; if it is the read callback, it consumes `n` bytes -/
  | callback (n : ℕ)

variable (fd : C → ℕ) (c : C) (installed : Callback → Bool)

/-- What an action does; `c` is the channel of the pipe. -/
def exec (s : State C) : Action C → Result (State C)
  | .peerWrites n => do
    enable (s.closed = false)
    return { s with unread := s.unread + n }
  | .peerCloses => do
    enable (s.closed = false)
    return { s with closed := true }
  | .update d change => do
    let poller ← execPoller fd s.poller (.update d change)
    return { s with poller := poller }
  | .remove d => do
    let poller ← execPoller fd s.poller (.remove d)
    return { s with poller := poller }
  | .poll others order => do
    enable (s.pending = [])
    let ready := Function.update others (fd c) (pipeReady s.unread s.closed)
    let poller ← execPoller fd s.poller (.poll ready order)
    let revents := ((base poller).channels c).revents
    return { s with
      poller := poller
      revents := revents
      pending := if c ∈ (base poller).activeChannels then handleEvent installed revents else [] }
  | .interrupted => do
    enable (s.pending = [])
    let poller ← execPoller fd s.poller .interrupted
    return { s with poller := poller }
  | .callback n =>
    match s.pending with
    | [] => .error .disabled
    | .read :: rest => do
      enable (0 < n ∧ n ≤ s.unread)
      return { s with unread := s.unread - n, pending := rest }
    | _ :: rest => return { s with pending := rest }

/-- A call of the close callback: the events it is called for, and the unread bytes. -/
def seeClose (s : State C) : Action C → Option (Events × ℕ)
  | .callback _ => if s.pending.head? = some .close then some (s.revents, s.unread) else none
  | _ => none

/-- A call of `poll` that makes the channel active: the unread bytes, and whether the peer has
closed. -/
def seePoll (s : State C) : Action C → Option (ℕ × Bool)
  | .poll others order =>
    match exec fd c installed s (.poll others order) with
    | .ok s' => if c ∈ (base s'.poller).activeChannels then some (s.unread, s.closed) else none
    | .error _ => none
  | _ => none

/-- No call of `poll` that makes the channel active finds unread bytes after the peer has closed; or
there is no close callback. -/
def Drained (usePoll : Bool) (l : List (Action C)) : Prop :=
  installed .close = true → ∀ x ∈ seen (exec fd c installed) (seePoll fd c installed)
    (initial usePoll) l, ¬ (x.2 = true ∧ 0 < x.1)

/-- The close callback is never called for an event with `POLLIN`, and never while there are unread
bytes. -/
def AfterData (usePoll : Bool) (l : List (Action C)) : Prop :=
  ∀ x ∈ seen (exec fd c installed) seeClose (initial usePoll) l, x.1 &&& pollIn = 0 ∧ x.2 = 0

/-! ### What `poll` reports -/

/-- The poller has the channels of some `Interest`. -/
def Backed (fd : C → ℕ) : AnyPoller C → Prop
  | .inl p => ∃ i slots, Tabled fd i slots p
  | .inr e => ∃ i, Mirrored fd i e

variable {fd} {c} {installed}

omit [DecidableEq C] in
theorem backed_initial (usePoll : Bool) : Backed fd (createPoller usePoll : AnyPoller C) := by
  cases usePoll with
  | true => exact ⟨_, _, tabled_initial⟩
  | false => exact ⟨_, mirrored_initial⟩

/-- A channel that has been made active has the bits that were reported of it. -/
theorem revents_of_activateAll {l : List (C × Events)} {s : Poller C}
    (hl : (l.map Prod.fst).Nodup)
    (hc : c ∈ (activateAll l { s with activeChannels := [] }).activeChannels) :
    (c, ((activateAll l { s with activeChannels := [] }).channels c).revents) ∈ l := by
  rw [activateAll_activeChannels, List.nil_append] at hc
  obtain ⟨⟨d, revents⟩, hmem, rfl⟩ := List.mem_map.mp hc
  rw [activateAll_revents l _ hl hmem]
  exact hmem

theorem exists_exec {i : Interest C} {op : Op C} (h : ∀ d, op = .remove d → d ∈ i.registered) :
    ∃ i', i.exec op = .ok i' := by
  cases op with
  | update d change => exact ⟨_, rfl⟩
  | remove d => exact ⟨_, enable_bind_of (h d rfl)⟩
  | poll ready order => exact ⟨_, rfl⟩
  | interrupted => exact ⟨_, rfl⟩

/-- The assertions of `remove_channel`. -/
theorem lookup_of_remove {p p' : AnyPoller C} {d : C} (hp : execPoller fd p (.remove d) = .ok p') :
    (base p).channelStore.lookup (fd d) = some d := by
  cases p with
  | inl p =>
    obtain ⟨q, hq, -⟩ := bind_eq_ok.mp hp
    exact (check_bind_eq_ok.mp hq).1
  | inr e =>
    obtain ⟨q, hq, -⟩ := bind_eq_ok.mp hp
    exact (check_bind_eq_ok.mp (check_bind_eq_ok.mp hq).2).1

theorem backed_exec (hfd : Function.Injective fd) {p p' : AnyPoller C} (h : Backed fd p)
    {op : Op C} (hp : execPoller fd p op = .ok p') : Backed fd p' := by
  have hremove : ∀ d, op = .remove d → (base p).channelStore.lookup (fd d) = some d := by
    rintro d rfl
    exact lookup_of_remove hp
  cases p with
  | inl p =>
    obtain ⟨i, slots, htabled⟩ := h
    obtain ⟨i', hi⟩ := exists_exec fun d hd => ((htabled.holds.store _ _).mp (hremove d hd)).1
    obtain ⟨q, hq, hp'⟩ := bind_eq_ok.mp hp
    obtain ⟨q', hq', slots', htabled'⟩ := tabled_exec hfd htabled hi
    cases hp'
    cases hq.symm.trans hq'
    exact ⟨i', slots', htabled'⟩
  | inr e =>
    obtain ⟨i, hmirrored⟩ := h
    obtain ⟨i', hi⟩ := exists_exec fun d hd => ((hmirrored.holds.store _ _).mp (hremove d hd)).1
    obtain ⟨q, hq, hp'⟩ := bind_eq_ok.mp hp
    obtain ⟨q', hq', hmirrored'⟩ := mirrored_exec hfd hmirrored hi
    cases hp'
    cases hq.symm.trans hq'
    exact ⟨i', hmirrored'⟩

/-- **A call of `poll`**: the channel is made active with the bits that are reported of it. -/
theorem reported_of_poll {p p' : AnyPoller C} (h : Backed fd p) {ready : ℕ → Events}
    {order : List ℕ} (hp : execPoller fd p (.poll ready order) = .ok p')
    (hc : c ∈ (base p').activeChannels) :
    ∃ events, ((base p').channels c).revents = report events (ready (fd c)) := by
  cases p with
  | inl p =>
    obtain ⟨i, slots, htabled⟩ := h
    obtain ⟨q, hq, hp'⟩ := bind_eq_ok.mp hp
    cases hp'
    cases (Slots.poll_eq htabled).symm.trans hq
    have hnodup : ((i.active fd ready slots).map Prod.fst).Nodup := by
      rw [active_map_fst]
      exact htabled.indexed.nodup.filter _
    exact ⟨i.events c, (mem_active.mp (revents_of_activateAll hnodup hc)).2.2⟩
  | inr e =>
    obtain ⟨i, hmirrored⟩ := h
    obtain ⟨q, hq, hp'⟩ := bind_eq_ok.mp hp
    cases hp'
    obtain ⟨size, hpoll⟩ := Kernel.poll_eq hmirrored ready order
    have hpoll := hpoll.symm.trans hq
    cases hpoll
    have hall : ((readyList ready order e).map EpollEvent.ptr).Nodup := hmirrored.nodup_readyList
    have hnodup : ((((readyList ready order e).take e.eventListSize).map
        fun e => (e.ptr, e.events)).map Prod.fst).Nodup := by
      rw [List.map_map]
      exact hall.sublist ((List.take_sublist _ _).map _)
    obtain ⟨event, hevent, heq⟩ := List.mem_map.mp (revents_of_activateAll hnodup hc)
    obtain ⟨d, -, -, rfl⟩ := hmirrored.mem_readyList.mp (List.mem_of_mem_take hevent)
    obtain ⟨rfl, hrevents⟩ := Prod.mk.inj heq
    exact ⟨i.events _, hrevents.symm⟩

/-! ### The run -/

/-- **The invariant**: the close callback is only called for when there is nothing left to read, and
nothing can come. -/
structure Calm (fd : C → ℕ) (s : State C) : Prop where
  backed : Backed fd s.poller
  close : .close ∈ s.pending → s.revents &&& pollIn = 0 ∧ s.unread = 0 ∧ s.closed = true

/-- A callback takes away unread bytes, and nothing else. -/
theorem callback_cases {s s' : State C} {n : ℕ}
    (hs : exec fd c installed s (.callback n) = .ok s') : ∃ callback rest,
    s.pending = callback :: rest ∧ s' = { s with unread := s'.unread, pending := rest } ∧
      s'.unread ≤ s.unread := by
  obtain ⟨poller, unread, closed, revents, pending⟩ := s
  cases pending with
  | nil => cases hs
  | cons callback rest =>
    cases callback with
    | read =>
      obtain ⟨-, hs⟩ := enable_bind_eq_ok.mp hs
      cases hs
      exact ⟨.read, rest, rfl, rfl, Nat.sub_le _ _⟩
    | write | error | close =>
      cases hs
      exact ⟨_, rest, rfl, rfl, le_rfl⟩

/-- What is seen of an action that is taken. -/
theorem mem_seePoll {s s' : State C} {a : Action C} (hs : exec fd c installed s a = .ok s')
    {x : ℕ × Bool} : x ∈ seePoll fd c installed s a ↔ (∃ others order, a = .poll others order) ∧
      c ∈ (base s'.poller).activeChannels ∧ x = (s.unread, s.closed) := by
  cases a
  case poll others order =>
    unfold seePoll
    simp only [hs]
    split_ifs with hc
    · rw [Option.mem_some_iff, eq_comm]
      exact ⟨fun hx => ⟨⟨_, _, rfl⟩, hc, hx⟩, fun hx => hx.2.2⟩
    · exact iff_of_false nofun fun hx => hc hx.2.1
  all_goals exact iff_of_false nofun fun ⟨⟨_, _, h⟩, _⟩ => by cases h

theorem poll_cases {s s' : State C} (h : Backed fd s.poller) {others : ℕ → Events}
    {order : List ℕ} (hs : exec fd c installed s (.poll others order) = .ok s') :
    s.pending = [] ∧ s'.unread = s.unread ∧ s'.closed = s.closed ∧
      ((c ∈ (base s'.poller).activeChannels ∧ s'.pending = handleEvent installed s'.revents ∧
        ∃ events, s'.revents = report events (pipeReady s.unread s.closed)) ∨
      (c ∉ (base s'.poller).activeChannels ∧ s'.pending = [])) := by
  obtain ⟨hnone, hs⟩ := enable_bind_eq_ok.mp hs
  obtain ⟨poller, hp, hs⟩ := bind_eq_ok.mp hs
  cases hs
  refine ⟨hnone, rfl, rfl, ?_⟩
  by_cases hc : c ∈ (base poller).activeChannels
  · obtain ⟨events, hrevents⟩ := reported_of_poll h hp hc
    rw [Function.update_self] at hrevents
    exact Or.inl ⟨hc, if_pos hc, events, hrevents⟩
  · exact Or.inr ⟨hc, if_neg hc⟩

theorem backed_step (hfd : Function.Injective fd) {s s' : State C} (h : Backed fd s.poller)
    {a : Action C} (hs : exec fd c installed s a = .ok s') : Backed fd s'.poller := by
  cases a with
  | peerWrites | peerCloses =>
    obtain ⟨-, hs⟩ := enable_bind_eq_ok.mp hs
    cases hs
    exact h
  | update | remove =>
    obtain ⟨poller, hp, hs⟩ := bind_eq_ok.mp hs
    cases hs
    exact backed_exec hfd h hp
  | poll | interrupted =>
    obtain ⟨-, hs⟩ := enable_bind_eq_ok.mp hs
    obtain ⟨poller, hp, hs⟩ := bind_eq_ok.mp hs
    cases hs
    exact backed_exec hfd h hp
  | callback n =>
    obtain ⟨callback, rest, -, heq, -⟩ := callback_cases hs
    rw [heq]
    exact h

theorem calm_exec (hfd : Function.Injective fd) {s s' : State C} (h : Calm fd s) {a : Action C}
    (hpoll : installed .close = true →
      ∀ x ∈ seePoll fd c installed s a, ¬ (x.2 = true ∧ 0 < x.1))
    (hs : exec fd c installed s a = .ok s') : Calm fd s' := by
  refine ⟨backed_step hfd h.backed hs, fun hclose => ?_⟩
  cases a with
  | peerWrites n =>
    obtain ⟨hopen, hs⟩ := enable_bind_eq_ok.mp hs
    cases hs
    have hclosed := (h.close hclose).2.2
    rw [hopen] at hclosed
    cases hclosed
  | peerCloses =>
    obtain ⟨hopen, hs⟩ := enable_bind_eq_ok.mp hs
    cases hs
    exact ⟨(h.close hclose).1, (h.close hclose).2.1, rfl⟩
  | update | remove =>
    obtain ⟨poller, hp, hs⟩ := bind_eq_ok.mp hs
    cases hs
    exact h.close hclose
  | poll others order =>
    obtain ⟨-, hunread, hclosed, ⟨hc, hpending, events, hrevents⟩ | ⟨-, hpending⟩⟩ :=
      poll_cases h.backed hs
    · rw [hpending, hrevents] at hclose
      rw [hrevents, hunread, hclosed]
      obtain ⟨hhup, hinst⟩ := close_mem_handleEvent.mp hclose
      have hhup := hup_iff.mp hhup
      have hempty : ¬ 0 < s.unread := fun hunread =>
        hpoll hinst _ ((mem_seePoll hs).mpr ⟨⟨_, _, rfl⟩, hc, rfl⟩) ⟨hhup, hunread⟩
      refine ⟨?_, by omega, hhup⟩
      by_contra hin
      exact hempty (in_iff.mp hin).1
    · rw [hpending] at hclose
      cases hclose
  | interrupted =>
    obtain ⟨-, hs⟩ := enable_bind_eq_ok.mp hs
    obtain ⟨poller, hp, hs⟩ := bind_eq_ok.mp hs
    cases hs
    exact h.close hclose
  | callback n =>
    obtain ⟨callback, rest, hpending, heq, hunread⟩ := callback_cases hs
    rw [heq] at hclose ⊢
    obtain ⟨hin, hempty, hclosed⟩ := h.close (hpending ▸ List.mem_cons_of_mem _ hclose)
    exact ⟨hin, by simp only; omega, hclosed⟩

omit [DecidableEq C] in
/-- The close callback is called in a calm state. -/
theorem calm_seeClose {s : State C} (h : Calm fd s) {a : Action C} {x : Events × ℕ}
    (hx : x ∈ seeClose s a) : x.1 &&& pollIn = 0 ∧ x.2 = 0 := by
  cases a
  case callback n =>
    unfold seeClose at hx
    dsimp only at hx
    split_ifs at hx with hhead
    · cases hx
      have hclose := h.close (List.mem_of_mem_head? hhead)
      exact ⟨hclose.1, hclose.2.1⟩
    · cases hx
  all_goals cases hx

/-! ### The other direction -/

omit [DecidableEq C] in
/-- The read callback is called for an event with `POLLIN` only. -/
theorem read_mem_handleEvent {events : Events} {unread : ℕ} {closed : Bool}
    (hr : .read ∈ handleEvent installed (report events (pipeReady unread closed))) :
    report events (pipeReady unread closed) &&& pollIn ≠ 0 := by
  have hready : pipeReady unread closed &&& READ_EVENT = pipeReady unread closed &&& pollIn := by
    unfold pipeReady
    split_ifs <;> decide
  have hmask : report events (pipeReady unread closed) &&& READ_EVENT =
      report events (pipeReady unread closed) &&& pollIn := by
    unfold report
    rw [BitVec.and_comm (pipeReady _ _), BitVec.and_assoc, hready, ← BitVec.and_assoc]
  unfold handleEvent at hr
  simp only [List.mem_append, mem_invoke] at hr
  have hread : report events (pipeReady unread closed) &&& READ_EVENT ≠ 0 ∧
      installed .read = true := by simpa using hr
  rw [← hmask]
  exact hread.1

/-- The close callback is still to be called, for an event with `POLLIN` or with bytes that are not
read for this event. -/
structure Owes (s : State C) : Prop where
  close : .close ∈ s.pending
  unread : s.revents &&& pollIn ≠ 0 ∨ 0 < s.unread ∧ .read ∉ s.pending

theorem owes_of_poll {s s' : State C} (h : Backed fd s.poller) {a : Action C} {x : ℕ × Bool}
    (hs : exec fd c installed s a = .ok s') (hx : x ∈ seePoll fd c installed s a)
    (hbad : x.2 = true ∧ 0 < x.1) (hinst : installed .close = true) : Owes s' := by
  obtain ⟨⟨others, order, rfl⟩, hc, rfl⟩ := (mem_seePoll hs).mp hx
  obtain ⟨-, hunread, -, ⟨-, hpending, events, hrevents⟩ | ⟨hno, -⟩⟩ := poll_cases h hs
  · refine ⟨?_, ?_⟩
    · rw [hpending, close_mem_handleEvent, hrevents]
      exact ⟨hup_iff.mpr hbad.1, hinst⟩
    · rw [hpending, hunread, hrevents]
      by_cases hin : report events (pipeReady s.unread s.closed) &&& pollIn = 0
      · exact Or.inr ⟨hbad.2, fun hread => read_mem_handleEvent hread hin⟩
      · exact Or.inl hin
  · exact absurd hc hno

/-- The call comes, or it is still to come. -/
theorem owes_exec {s s' : State C} (h : Owes s) {a : Action C}
    (hs : exec fd c installed s a = .ok s') :
    (∃ x ∈ seeClose s a, ¬ (x.1 &&& pollIn = 0 ∧ x.2 = 0)) ∨ Owes s' := by
  have hbusy : s.pending ≠ [] := List.ne_nil_of_mem h.close
  cases a with
  | peerWrites n =>
    obtain ⟨-, hs⟩ := enable_bind_eq_ok.mp hs
    cases hs
    exact Or.inr ⟨h.close, h.unread.imp_right fun hu => ⟨Nat.add_pos_left hu.1 n, hu.2⟩⟩
  | peerCloses =>
    obtain ⟨-, hs⟩ := enable_bind_eq_ok.mp hs
    cases hs
    exact Or.inr ⟨h.close, h.unread⟩
  | update | remove =>
    obtain ⟨poller, -, hs⟩ := bind_eq_ok.mp hs
    cases hs
    exact Or.inr ⟨h.close, h.unread⟩
  | poll | interrupted => exact absurd (enable_bind_eq_ok.mp hs).1 hbusy
  | callback n =>
    obtain ⟨poller, unread, closed, revents, pending⟩ := s
    cases pending with
    | nil => exact absurd rfl hbusy
    | cons callback rest =>
      by_cases hclose : callback = .close
      · -- it is called
        subst hclose
        refine Or.inl ⟨(revents, unread), rfl, fun hgood => ?_⟩
        rcases h.unread with hin | ⟨hu, -⟩
        · exact hin hgood.1
        · exact hu.ne' hgood.2
      · have hmem : .close ∈ rest := (List.mem_cons.mp h.close).resolve_left (Ne.symm hclose)
        cases callback with
        | close => exact absurd rfl hclose
        | read =>
          obtain ⟨-, hs⟩ := enable_bind_eq_ok.mp hs
          cases hs
          exact Or.inr ⟨hmem, h.unread.imp_right fun hu => absurd List.mem_cons_self hu.2⟩
        | write | error =>
          cases hs
          exact Or.inr ⟨hmem, h.unread.imp_right fun hu =>
            ⟨hu.1, fun hread => hu.2 (List.mem_cons_of_mem _ hread)⟩⟩

/-- What has been found is called for, or still to be called for. -/
theorem owes_run (hfd : Function.Injective fd) {usePoll : Bool} {l : List (Action C)}
    {s : State C} (h : Run (exec fd c installed) (initial usePoll) l s)
    (hdata : AfterData fd c installed usePoll l) :
    Drained fd c installed usePoll l ∨ Owes s := by
  refine (Run.induction (P := fun l s => Backed fd s.poller ∧
    (AfterData fd c installed usePoll l → Drained fd c installed usePoll l ∨ Owes s))
    ⟨backed_initial usePoll, fun _ => Or.inl fun _ x hx => absurd hx List.not_mem_nil⟩ ?_ h).2 hdata
  rintro l t a t' hl ⟨hbacked, ih⟩ ha
  refine ⟨backed_step hfd hbacked ha, fun hdata => ?_⟩
  have hlast : ∀ x ∈ seeClose t a, x.1 &&& pollIn = 0 ∧ x.2 = 0 := fun x hx =>
    hdata x (by rw [seen_snoc hl, List.mem_append]; exact .inr (Option.mem_toList.mpr hx))
  rcases ih fun x hx => hdata x (by rw [seen_snoc hl, List.mem_append]; exact .inl hx) with
    hdrained | howes
  · by_cases hbad : installed .close = true ∧ ∃ x ∈ seePoll fd c installed t a, x.2 = true ∧ 0 < x.1
    · obtain ⟨hinst, x, hx, hbad⟩ := hbad
      exact Or.inr (owes_of_poll hbacked ha hx hbad hinst)
    · refine Or.inl fun hinst x hx hfound => ?_
      rw [seen_snoc hl, List.mem_append, Option.mem_toList] at hx
      rcases hx with hx | hx
      · exact hdrained hinst x hx hfound
      · exact hbad ⟨hinst, x, hx, hfound⟩
  · rcases owes_exec howes ha with ⟨x, hx, hbad⟩ | howes
    · exact absurd (hlast x hx) hbad
    · exact Or.inr howes

/-! ### The condition -/

/-- **The close callback comes after the data** in every run in which no call of `poll` that makes
the channel active finds unread bytes after the peer has closed; and in no other one, when
`handle_event` has made its calls. -/
theorem close_after_data (hfd : Function.Injective fd) {usePoll : Bool} {l : List (Action C)}
    {s : State C} (h : Run (exec fd c installed) (initial usePoll) l s) :
    (Drained fd c installed usePoll l → AfterData fd c installed usePoll l) ∧
    (.close ∉ s.pending → AfterData fd c installed usePoll l →
      Drained fd c installed usePoll l) := by
  constructor
  · intro hdrained
    refine (Run.induction (P := fun l s => Drained fd c installed usePoll l →
      Calm fd s ∧ AfterData fd c installed usePoll l) (fun _ => ?_) ?_ h hdrained).2
    · exact ⟨⟨backed_initial usePoll, fun hclose => absurd hclose List.not_mem_nil⟩,
        fun x hx => absurd hx List.not_mem_nil⟩
    · intro l t a t' hl ih ha hcond
      obtain ⟨hcalm, hcloses⟩ := ih fun hinst x hx => hcond hinst x (by
        rw [seen_snoc hl, List.mem_append]
        exact .inl hx)
      have hlast : installed .close = true →
          ∀ x ∈ seePoll fd c installed t a, ¬ (x.2 = true ∧ 0 < x.1) := by
        intro hinst x hx
        refine hcond hinst x ?_
        rw [seen_snoc hl, List.mem_append]
        exact .inr (Option.mem_toList.mpr hx)
      refine ⟨calm_exec hfd hcalm hlast ha, fun x hx => ?_⟩
      rw [seen_snoc hl, List.mem_append, Option.mem_toList] at hx
      rcases hx with hx | hx
      · exact hcloses x hx
      · exact calm_seeClose hcalm hx
  · intro hcalled hdata
    exact (owes_run hfd h hdata).resolve_right fun howes => hcalled howes.close

/-- The peer writes two bytes and closes its end after they have been read. -/
def readFirst : List (Action ℕ) :=
  [.update 0 .enableReading, .peerWrites 2, .poll (fun _ => 0) [], .callback 2, .peerCloses,
    .poll (fun _ => 0) [], .callback 0]

theorem close_after_data_readFirst :
    Drained id 0 (fun _ => true) false readFirst ∧
    ∃ x ∈ seen (exec id 0 fun _ => true) seeClose (initial false) readFirst,
      x.1 &&& pollIn = 0 ∧ x.2 = 0 := by
  have hcalls : (pollHup, 0) ∈
      seen (exec id 0 fun _ => true) seeClose (initial false) readFirst := by
    decide +kernel
  have hrun : Run (exec id 0 fun _ => true) (initial false) readFirst
      (after (exec id 0 fun _ => true) (initial false) readFirst) := run_after (by decide +kernel)
  have hspec := close_after_data Function.injective_id hrun
  have hdrained : Drained id 0 (fun _ => true) false readFirst := fun _ => by decide +kernel
  exact ⟨hspec.2 (by decide +kernel) (hspec.1 hdrained), _, hcalls, hspec.1 hdrained _ hcalls⟩

/-- It closes its end at once, and one byte is read. -/
def closedFirst : List (Action ℕ) :=
  [.update 0 .enableReading, .peerWrites 2, .peerCloses, .poll (fun _ => 0) [], .callback 1,
    .callback 0]

/-- The close callback is called for an event with `POLLIN`, with a byte unread. -/
theorem not_always_after_data : ¬ ∀ (fd : ℕ → ℕ) (c : ℕ) (installed : Callback → Bool)
    (usePoll : Bool) (l : List (Action ℕ)) (s : State ℕ), Function.Injective fd →
    Run (exec fd c installed) (initial usePoll) l s →
    ∀ x ∈ seen (exec fd c installed) seeClose (initial usePoll) l,
      x.1 &&& pollIn = 0 ∧ x.2 = 0 := by
  intro h
  have hcalls : (pollIn ||| pollHup, 1) ∈
      seen (exec id 0 fun _ => true) seeClose (initial false) closedFirst := by
    decide +kernel
  have hclose := h id 0 (fun _ => true) false closedFirst _ Function.injective_id
    (run_after (by decide +kernel)) _ hcalls
  exact absurd hclose.2 (by decide)

end ToolsCxx.Pollers.HangUp
