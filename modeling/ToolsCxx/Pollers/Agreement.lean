import ToolsCxx.Pollers.Slots
import ToolsCxx.Pollers.Kernel

/-! # The two pollers agree

Both pollers refine the abstract poller, so they go through the same operations without an error, if
only registered channels are removed (`exists_runs`), and have then registered the same
(`SameInterest`). A call of `poll` makes the same channels active with the same bits (`SameActive`)
when the ready ones fit into the buffer of `EPollPoller`: `pollers_agree`. -/

namespace ToolsCxx.Pollers.Agreement

open ToolsCxx.Lib.Machine ToolsCxx.Pollers.Base ToolsCxx.Pollers.Abstract
open ToolsCxx.Pollers.Poll ToolsCxx.Pollers.EPoll ToolsCxx.Pollers.Slots ToolsCxx.Pollers.Kernel

/-! ### Agreement -/

/-- **The pollers have registered the same**, descriptor by descriptor and mask by mask. -/
structure SameInterest {C : Type} (p : PollPoller C) (e : EPollPoller C) : Prop where
  store : p.channelStore = e.channelStore
  nodup : (p.pollfdList.map Pollfd.fd).Nodup
  masks : ∀ f events, (∃ pfd ∈ p.pollfdList, pfd.fd = f ∧ pfd.events.signExtend 32 = events) ↔
    ∃ event, e.interest.lookup f = some event ∧ event.events = events
  ptr : ∀ f event, e.interest.lookup f = some event → e.channelStore.lookup f = some event.ptr

/-- **The pollers report the same**: the same channels, each once, with the same bits. -/
structure SameActive {C : Type} (p : PollPoller C) (e : EPollPoller C) : Prop where
  perm : p.activeChannels.Perm e.activeChannels
  nodup : p.activeChannels.Nodup
  revents : ∀ c ∈ p.activeChannels, (p.channels c).revents = (e.channels c).revents

section
variable {C : Type} {fd : C → ℕ} {i : Interest C} {slots : List C} {p : PollPoller C}
  {e : EPollPoller C} {ready : ℕ → Events} {order : List ℕ}

theorem active_map_fst (l : List C) :
    (i.active fd ready l).map Prod.fst = l.filter fun c => i.reported fd ready c ≠ 0 := by
  unfold Interest.active
  rw [List.map_map]
  exact List.map_id _

theorem mem_active {l : List C} {c : C} {revents : Events} :
    (c, revents) ∈ i.active fd ready l ↔
      c ∈ l ∧ i.reported fd ready c ≠ 0 ∧ revents = i.reported fd ready c := by
  unfold Interest.active
  rw [List.mem_map]
  constructor
  · rintro ⟨d, hd, heq⟩
    cases heq
    rw [List.mem_filter, decide_eq_true_eq] at hd
    exact ⟨hd.1, hd.2, rfl⟩
  · rintro ⟨hc, hready, rfl⟩
    exact ⟨c, List.mem_filter.mpr ⟨hc, decide_eq_true hready⟩, rfl⟩

/-- The array and the interest list of one `Interest`. -/
theorem sameInterest_of (hfd : Function.Injective fd) (hp : Tabled fd i slots p)
    (he : Mirrored fd i e) : SameInterest p e where
  store := hp.holds.store_eq he.holds
  nodup := by
    have hfds : p.pollfdList.map Pollfd.fd = slots.map fd := by
      have := congrArg (List.map Prod.fst) hp.list
      rwa [List.map_map, List.map_map] at this
    rw [hfds]
    exact hp.indexed.nodup.map hfd
  masks f events := by
    rw [hp.exists_mask_iff]
    constructor
    · rintro ⟨c, hc, hf, rfl⟩
      exact ⟨_, (he.interest f _).mpr ⟨c, hc, hf, rfl⟩, rfl⟩
    · rintro ⟨event, hf, rfl⟩
      obtain ⟨c, hc, hfc, rfl⟩ := (he.interest f event).mp hf
      exact ⟨c, hc, hfc, rfl⟩
  ptr f event hf := by
    obtain ⟨c, hc, rfl, rfl⟩ := (he.interest f event).mp hf
    exact he.holds.lookup hc

/-- The entries `epoll_wait` returns are those of the ready channels. -/
theorem mem_readyList_iff (hp : Tabled fd i slots p) (he : Mirrored fd i e) {c : C}
    {revents : Events} :
    (c, revents) ∈ (readyList ready order e).map (fun event => (event.ptr, event.events)) ↔
      (c, revents) ∈ i.active fd ready slots := by
  rw [mem_active, List.mem_map]
  constructor
  · rintro ⟨event, hevent, heq⟩
    obtain ⟨d, hd, hready, rfl⟩ := he.mem_readyList.mp hevent
    cases heq
    exact ⟨(hp.registered d).mpr hd, hready, rfl⟩
  · rintro ⟨hc, hready, rfl⟩
    exact ⟨_, he.mem_readyList.mpr ⟨c, (hp.registered c).mp hc, hready, rfl⟩, rfl⟩

variable [DecidableEq C]

/-- A call of `poll` with room for all ready entries. -/
theorem sameActive_of (hp : Tabled fd i slots p) (he : Mirrored fd i e)
    (hroom : numEvents (p.pollfdList.map (sysPoll ready)) ≤ e.eventListSize) :
    ∃ p' e', Poll.exec fd p (.poll ready order) = .ok p' ∧
      EPoll.exec fd e (.poll ready order) = .ok e' ∧ SameActive p' e' := by
  let l := i.active fd ready slots
  let l' := (readyList ready order e).map fun event => (event.ptr, event.events)
  have hfst : (l.map Prod.fst).Nodup := by
    rw [active_map_fst]
    exact hp.indexed.nodup.filter _
  have hfst' : (l'.map Prod.fst).Nodup := by
    rw [List.map_map]
    exact he.nodup_readyList
  have hperm : l.Perm l' :=
    (List.perm_ext_iff_of_nodup (List.Nodup.of_map _ hfst) (List.Nodup.of_map _ hfst')).mpr
      fun _ => (mem_readyList_iff hp he).symm
  have hall : (readyList ready order e).take e.eventListSize = readyList ready order e := by
    rw [hp.sysPoll_map, numEvents_map fd ready hp.holds.low] at hroom
    have hlen := hperm.length_eq
    rw [List.length_map] at hlen
    exact List.take_of_length_le (hlen ▸ hroom)
  obtain ⟨size, hpoll'⟩ := Kernel.poll_eq he ready order
  rw [hall] at hpoll'
  refine ⟨_, _, Slots.poll_eq hp, hpoll', ?_, ?_, ?_⟩
  · show ((activateAll l _).activeChannels).Perm (activateAll l' _).activeChannels
    rw [activateAll_activeChannels, activateAll_activeChannels]
    exact (hperm.map _).append_left _
  · show (activateAll l _).activeChannels.Nodup
    rw [activateAll_activeChannels]
    exact hfst
  · intro c hc
    have hc : c ∈ (activateAll l { p.toPoller with activeChannels := [] }).activeChannels := hc
    rw [activateAll_activeChannels] at hc
    obtain ⟨⟨d, revents⟩, hmem, rfl⟩ := List.mem_map.mp hc
    exact (activateAll_revents l _ hfst hmem).trans
      (activateAll_revents l' _ hfst' (hperm.mem_iff.mp hmem)).symm

end

/-! ### The runs -/

section
variable {C : Type} [DecidableEq C] {fd : C → ℕ}

/-- **Both pollers go through the operations.** -/
theorem exists_runs (hfd : Function.Injective fd) {l : List (Op C)} {i : Interest C}
    (h : Run Interest.exec Interest.initial l i) :
    ∃ p e slots, Run (Poll.exec fd) Poll.initial l p ∧ Run (EPoll.exec fd) EPoll.initial l e ∧
      Tabled fd i slots p ∧ Mirrored fd i e := by
  have hepoll : ∀ i op i' e, Mirrored fd i e → Interest.exec i op = .ok i' →
      ∃ e', EPoll.exec fd e op = .ok e' ∧ Mirrored fd i' e' :=
    fun i op i' e h hi => mirrored_exec hfd h hi
  obtain ⟨p, slots, hp, htabled⟩ := tabled_run hfd h
  obtain ⟨e, he, hmirrored⟩ := Run.simulation hepoll mirrored_initial h
  exact ⟨p, e, slots, hp, he, htabled, hmirrored⟩

/-- **The pollers are interchangeable.** Whatever is done to them, if only registered channels are
removed, no assertion and no `epoll_ctl` fails, both have registered the same, and both report the
same when there is room for the ready channels. -/
theorem pollers_agree (hfd : Function.Injective fd) {l : List (Op C)} {i : Interest C}
    (h : Run Interest.exec Interest.initial l i) :
    ∃ p e, Run (Poll.exec fd) Poll.initial l p ∧ Run (EPoll.exec fd) EPoll.initial l e ∧
      SameInterest p e ∧
      ∀ ready order, numEvents (p.pollfdList.map (sysPoll ready)) ≤ e.eventListSize →
        ∃ p' e', Poll.exec fd p (.poll ready order) = .ok p' ∧
          EPoll.exec fd e (.poll ready order) = .ok e' ∧ SameActive p' e' := by
  obtain ⟨p, e, slots, hp, he, htabled, hmirrored⟩ := exists_runs hfd h
  exact ⟨p, e, hp, he, sameInterest_of hfd htabled hmirrored,
    fun ready order hroom => sameActive_of htabled hmirrored hroom⟩

end

/-- Three channels are registered, the first is removed and registered again; in between the pollers
poll. -/
def reregistered : List (Op ℕ) :=
  [.update 0 .enableReading, .update 1 .enableReading, .update 2 .enableWriting, .remove 0,
    .poll (fun _ => pollIn) [12, 11], .update 0 .enableWriting, .update 1 .disableReading]

/-- The pollers agree about these, and about a call of `poll` that follows. -/
theorem pollers_agree_reregistered :
    let p := after (Poll.exec fun c => c + 10) Poll.initial reregistered
    let e := after (EPoll.exec fun c => c + 10) EPoll.initial reregistered
    SameInterest p e ∧ ∃ p' e',
      Poll.exec (fun c => c + 10) p (.poll (fun _ => pollOut) [10, 12]) = .ok p' ∧
        EPoll.exec (fun c => c + 10) e (.poll (fun _ => pollOut) [10, 12]) = .ok e' ∧
        SameActive p' e' := by
  have hfd : Function.Injective fun c : ℕ => c + 10 := fun _ _ h => Nat.add_right_cancel h
  obtain ⟨p, e, hp, he, hsame, hpoll⟩ := pollers_agree hfd (l := reregistered)
    (i := after Interest.exec Interest.initial reregistered) (run_after (by decide))
  have hroom : numEvents (p.pollfdList.map (sysPoll fun _ => pollOut)) ≤ e.eventListSize := by
    rw [← after_eq hp, ← after_eq he]
    decide +kernel
  rw [after_eq hp, after_eq he]
  exact ⟨hsame, hpoll _ [10, 12] hroom⟩

end ToolsCxx.Pollers.Agreement
