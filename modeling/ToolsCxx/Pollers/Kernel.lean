import ToolsCxx.Pollers.Abstract
import ToolsCxx.Pollers.EPoll

/-! # `EPollPoller` refines the abstract poller

`Mirrored fd i s`: the kernel's interest list has an entry for each registered channel, with the
channel's events, and the index of a channel says whether it is registered. Every operation keeps
it, and no `epoll_ctl` fails (`mirrored_exec`); a call of `poll` makes ready channels active, as
many as the buffer holds (`poll_eq`). -/

namespace ToolsCxx.Pollers.Kernel

open ToolsCxx.Lib.Machine ToolsCxx.Pollers.Base ToolsCxx.Pollers.Abstract ToolsCxx.Pollers.EPoll

/-- **The interest list has the registered channels.** -/
structure Mirrored {C : Type} (fd : C → ℕ) (i : Interest C) (s : EPollPoller C) : Prop where
  holds : Holds fd i s.toPoller
  added : ∀ c ∈ i.registered, (s.channels c).index = kAdded
  new : ∀ c, c ∉ i.registered → (s.channels c).index = kNew
  interest : ∀ f e, s.interest.lookup f = some e ↔
    ∃ c ∈ i.registered, fd c = f ∧ e = ⟨i.events c, c⟩

variable {C : Type} {fd : C → ℕ} {i : Interest C} {s : EPollPoller C} {c : C}
  {ready : ℕ → Events} {order : List ℕ}

theorem mirrored_initial : Mirrored fd (Interest.initial : Interest C) EPoll.initial where
  holds := holds_initial
  added c hc := absurd hc (Finset.notMem_empty c)
  new _ _ := rfl
  interest f e := by
    show (∅ : AList fun _ : ℕ => EpollEvent C).lookup f = some e ↔ ∃ c ∈ (∅ : Finset C), _
    simp

/-- The descriptors in the interest list. -/
theorem Mirrored.mem_iff (h : Mirrored fd i s) {f : ℕ} :
    f ∈ s.interest ↔ ∃ c ∈ i.registered, fd c = f := by
  rw [← AList.lookup_isSome, Option.isSome_iff_exists]
  constructor
  · rintro ⟨e, he⟩
    obtain ⟨c, hc, hf, -⟩ := (h.interest f e).mp he
    exact ⟨c, hc, hf⟩
  · rintro ⟨c, hc, hf⟩
    exact ⟨_, (h.interest f _).mpr ⟨c, hc, hf, rfl⟩⟩

/-! ### The ready list -/

/-- **What `epoll_wait` can return**: the registered channels that are ready. -/
theorem Mirrored.readyEvent_eq_some (h : Mirrored fd i s) {f : ℕ} {e : EpollEvent C} :
    readyEvent ready s.interest f = some e ↔ ∃ c ∈ i.registered, fd c = f ∧
      i.reported fd ready c ≠ 0 ∧ e = ⟨i.reported fd ready c, c⟩ := by
  have hval : ∀ {c}, c ∈ i.registered → fd c = f → readyEvent ready s.interest f =
      if i.reported fd ready c = 0 then none else some ⟨i.reported fd ready c, c⟩ := by
    rintro c hc rfl
    unfold readyEvent
    rw [(h.interest (fd c) _).mpr ⟨c, hc, rfl, rfl⟩]
    rfl
  constructor
  · intro he
    have hf : f ∈ s.interest := by
      rw [← AList.lookup_isSome]
      unfold readyEvent at he
      cases hf : s.interest.lookup f with
      | none => rw [hf] at he; cases he
      | some event => rfl
    obtain ⟨c, hc, hfc⟩ := h.mem_iff.mp hf
    rw [hval hc hfc] at he
    split_ifs at he with hzero
    cases he
    exact ⟨c, hc, hfc, hzero, rfl⟩
  · rintro ⟨c, hc, hfc, hzero, rfl⟩
    rw [hval hc hfc, if_neg hzero]

/-- The ready entries, in the order of the kernel. -/
def readyList (ready : ℕ → Events) (order : List ℕ) (s : EPollPoller C) : List (EpollEvent C) :=
  (s.interest.keys ++ order).dedup.filterMap (readyEvent ready s.interest)

theorem Mirrored.mem_readyList (h : Mirrored fd i s) {e : EpollEvent C} :
    e ∈ readyList ready order s ↔ ∃ c ∈ i.registered, i.reported fd ready c ≠ 0 ∧
      e = ⟨i.reported fd ready c, c⟩ := by
  unfold readyList
  rw [List.mem_filterMap]
  constructor
  · rintro ⟨f, -, he⟩
    obtain ⟨c, hc, -, hready, rfl⟩ := h.readyEvent_eq_some.mp he
    exact ⟨c, hc, hready, rfl⟩
  · rintro ⟨c, hc, hready, rfl⟩
    refine ⟨fd c, ?_, h.readyEvent_eq_some.mpr ⟨c, hc, rfl, hready, rfl⟩⟩
    rw [List.mem_dedup, List.mem_append]
    exact Or.inl (h.mem_iff.mpr ⟨c, hc, rfl⟩)

/-- Each channel is returned once. -/
theorem Mirrored.nodup_readyList (h : Mirrored fd i s) :
    ((readyList ready order s).map EpollEvent.ptr).Nodup := by
  refine List.Nodup.map_on (fun e he e' he' heq => ?_) ?_
  · obtain ⟨c, -, -, rfl⟩ := h.mem_readyList.mp he
    obtain ⟨c', -, -, rfl⟩ := h.mem_readyList.mp he'
    cases heq
    rfl
  · refine List.Nodup.filterMap (fun f f' e he he' => ?_) (List.nodup_dedup _)
    obtain ⟨c, -, rfl, -, rfl⟩ := h.readyEvent_eq_some.mp he
    obtain ⟨c', -, rfl, -, heq⟩ := h.readyEvent_eq_some.mp he'
    rw [show c = c' from congrArg EpollEvent.ptr heq]

/-! ### Registration -/

theorem update_of_epollCtl {op : EpollOp} {t : EPollPoller C}
    {interest : AList fun _ : ℕ => EpollEvent C}
    (h : epollCtl op (fd c) ⟨(t.channels c).events, c⟩ t.interest = .ok interest) :
    EPoll.update fd op c t = .ok { t with interest := interest } := by
  unfold EPoll.update
  rw [h]
  rfl

variable [DecidableEq C]

omit [DecidableEq C] in
/-- A change of a channel leaves the entries of the other descriptors as they are. -/
theorem exists_entry_congr {i' : Interest C} {f : ℕ} {e : EpollEvent C} (hf : f ≠ fd c)
    (hreg : ∀ d, d ≠ c → (d ∈ i.registered ↔ d ∈ i'.registered))
    (hevents : ∀ d, d ≠ c → i'.events d = i.events d) :
    (∃ d ∈ i.registered, fd d = f ∧ e = ⟨i.events d, d⟩) ↔
      ∃ d ∈ i'.registered, fd d = f ∧ e = ⟨i'.events d, d⟩ := by
  refine exists_congr fun d => ?_
  by_cases hdc : d = c
  · subst hdc
    exact ⟨fun hd => absurd hd.2.1.symm hf, fun hd => absurd hd.2.1.symm hf⟩
  · rw [hreg d hdc, hevents d hdc]

/-- The interest list after `epoll_ctl` with `ADD` or `MOD`. -/
theorem Mirrored.interest_insert (hfd : Function.Injective fd) (h : Mirrored fd i s)
    (change : Change) (f : ℕ) (e : EpollEvent C) :
    (s.interest.insert (fd c) ⟨change.apply (i.events c), c⟩).lookup f = some e ↔
      ∃ d ∈ (i.update c change).registered, fd d = f ∧ e = ⟨(i.update c change).events d, d⟩ := by
  by_cases hf : f = fd c
  · subst hf
    rw [AList.lookup_insert, Option.some.injEq]
    constructor
    · rintro rfl
      exact ⟨c, Finset.mem_insert_self _ _, rfl, by rw [update_events_self]⟩
    · rintro ⟨d, -, heq, rfl⟩
      cases hfd heq
      rw [update_events_self]
  · rw [AList.lookup_insert_ne hf, h.interest]
    refine exists_entry_congr hf (fun d hdc => ?_) fun d hdc => update_events_of_ne hdc
    show d ∈ i.registered ↔ d ∈ insert c i.registered
    rw [Finset.mem_insert]
    exact (or_iff_right hdc).symm

/-- The interest list after `epoll_ctl` with `DEL`. -/
theorem Mirrored.interest_erase (hfd : Function.Injective fd) (h : Mirrored fd i s) (f : ℕ)
    (e : EpollEvent C) : (s.interest.erase (fd c)).lookup f = some e ↔
      ∃ d ∈ (i.remove c).registered, fd d = f ∧ e = ⟨i.events d, d⟩ := by
  by_cases hf : f = fd c
  · subst hf
    rw [AList.lookup_erase]
    constructor
    · exact nofun
    · rintro ⟨d, hd, heq, -⟩
      exact absurd (hfd heq) (Finset.ne_of_mem_erase hd)
  · rw [AList.lookup_erase_ne hf, h.interest]
    refine exists_entry_congr hf (fun d hdc => ?_) fun _ _ => rfl
    show d ∈ i.registered ↔ d ∈ i.registered.erase c
    rw [Finset.mem_erase]
    exact (and_iff_right hdc).symm

/-- The events of a channel, when `update` reads them. -/
theorem events_of_setEvents {t : Poller C} {events : Events} :
    ((t.setEvents c events).channels c).events = events := by
  show (Function.update t.channels c _ c).events = _
  rw [Function.update_self]

theorem events_of_setIndex {t : Poller C} {k : ℤ} :
    ((t.setIndex c k).channels c).events = (t.channels c).events := by
  show (Function.update t.channels c _ c).events = _
  rw [Function.update_self]

/-- `enable_*` and `disable_*` of a channel that is not registered. -/
theorem mirrored_add (hfd : Function.Injective fd) (h : Mirrored fd i s) (hc : c ∉ i.registered)
    (change : Change) :
    ∃ s', exec fd s (.update c change) = .ok s' ∧ Mirrored fd (i.update c change) s' := by
  let events := change.apply (s.channels c).events
  let s₁ : Poller C := s.toPoller.setEvents c events
  let base : Poller C :=
    ({ s₁ with channelStore := s.channelStore.insert (fd c) c }).setIndex c kAdded
  let interest := s.interest.insert (fd c) ⟨(base.channels c).events, c⟩
  let s' : EPollPoller C := { s with toPoller := base, interest := interest }
  have hindex : (s₁.channels c).index = kNew := (congrFun setEvents_index c).trans (h.new c hc)
  have hstore : s₁.channelStore.lookup (fd c) = none :=
    show s.channelStore.lookup (fd c) = none from h.holds.lookup_none hfd hc
  have hnotin : fd c ∉ s.interest := fun hmem => by
    obtain ⟨d, hd, heq⟩ := h.mem_iff.mp hmem
    exact hc (hfd heq ▸ hd)
  have hexec : exec fd s (.update c change) = .ok s' := by
    show updateChannel fd c { s with toPoller := s₁ } = _
    unfold updateChannel
    rw [if_pos hindex, check_bind_of hstore]
    exact update_of_epollCtl (t := { s with toPoller := base }) (check_bind_of hnotin)
  have hbase : (fun d => (base.channels d).index) =
      Function.update (fun d => (s.channels d).index) c kAdded := by
    refine setIndex_index.trans ?_
    show Function.update (fun d => (s₁.channels d).index) c kAdded = _
    rw [setEvents_index]
  refine ⟨s', hexec, (h.holds.update change _ (h.holds.store_insert hfd)).setIndex _,
    fun d hd => ?_, fun d hd => ?_, ?_⟩
  · refine (congrFun hbase d).trans ?_
    rcases Finset.mem_insert.mp hd with rfl | hd
    · rw [Function.update_self]
    · have hdc : d ≠ c := fun hdc => hc (hdc ▸ hd)
      rw [Function.update_of_ne hdc, h.added d hd]
  · have hd : d ∉ insert c i.registered := hd
    rw [Finset.mem_insert, not_or] at hd
    refine (congrFun hbase d).trans ?_
    rw [Function.update_of_ne hd.1, h.new d hd.2]
  · have hnew : (base.channels c).events = change.apply (i.events c) :=
      (events_of_setIndex.trans events_of_setEvents).trans
        (congrArg change.apply (h.holds.events c))
    show ∀ f e, interest.lookup f = some e ↔ _
    unfold interest
    rw [hnew]
    exact h.interest_insert hfd change

/-- `enable_*` and `disable_*` of a registered channel. -/
theorem mirrored_mod (hfd : Function.Injective fd) (h : Mirrored fd i s) (hc : c ∈ i.registered)
    (change : Change) :
    ∃ s', exec fd s (.update c change) = .ok s' ∧ Mirrored fd (i.update c change) s' := by
  let events := change.apply (s.channels c).events
  let s₁ : Poller C := s.toPoller.setEvents c events
  let interest := s.interest.insert (fd c) ⟨(s₁.channels c).events, c⟩
  let s' : EPollPoller C := { s with toPoller := s₁, interest := interest }
  have hindex : (s₁.channels c).index = kAdded :=
    (congrFun setEvents_index c).trans (h.added c hc)
  have hstore : s₁.channelStore.lookup (fd c) = some c := h.holds.lookup hc
  have hin : fd c ∈ s.interest := h.mem_iff.mpr ⟨c, hc, rfl⟩
  have hexec : exec fd s (.update c change) = .ok s' := by
    show updateChannel fd c { s with toPoller := s₁ } = _
    unfold updateChannel
    rw [if_neg (by rw [hindex]; decide), check_bind_of hindex, check_bind_of hstore]
    exact update_of_epollCtl (t := { s with toPoller := s₁ }) (check_bind_of hin)
  have hinsert : insert c i.registered = i.registered := Finset.insert_eq_of_mem hc
  refine ⟨s', hexec, ?_, fun d hd => ?_, fun d hd => ?_, ?_⟩
  · exact h.holds.update change s.channelStore (by rw [hinsert]; exact h.holds.store)
  · have hd : d ∈ insert c i.registered := hd
    rw [hinsert] at hd
    exact (congrFun setEvents_index d).trans (h.added d hd)
  · have hd : d ∉ insert c i.registered := hd
    rw [hinsert] at hd
    exact (congrFun setEvents_index d).trans (h.new d hd)
  · have hnew : (s₁.channels c).events = change.apply (i.events c) :=
      events_of_setEvents.trans (congrArg change.apply (h.holds.events c))
    show ∀ f e, interest.lookup f = some e ↔ _
    unfold interest
    rw [hnew]
    exact h.interest_insert hfd change

/-- `remove` of a channel. -/
theorem mirrored_del (hfd : Function.Injective fd) (h : Mirrored fd i s) (hc : c ∈ i.registered) :
    ∃ s', exec fd s (.remove c) = .ok s' ∧ Mirrored fd (i.remove c) s' := by
  let s₁ : Poller C := { s.toPoller with channelStore := s.channelStore.erase (fd c) }
  let s' : EPollPoller C :=
    { s with toPoller := s₁.setIndex c kNew, interest := s.interest.erase (fd c) }
  have hin : fd c ∈ s.interest := h.mem_iff.mpr ⟨c, hc, rfl⟩
  have hexec : exec fd s (.remove c) = .ok s' := by
    show removeChannel fd c s = _
    unfold removeChannel
    rw [check_bind_of (h.added c hc), check_bind_of (h.holds.lookup hc)]
    show (EPoll.update fd .del c { s with toPoller := s₁ } >>= _) = _
    rw [update_of_epollCtl (t := { s with toPoller := s₁ }) (check_bind_of hin)]
    rfl
  refine ⟨s', hexec, (h.holds.remove hfd).setIndex _, fun d hd => ?_, fun d hd => ?_,
    h.interest_erase hfd⟩
  · obtain ⟨hne, hd⟩ := Finset.mem_erase.mp hd
    refine (congrFun setIndex_index d).trans ?_
    rw [Function.update_of_ne hne]
    exact h.added d hd
  · refine (congrFun setIndex_index d).trans ?_
    rw [Function.update_apply]
    split_ifs with hdc
    · rfl
    · exact h.new d fun hreg => hd (Finset.mem_erase.mpr ⟨hdc, hreg⟩)

/-! ### `poll` -/

/-- **The loop of `fill_active_channels`** makes the channels of the entries active. -/
theorem fill_eq : ∀ (l : List (EpollEvent C)) {t : Poller C},
    (∀ e ∈ l, t.channelStore.lookup (fd e.ptr) = some e.ptr) →
    fillActiveChannels fd l t = .ok (activateAll (l.map fun e => (e.ptr, e.events)) t)
  | [], _, _ => rfl
  | e :: l, t, hl => by
    rw [fillActiveChannels, check_bind_of (hl e List.mem_cons_self)]
    exact fill_eq l fun e' he' => hl e' (List.mem_cons_of_mem e he')

/-- **A call of `poll`** makes ready channels active. -/
theorem poll_eq (h : Mirrored fd i s) (ready : ℕ → Events) (order : List ℕ) :
    ∃ size, poll fd ready order s = .ok { s with
      toPoller := activateAll
        (((readyList ready order s).take s.eventListSize).map fun e => (e.ptr, e.events))
        { s.toPoller with activeChannels := [] }
      eventListSize := size } := by
  have hfill : fillActiveChannels fd ((readyList ready order s).take s.eventListSize)
      { s.toPoller with activeChannels := [] } = _ := fill_eq _ fun e he => by
    obtain ⟨c, hc, -, rfl⟩ := h.mem_readyList.mp (List.mem_of_mem_take he)
    exact h.holds.lookup hc
  have hfits : ((readyList ready order s).take s.eventListSize).length ≤ s.eventListSize :=
    List.length_take_le _ _
  unfold poll
  show ∃ size, (if ((readyList ready order s).take s.eventListSize).length = 0 then _ else
    (check (((readyList ready order s).take s.eventListSize).length ≤ s.eventListSize) _ >>=
      fun _ => fillActiveChannels fd ((readyList ready order s).take s.eventListSize) _ >>= _)) = _
  by_cases hzero : ((readyList ready order s).take s.eventListSize).length = 0
  · rw [if_pos hzero, List.length_eq_zero_iff.mp hzero]
    exact ⟨_, rfl⟩
  · rw [if_neg hzero, check_bind_of hfits, hfill]
    exact ⟨_, rfl⟩

theorem mirrored_poll (h : Mirrored fd i s) (l : List (C × Events)) (size : ℕ) :
    Mirrored fd i { s with
      toPoller := activateAll l { s.toPoller with activeChannels := [] }
      eventListSize := size } where
  holds := Holds.activateAll h.holds.clear l
  added c hc := (activateAll_channels l _ c).2.trans (h.added c hc)
  new c hc := (activateAll_channels l _ c).2.trans (h.new c hc)
  interest := h.interest

/-! ### All operations -/

/-- **`EPollPoller` refines the abstract poller**: no assertion and no `epoll_ctl` fails, and the
interest list has the registered channels again. -/
theorem mirrored_exec (hfd : Function.Injective fd) (h : Mirrored fd i s) {op : Op C}
    {i' : Interest C} (hi : i.exec op = .ok i') :
    ∃ s', exec fd s op = .ok s' ∧ Mirrored fd i' s' := by
  cases op with
  | update c change =>
    cases hi
    by_cases hc : c ∈ i.registered
    · exact mirrored_mod hfd h hc change
    · exact mirrored_add hfd h hc change
  | remove c =>
    obtain ⟨hc, hi⟩ := enable_bind_eq_ok.mp hi
    cases hi
    exact mirrored_del hfd h hc
  | poll ready order =>
    cases hi
    obtain ⟨size, hpoll⟩ := poll_eq h ready order
    exact ⟨_, hpoll, mirrored_poll h _ size⟩
  | interrupted =>
    cases hi
    exact ⟨_, rfl, h.holds.clear, h.added, h.new, h.interest⟩

end ToolsCxx.Pollers.Kernel
