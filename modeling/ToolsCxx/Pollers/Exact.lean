import ToolsCxx.Pollers.Growth
import ToolsCxx.Pollers.HangUp

/-! # Few channels

As long as no more channels are registered than `m_eventList` holds at first, either poller reports
all channels that are ready, each once (`poll_exact`). -/

namespace ToolsCxx.Pollers.Exact

open ToolsCxx.Lib.Machine ToolsCxx.Pollers.Base ToolsCxx.Pollers.Abstract ToolsCxx.Pollers.EPoll
open ToolsCxx.Pollers.Slots ToolsCxx.Pollers.Kernel ToolsCxx.Pollers.Agreement
open ToolsCxx.Pollers.HangUp ToolsCxx.Pollers.Growth

variable {C : Type}

/-- The poller has the channels of `i`. -/
def Watches (fd : C → ℕ) (i : Interest C) : AnyPoller C → Prop
  | .inl p => ∃ slots, Tabled fd i slots p
  | .inr e => Mirrored fd i e ∧ kEventListSize ≤ e.eventListSize

/-- **What `poll` has reported**: the registered channels that are ready, with their bits. -/
structure Reports (fd : C → ℕ) (i : Interest C) (ready : ℕ → Events) (s : Poller C) : Prop where
  active : ∀ c, c ∈ s.activeChannels ↔ c ∈ i.registered ∧ i.reported fd ready c ≠ 0
  nodup : s.activeChannels.Nodup
  revents : ∀ c ∈ s.activeChannels, (s.channels c).revents = i.reported fd ready c

variable [DecidableEq C] {fd : C → ℕ} {i : Interest C} {ready : ℕ → Events}

omit [DecidableEq C] in
theorem watches_create (usePoll : Bool) :
    Watches fd (Interest.initial : Interest C) (createPoller usePoll) := by
  cases usePoll with
  | true => exact ⟨[], tabled_initial⟩
  | false => exact ⟨mirrored_initial, le_rfl⟩

theorem watches_exec (hfd : Function.Injective fd) {p : AnyPoller C} (h : Watches fd i p)
    {op : Op C} {i' : Interest C} (hi : i.exec op = .ok i') :
    ∃ p', execPoller fd p op = .ok p' ∧ Watches fd i' p' := by
  cases p with
  | inl p =>
    obtain ⟨slots, htabled⟩ := h
    obtain ⟨q, hq, slots', htabled'⟩ := tabled_exec hfd htabled hi
    refine ⟨.inl q, ?_, slots', htabled'⟩
    show (Poll.exec fd p op >>= _) = _
    rw [hq]
    rfl
  | inr e =>
    obtain ⟨hmirrored, hsize⟩ := h
    obtain ⟨q, hq, hmirrored'⟩ := mirrored_exec hfd hmirrored hi
    have hpos : 0 < e.eventListSize := lt_of_lt_of_le (by decide) hsize
    refine ⟨.inr q, ?_, hmirrored', ?_⟩
    · show (EPoll.exec fd e op >>= _) = _
      rw [hq]
      rfl
    · rw [eventListSize_exec hq hpos]
      exact hsize.trans (Nat.le_mul_of_pos_right _ (Nat.two_pow_pos _))

/-- Some channels are made active, each of them once. -/
theorem reports_activateAll {s : Poller C} {l : List (C × Events)}
    (hnodup : (l.map Prod.fst).Nodup)
    (hl : ∀ c revents, (c, revents) ∈ l ↔
      c ∈ i.registered ∧ i.reported fd ready c ≠ 0 ∧ revents = i.reported fd ready c) :
    Reports fd i ready (activateAll l { s with activeChannels := [] }) := by
  have hactive : (activateAll l { s with activeChannels := [] }).activeChannels = l.map Prod.fst :=
    activateAll_activeChannels l _
  refine ⟨fun c => ?_, hactive ▸ hnodup, fun c hc => ?_⟩
  · rw [hactive, List.mem_map]
    constructor
    · rintro ⟨⟨d, revents⟩, hmem, rfl⟩
      obtain ⟨hd, hready, -⟩ := (hl d revents).mp hmem
      exact ⟨hd, hready⟩
    · rintro ⟨hc, hready⟩
      exact ⟨(c, _), (hl c _).mpr ⟨hc, hready, rfl⟩, rfl⟩
  · exact ((hl c _).mp (revents_of_activateAll hnodup hc)).2.2

/-- **A call of `poll`**, when few channels are registered. -/
theorem poll_exact (hfd : Function.Injective fd) (hfew : i.registered.card ≤ kEventListSize)
    {p : AnyPoller C} (h : Watches fd i p) (order : List ℕ) :
    ∃ p', execPoller fd p (.poll ready order) = .ok p' ∧ Watches fd i p' ∧
      Reports fd i ready (base p') := by
  obtain ⟨p', hp', hwatches⟩ := watches_exec hfd h (rfl : i.exec (.poll ready order) = .ok i)
  refine ⟨p', hp', hwatches, ?_⟩
  cases p with
  | inl p =>
    obtain ⟨slots, htabled⟩ := h
    obtain ⟨q, hq, hp'⟩ := bind_eq_ok.mp hp'
    cases hp'
    cases (Slots.poll_eq htabled).symm.trans hq
    refine reports_activateAll ?_ fun c revents => ?_
    · rw [active_map_fst]
      exact htabled.indexed.nodup.filter _
    · rw [mem_active, htabled.registered]
  | inr e =>
    obtain ⟨hmirrored, hsize⟩ := h
    obtain ⟨q, hq, hp'⟩ := bind_eq_ok.mp hp'
    cases hp'
    obtain ⟨size, hpoll⟩ := Kernel.poll_eq hmirrored ready order
    cases hpoll.symm.trans hq
    have hnodup : ((readyList ready order e).map EpollEvent.ptr).Nodup := hmirrored.nodup_readyList
    -- there is room for all of them
    have hroom : (readyList ready order e).length ≤ e.eventListSize := by
      refine le_trans ?_ (hfew.trans hsize)
      have hsub : ((readyList ready order e).map EpollEvent.ptr).toFinset ⊆ i.registered := by
        intro c hc
        obtain ⟨event, hevent, rfl⟩ := List.mem_map.mp (List.mem_toFinset.mp hc)
        obtain ⟨d, hd, -, rfl⟩ := hmirrored.mem_readyList.mp hevent
        exact hd
      have hle := Finset.card_le_card hsub
      rwa [List.toFinset_card_of_nodup hnodup, List.length_map] at hle
    show Reports fd i ready (activateAll (((readyList ready order e).take e.eventListSize).map
      fun e => (e.ptr, e.events)) { e.toPoller with activeChannels := [] })
    rw [List.take_of_length_le hroom]
    refine reports_activateAll ?_ fun c revents => ?_
    · rw [List.map_map]
      exact hnodup
    · rw [List.mem_map]
      constructor
      · rintro ⟨event, hevent, heq⟩
        obtain ⟨d, hd, hready, rfl⟩ := hmirrored.mem_readyList.mp hevent
        cases heq
        exact ⟨hd, hready, rfl⟩
      · rintro ⟨hc, hready, rfl⟩
        exact ⟨_, hmirrored.mem_readyList.mpr ⟨c, hc, hready, rfl⟩, rfl⟩

end ToolsCxx.Pollers.Exact
