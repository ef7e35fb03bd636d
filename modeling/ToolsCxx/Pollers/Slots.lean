import ToolsCxx.Lib.SlotTable
import ToolsCxx.Pollers.Abstract
import ToolsCxx.Pollers.Poll

/-! # `PollPoller` refines the abstract poller

`Tabled fd i slots s`: the `pollfd` in each slot is that of the channel there, with the channel's
events, and the indices are the slots (`Indexed`). Every operation keeps it (`tabled_exec`), and a
call of `poll` makes the ready channels active in the order of their slots (`poll_eq`). -/

namespace ToolsCxx.Pollers.Slots

open ToolsCxx.Lib.Machine ToolsCxx.Lib.SlotTable
open ToolsCxx.Pollers.Base ToolsCxx.Pollers.Abstract ToolsCxx.Pollers.Poll

/-- What an entry asks for. -/
def entry (pfd : Pollfd) : ℕ × BitVec 16 := (pfd.fd, pfd.events)

variable {C : Type}

/-- **The array has the registered channels**, and every channel knows its slot. -/
structure Tabled (fd : C → ℕ) (i : Interest C) (slots : List C) (s : PollPoller C) : Prop where
  holds : Holds fd i s.toPoller
  registered : ∀ c, c ∈ slots ↔ c ∈ i.registered
  indexed : Indexed slots fun c => (s.channels c).index
  list : s.pollfdList.map entry = slots.map fun c => (fd c, (i.events c).truncate 16)

variable {fd : C → ℕ} {i : Interest C} {slots : List C} {s : PollPoller C} {c : C}
  {ready : ℕ → Events}

theorem tabled_initial : Tabled fd (Interest.initial : Interest C) [] Poll.initial where
  holds := holds_initial
  registered c := by
    show c ∈ [] ↔ c ∈ (∅ : Finset C)
    simp
  indexed := indexed_nil
  list := rfl

theorem Tabled.length (h : Tabled fd i slots s) : s.pollfdList.length = slots.length := by
  have := congrArg List.length h.list
  rwa [List.length_map, List.length_map] at this

/-- The slot of a registered channel, and its entry. -/
theorem Tabled.slot (h : Tabled fd i slots s) (hc : c ∈ i.registered) :
    ∃ (k : ℕ) (pfd : Pollfd), (s.channels c).index = k ∧ k < slots.length ∧ slots[k]? = some c ∧
      s.pollfdList[k]? = some pfd ∧ pfd.fd = fd c := by
  obtain ⟨k, hk, hslot⟩ := h.indexed.getElem? ((h.registered c).mpr hc)
  have hentry := congrArg (fun l => l[k]?) h.list
  simp only [List.getElem?_map, hslot, Option.map_some, Option.map_eq_some_iff] at hentry
  obtain ⟨pfd, hpfd, heq⟩ := hentry
  exact ⟨k, pfd, hk, (List.getElem?_eq_some_iff.mp hslot).1, hslot, hpfd, congrArg Prod.fst heq⟩

/-- The masks in the array are those of the registered channels. -/
theorem Tabled.exists_mask_iff (h : Tabled fd i slots s) {f : ℕ} {events : Events} :
    (∃ pfd ∈ s.pollfdList, pfd.fd = f ∧ pfd.events.signExtend 32 = events) ↔
      ∃ c ∈ i.registered, fd c = f ∧ i.events c = events := by
  constructor
  · rintro ⟨pfd, hpfd, rfl, rfl⟩
    have hmem := List.mem_map_of_mem (f := entry) hpfd
    rw [h.list] at hmem
    obtain ⟨c, hc, heq⟩ := List.mem_map.mp hmem
    refine ⟨c, (h.registered c).mp hc, congrArg Prod.fst heq, ?_⟩
    rw [show pfd.events = (i.events c).truncate 16 from (congrArg Prod.snd heq).symm,
      (h.holds.low c).short.1]
  · rintro ⟨c, hc, rfl, rfl⟩
    have hmem := List.mem_map_of_mem (f := fun c => (fd c, (i.events c).truncate 16))
      ((h.registered c).mpr hc)
    rw [← h.list] at hmem
    obtain ⟨pfd, hpfd, heq⟩ := List.mem_map.mp hmem
    refine ⟨pfd, hpfd, congrArg Prod.fst heq, ?_⟩
    rw [show pfd.events = (i.events c).truncate 16 from congrArg Prod.snd heq,
      (h.holds.low c).short.1]

/-- The array ends with the entry of the last channel. -/
theorem Tabled.concat {y : C} (h : Tabled fd i (slots ++ [y]) s) : ∃ l back,
    s.pollfdList = l ++ [back] ∧ back.fd = fd y ∧
      l.map entry = (slots.map fun c => (fd c, (i.events c).truncate 16)) ∧
      entry back = (fd y, (i.events y).truncate 16) := by
  have hlist := h.list
  rw [List.map_append, List.map_eq_append_iff] at hlist
  obtain ⟨l, l', heq, hl, hl'⟩ := hlist
  obtain ⟨back, rfl, hback⟩ := List.map_eq_singleton_iff.mp hl'
  exact ⟨l, back, heq, congrArg Prod.fst hback, hl, hback⟩

/-! ### The system call -/

/-- The entry of a channel after the system call. -/
def polled (fd : C → ℕ) (i : Interest C) (ready : ℕ → Events) (c : C) : Pollfd :=
  ⟨fd c, (i.events c).truncate 16, (i.reported fd ready c).truncate 16⟩

theorem Tabled.sysPoll_map (h : Tabled fd i slots s) :
    s.pollfdList.map (sysPoll ready) = slots.map (polled fd i ready) := by
  let f : ℕ × BitVec 16 → Pollfd := fun x =>
    ⟨x.1, x.2, (report (x.2.signExtend 32) (ready x.1)).truncate 16⟩
  calc s.pollfdList.map (sysPoll ready) = (s.pollfdList.map entry).map f := by
        rw [List.map_map]
        rfl
    _ = slots.map (polled fd i ready) := by
        rw [h.list, List.map_map]
        refine List.map_congr_left fun c _ => ?_
        show Pollfd.mk _ _ ((report (((i.events c).truncate 16).signExtend 32) _).truncate 16) = _
        rw [(h.holds.low c).short.1]
        rfl

/-- The `short` has the bits of the report. -/
theorem polled_revents (fd : C → ℕ) (ready : ℕ → Events) (hlow : ∀ c, Low (i.events c)) (c : C) :
    (polled fd i ready c).revents.signExtend 32 = i.reported fd ready c ∧
      (0 < (polled fd i ready c).revents.toInt ↔ i.reported fd ready c ≠ 0) ∧
      ((polled fd i ready c).revents = 0 ↔ i.reported fd ready c = 0) :=
  (low_report (hlow c)).short

theorem numEvents_map (fd : C → ℕ) (ready : ℕ → Events) (hlow : ∀ c, Low (i.events c))
    (l : List C) : numEvents (l.map (polled fd i ready)) = (i.active fd ready l).length := by
  unfold numEvents Interest.active
  rw [List.countP_map, List.length_map, ← List.countP_eq_length_filter]
  refine List.countP_congr fun c _ => ?_
  have hzero := (polled_revents fd ready hlow c).2.2
  simp only [Function.comp, decide_eq_true_eq]
  exact not_congr hzero

variable [DecidableEq C]

/-! ### Registration -/

/-- `enable_*` and `disable_*` of a channel that is not registered. -/
theorem tabled_push (hfd : Function.Injective fd) (h : Tabled fd i slots s) (hc : c ∉ i.registered)
    (change : Change) : ∃ s', exec fd s (.update c change) = .ok s' ∧
      Tabled fd (i.update c change) (slots ++ [c]) s' := by
  have hslot : c ∉ slots := fun hx => hc ((h.registered c).mp hx)
  have hidx : (s.channels c).index = -1 := h.indexed.absent c hslot
  let events := change.apply (s.channels c).events
  let s₁ : Poller C := s.toPoller.setEvents c events
  let pfd : Pollfd := ⟨fd c, events.truncate 16, 0⟩
  let s' : PollPoller C := {
    toPoller := ({ s₁ with channelStore := s.channelStore.insert (fd c) c }).setIndex c
      ((s.pollfdList ++ [pfd]).length - 1)
    pollfdList := s.pollfdList ++ [pfd] }
  have hnew : s₁.channels c = { s.channels c with events := events } := Function.update_self _ _ _
  have hexec : exec fd s (.update c change) = .ok s' := by
    show updateChannel fd c { s with toPoller := s₁ } = _
    unfold updateChannel
    dsimp only
    rw [hnew]
    dsimp only
    rw [if_pos (by rw [hidx]; decide)]
    exact check_bind_of (show s.channelStore.lookup (fd c) = none from h.holds.lookup_none hfd hc)
  have hlast : ((s.pollfdList ++ [pfd]).length : ℤ) - 1 = slots.length := by
    rw [List.length_append, List.length_singleton, h.length]
    push_cast
    omega
  refine ⟨s', hexec, (h.holds.update change _ (h.holds.store_insert hfd)).setIndex _, ?_, ?_, ?_⟩
  · intro d
    show d ∈ slots ++ [c] ↔ d ∈ insert c i.registered
    rw [List.mem_append, List.mem_singleton, Finset.mem_insert, h.registered d, or_comm]
  · have hpush := h.indexed.push hslot
    show Indexed _ fun d => ((Poller.setIndex c _ _).channels d).index
    rw [setIndex_index, hlast]
    show Indexed _ (Function.update (fun d => (s₁.channels d).index) c _)
    rw [setEvents_index]
    exact hpush
  · have hnew' : events = change.apply (i.events c) := by rw [← h.holds.events c]
    show (s.pollfdList ++ [pfd]).map entry = (slots ++ [c]).map _
    rw [List.map_append, List.map_append, h.list]
    refine congrArg₂ _ (List.map_congr_left fun d hd => ?_) ?_
    · have hdc : d ≠ c := fun hdc => hslot (hdc ▸ hd)
      rw [update_events_of_ne hdc]
    · show [(fd c, events.truncate 16)] = [(fd c, ((i.update c change).events c).truncate 16)]
      rw [update_events_self, hnew']

/-- `enable_*` and `disable_*` of a registered channel. -/
theorem tabled_set (h : Tabled fd i slots s) (hc : c ∈ i.registered) (change : Change) :
    ∃ s', exec fd s (.update c change) = .ok s' ∧ Tabled fd (i.update c change) slots s' := by
  obtain ⟨k, pfd, hidx, hlt, hslot, hpfd, hfdc⟩ := h.slot hc
  let events := change.apply (s.channels c).events
  let s₁ : Poller C := s.toPoller.setEvents c events
  let s' : PollPoller C := {
    toPoller := s₁
    pollfdList := s.pollfdList.set k { pfd with events := events.truncate 16, revents := 0 } }
  have hnew : s₁.channels c = { s.channels c with events := events } := Function.update_self _ _ _
  have hexec : exec fd s (.update c change) = .ok s' := by
    show updateChannel fd c { s with toPoller := s₁ } = _
    unfold updateChannel
    dsimp only
    rw [hnew]
    dsimp only
    rw [hidx, if_neg (by omega), Int.toNat_natCast, hpfd]
    have hlookup : s₁.channelStore.lookup (fd c) = some c := h.holds.lookup hc
    have hlen : 0 ≤ (k : ℤ) ∧ (k : ℤ) < s.pollfdList.length := by rw [h.length]; omega
    rw [check_bind_of hlookup, check_bind_of hlen]
    exact check_bind_of hfdc
  have hinsert : insert c i.registered = i.registered := Finset.insert_eq_of_mem hc
  refine ⟨s', hexec, ?_, ?_, ?_, ?_⟩
  · exact h.holds.update change s.channelStore (by rw [hinsert]; exact h.holds.store)
  · intro d
    show d ∈ slots ↔ d ∈ insert c i.registered
    rw [hinsert]
    exact h.registered d
  · show Indexed _ fun d => (s₁.channels d).index
    rw [setEvents_index]
    exact h.indexed
  · have hmap := h.indexed.map_set hslot (f := fun d => (fd d, (i.events d).truncate 16))
      (g := fun d => (fd d, ((i.update c change).events d).truncate 16))
      (fun d hd => by rw [update_events_of_ne hd])
    show (s.pollfdList.set k _).map entry = _
    rw [hmap, List.map_set, h.list, update_events_self, ← h.holds.events c]
    show List.set _ k (pfd.fd, events.truncate 16) = _
    rw [hfdc]

theorem iterSwap_last {α : Type} {l : List α} {k : ℕ} {a b : α} (hk : l[k]? = some a) :
    (iterSwap k l.length (l ++ [b])).dropLast = l.set k b := by
  have hlt := (List.getElem?_eq_some_iff.mp hk).1
  have h1 : (l ++ [b])[k]? = some a := by rw [List.getElem?_append_left hlt, hk]
  have h2 : (l ++ [b])[l.length]? = some b := by
    rw [List.getElem?_append_right (Nat.le_refl _), Nat.sub_self]
    rfl
  have h3 : (l ++ [b]).set k b = l.set k b ++ [b] := List.set_append_left _ _ hlt
  have h4 : (l.set k b ++ [b]).set l.length a = l.set k b ++ [a] := by
    rw [List.set_append_right _ _ (by rw [List.length_set]), List.length_set, Nat.sub_self]
    rfl
  unfold iterSwap
  rw [h1, h2]
  show (((l ++ [b]).set k b).set l.length a).dropLast = _
  rw [h3, h4, List.dropLast_concat]

/-- The channels that are left. -/
theorem Tabled.mem_remove (h : Tabled fd i slots s) (d : C) :
    d ∈ (i.remove c).registered ↔ d ≠ c ∧ d ∈ slots := by
  rw [h.registered d]
  exact Finset.mem_erase

/-- `remove` of the channel in the last slot. -/
theorem tabled_pop (hfd : Function.Injective fd) (h : Tabled fd i (slots ++ [c]) s) :
    ∃ s', exec fd s (.remove c) = .ok s' ∧ Tabled fd (i.remove c) slots s' := by
  have hc : c ∈ i.registered := (h.registered c).mp (by simp)
  obtain ⟨l, back, hl, hback, hentries, -⟩ := h.concat
  have hlen : s.pollfdList.length = slots.length + 1 := by
    rw [h.length, List.length_append, List.length_singleton]
  have hidx : (s.channels c).index = slots.length := h.indexed.slot slots.length c (by simp)
  have hget : s.pollfdList[slots.length]? = some back := by
    have hll : l.length = slots.length := by
      rw [hl, List.length_append, List.length_singleton] at hlen
      omega
    rw [hl, ← hll]
    simp
  let s' : PollPoller C := {
    toPoller := ({ s.toPoller with channelStore := s.channelStore.erase (fd c) }).setIndex c (-1)
    pollfdList := s.pollfdList.dropLast }
  have hexec : exec fd s (.remove c) = .ok s' := by
    show removeChannel fd c s = _
    unfold removeChannel
    dsimp only
    rw [hidx, Int.toNat_natCast, hget, hlen, check_bind_of (h.holds.lookup hc),
      check_bind_of (by omega)]
    dsimp only
    rw [check_bind_of hback, if_pos (by push_cast; omega)]
    rfl
  refine ⟨s', hexec, (h.holds.remove hfd).setIndex _, fun d => ?_, ?_, ?_⟩
  · rw [h.mem_remove, h.indexed.mem_pop]
  · show Indexed _ fun d => ((Poller.setIndex c _ _).channels d).index
    rw [setIndex_index]
    exact h.indexed.pop
  · show s.pollfdList.dropLast.map entry = _
    rw [hl, List.dropLast_concat]
    exact hentries

/-- `remove` of a channel: the last one gets its slot. -/
theorem tabled_move {k : ℕ} {y : C} (hfd : Function.Injective fd)
    (h : Tabled fd i (slots ++ [y]) s) (hk : slots[k]? = some c) :
    ∃ s', exec fd s (.remove c) = .ok s' ∧ Tabled fd (i.remove c) (slots.set k y) s' := by
  have hlt := (List.getElem?_eq_some_iff.mp hk).1
  have hk' : (slots ++ [y])[k]? = some c := by rw [List.getElem?_append_left hlt, hk]
  have hc : c ∈ i.registered := (h.registered c).mp (List.mem_of_getElem? hk')
  have hyc : y ≠ c := fun hyc => h.indexed.last_not_mem (hyc ▸ List.mem_of_getElem? hk)
  obtain ⟨l, back, hl, hback, hentries, hentry⟩ := h.concat
  have hll : l.length = slots.length := by
    have := congrArg List.length hentries
    rwa [List.length_map, List.length_map] at this
  have hlen : s.pollfdList.length = l.length + 1 := by
    rw [hl, List.length_append, List.length_singleton]
  have hidx : (s.channels c).index = k := h.indexed.slot k c hk'
  obtain ⟨pfd, hpfd, hpfdc⟩ : ∃ pfd, l[k]? = some pfd ∧ pfd.fd = fd c := by
    have hentry := congrArg (fun l => l[k]?) hentries
    simp only [List.getElem?_map, hk, Option.map_some, Option.map_eq_some_iff] at hentry
    obtain ⟨pfd, hpfd, heq⟩ := hentry
    exact ⟨pfd, hpfd, congrArg Prod.fst heq⟩
  have hget : s.pollfdList[k]? = some pfd := by
    rw [hl, List.getElem?_append_left (by omega), hpfd]
  have hlast : s.pollfdList.getLast? = some back := by rw [hl, List.getLast?_concat]
  have hstore : (s.channelStore.erase (fd c)).lookup back.fd = some y := by
    exact (h.holds.store_erase hfd _ _).mpr ⟨h.mem_remove y |>.mpr ⟨hyc, by simp⟩, hback.symm⟩
  let s' : PollPoller C := {
    toPoller := (({ s.toPoller with channelStore := s.channelStore.erase (fd c) }).setIndex y
      k).setIndex c (-1)
    pollfdList := (iterSwap k l.length s.pollfdList).dropLast }
  have hexec : exec fd s (.remove c) = .ok s' := by
    show removeChannel fd c s = _
    unfold removeChannel
    dsimp only
    rw [hidx, Int.toNat_natCast, hget, hlen, check_bind_of (h.holds.lookup hc),
      check_bind_of (by omega)]
    dsimp only
    rw [check_bind_of hpfdc, if_neg (by push_cast; omega), hlast]
    dsimp only
    rw [hstore]
    rfl
  refine ⟨s', hexec, ((h.holds.remove hfd).setIndex _).setIndex _, fun d => ?_, ?_, ?_⟩
  · rw [h.mem_remove, h.indexed.mem_move hk]
  · show Indexed _ fun d => ((Poller.setIndex c _ _).channels d).index
    rw [setIndex_index, setIndex_index]
    exact h.indexed.move hk
  · show ((iterSwap k l.length s.pollfdList).dropLast).map entry = _
    rw [hl, iterSwap_last hpfd, List.map_set, List.map_set, hentries, hentry]
    rfl

/-! ### `poll` -/

/-- **The loop of `fill_active_channels`** makes the ready channels active, if there are no more
than it looks for. -/
theorem fill_eq (hlow : ∀ c, Low (i.events c)) : ∀ (l : List C) {n : ℕ} {t : Poller C},
    (∀ c ∈ l, t.channelStore.lookup (fd c) = some c) → (i.active fd ready l).length ≤ n →
    fillActiveChannels fd n (l.map (polled fd i ready)) t =
      .ok (activateAll (i.active fd ready l) t)
  | [], n, t, _, _ => by unfold fillActiveChannels; cases n <;> rfl
  | c :: l, n, t, hl, hn => by
    obtain ⟨hrevents, hpos, -⟩ := polled_revents fd ready hlow c
    by_cases hc : i.reported fd ready c = 0
    · have hactive : i.active fd ready (c :: l) = i.active fd ready l := by
        unfold Interest.active
        rw [List.filter_cons_of_neg (by simpa using hc)]
      rw [hactive] at hn ⊢
      have ih := fill_eq hlow l (n := n) (t := t) (fun d hd => hl d (List.mem_cons_of_mem c hd)) hn
      cases n with
      | zero =>
        rw [List.length_eq_zero_iff.mp (Nat.le_zero.mp hn)]
        rfl
      | succ n =>
        rw [List.map_cons, fillActiveChannels, if_neg, ih]
        exact fun hp => hpos.mp hp hc
    · have hactive : i.active fd ready (c :: l) =
          (c, i.reported fd ready c) :: i.active fd ready l := by
        unfold Interest.active
        rw [List.filter_cons_of_pos (by simpa using hc)]
        rfl
      rw [hactive] at hn ⊢
      cases n with
      | zero => exact absurd hn (by simp)
      | succ n =>
        have ih := fill_eq hlow l (n := n) (t := t.activate c (i.reported fd ready c))
          (fun d hd => hl d (List.mem_cons_of_mem c hd)) (Nat.le_of_succ_le_succ hn)
        have hlookup : t.channelStore.lookup (polled fd i ready c).fd = some c :=
          hl c List.mem_cons_self
        rw [List.map_cons, fillActiveChannels, if_pos (hpos.mpr hc), hlookup]
        dsimp only
        rw [check_bind_of (show fd c = (polled fd i ready c).fd from rfl), hrevents]
        exact ih

/-- **A call of `poll`** makes the ready channels active. -/
theorem poll_eq (h : Tabled fd i slots s) : poll fd ready s = .ok {
    toPoller := activateAll (i.active fd ready slots) { s.toPoller with activeChannels := [] }
    pollfdList := s.pollfdList.map (sysPoll ready) } := by
  have hnum := numEvents_map fd ready h.holds.low slots
  rw [← h.sysPoll_map] at hnum
  unfold poll
  dsimp only
  by_cases hzero : numEvents (s.pollfdList.map (sysPoll ready)) = 0
  · rw [if_pos hzero, List.length_eq_zero_iff.mp (hnum.symm.trans hzero)]
    rfl
  · rw [if_neg hzero, hnum, h.sysPoll_map, fill_eq h.holds.low slots ?_ (Nat.le_refl _)]
    · rfl
    · exact fun c hc => h.holds.lookup ((h.registered c).mp hc)

/-- The entries ask for what they asked for. -/
theorem tabled_poll (h : Tabled fd i slots s) (l : List (C × Events)) :
    Tabled fd i slots {
      toPoller := activateAll l { s.toPoller with activeChannels := [] }
      pollfdList := s.pollfdList.map (sysPoll ready) } where
  holds := Holds.activateAll h.holds.clear l
  registered := h.registered
  indexed := by
    have hindex : (fun c => ((activateAll l { s.toPoller with activeChannels := [] }).channels
        c).index) = fun c => (s.channels c).index := by
      funext c
      exact (activateAll_channels l _ c).2
    show Indexed _ fun c => ((activateAll l _).channels c).index
    rw [hindex]
    exact h.indexed
  list := by
    show (s.pollfdList.map (sysPoll ready)).map entry = _
    rw [List.map_map]
    exact h.list

/-! ### All operations -/

/-- **`PollPoller` refines the abstract poller**: no assertion fails, and the array has the
registered channels again. -/
theorem tabled_exec (hfd : Function.Injective fd) (h : Tabled fd i slots s) {op : Op C}
    {i' : Interest C} (hi : i.exec op = .ok i') :
    ∃ s', exec fd s op = .ok s' ∧ ∃ slots', Tabled fd i' slots' s' := by
  cases op with
  | update c change =>
    cases hi
    by_cases hc : c ∈ i.registered
    · obtain ⟨s', hs, h'⟩ := tabled_set h hc change
      exact ⟨s', hs, slots, h'⟩
    · obtain ⟨s', hs, h'⟩ := tabled_push hfd h hc change
      exact ⟨s', hs, _, h'⟩
  | remove c =>
    obtain ⟨hc, hi⟩ := enable_bind_eq_ok.mp hi
    cases hi
    obtain ⟨k, hk⟩ := List.mem_iff_getElem?.mp ((h.registered c).mpr hc)
    rcases List.eq_nil_or_concat' slots with rfl | ⟨init, y, rfl⟩
    · simp at hk
    · rcases Nat.lt_or_ge k init.length with hlt | hge
      · rw [List.getElem?_append_left hlt] at hk
        obtain ⟨s', hs, h'⟩ := tabled_move hfd h hk
        exact ⟨s', hs, _, h'⟩
      · rw [List.getElem?_append_right hge] at hk
        cases List.mem_singleton.mp (List.mem_of_getElem? hk)
        obtain ⟨s', hs, h'⟩ := tabled_pop hfd h
        exact ⟨s', hs, _, h'⟩
  | poll ready order =>
    cases hi
    exact ⟨_, poll_eq h, slots, tabled_poll h _⟩
  | interrupted =>
    cases hi
    exact ⟨_, rfl, slots, h.holds.clear, h.registered, h.indexed, h.list⟩

/-- It goes through the operations of the abstract poller. -/
theorem tabled_run (hfd : Function.Injective fd) {l : List (Op C)}
    (h : Run Interest.exec Interest.initial l i) :
    ∃ s slots, Run (exec fd) initial l s ∧ Tabled fd i slots s := by
  have hexec : ∀ i op i' s, (∃ slots, Tabled fd i slots s) → Interest.exec i op = .ok i' →
      ∃ s', exec fd s op = .ok s' ∧ ∃ slots, Tabled fd i' slots s' := by
    rintro i op i' s ⟨slots, h⟩ hi
    exact tabled_exec hfd h hi
  obtain ⟨s, hs, slots, htabled⟩ := Run.simulation hexec ⟨[], tabled_initial⟩ h
  exact ⟨s, slots, hs, htabled⟩

end ToolsCxx.Pollers.Slots
