import ToolsCxx.Pollers.Slots

/-! # The index table of `PollPoller`

`Exact`: the array, the map from descriptors to channels and the indices that the channels keep of
themselves describe the same registrations. `table_exact`: they do so after every run of operations
in which only registered channels are removed, and no assertion fails in it. -/

namespace ToolsCxx.Pollers.Table

open ToolsCxx.Lib.Machine ToolsCxx.Pollers.Base ToolsCxx.Pollers.Abstract
open ToolsCxx.Pollers.Poll ToolsCxx.Pollers.Slots

variable {C : Type} {fd : C → ℕ} {i : Interest C} {slots : List C}
  {s : PollPoller C}

/-- **The table is exact**, when the channels in `registered` are the registered ones. -/
structure Exact (fd : C → ℕ) (registered : Finset C) (s : PollPoller C) : Prop where
  store : ∀ c, s.channelStore.lookup (fd c) = some c ↔ c ∈ registered
  size : s.pollfdList.length = s.channelStore.keys.card
  entry : ∀ (k : ℕ) (pfd : Pollfd), s.pollfdList[k]? = some pfd →
    ∃ c, s.channelStore.lookup pfd.fd = some c ∧ fd c = pfd.fd ∧
      (s.channels c).index = k ∧ (s.channels c).events = pfd.events.signExtend 32
  own : ∀ c (k : ℕ), (s.channels c).index = k → ∃ pfd, s.pollfdList[k]? = some pfd ∧ pfd.fd = fd c
  unregistered : ∀ c, c ∉ registered → (s.channels c).index = -1

theorem keys_card (hfd : Function.Injective fd) (h : Tabled fd i slots s) :
    s.channelStore.keys.card = slots.length := by
  have hkeys : s.channelStore.keys = (slots.map fd).toFinset := by
    ext f
    rw [Finmap.mem_keys, Finmap.mem_iff, List.mem_toFinset, List.mem_map]
    refine exists_congr fun c => ?_
    rw [h.holds.store f c, h.registered c]
  rw [hkeys, List.toFinset_card_of_nodup (h.indexed.nodup.map hfd), List.length_map]

theorem exact_of_tabled (hfd : Function.Injective fd) (h : Tabled fd i slots s) :
    Exact fd i.registered s where
  store c := (h.holds.store (fd c) c).trans (and_iff_left rfl)
  size := h.length.trans (keys_card hfd h).symm
  entry k pfd hk := by
    have hentry := congrArg (fun l => l[k]?) h.list
    simp only [List.getElem?_map, hk, Option.map_some] at hentry
    obtain ⟨c, hc, heq⟩ := Option.map_eq_some_iff.mp hentry.symm
    have hfdc : fd c = pfd.fd := congrArg Prod.fst heq
    have hevents : (i.events c).truncate 16 = pfd.events := congrArg Prod.snd heq
    refine ⟨c, ?_, hfdc, h.indexed.slot k c hc, ?_⟩
    · rw [← hfdc]
      exact h.holds.lookup ((h.registered c).mp (List.mem_of_getElem? hc))
    · rw [h.holds.events c, ← hevents]
      exact (h.holds.low c).short.1.symm
  own c k hk := by
    have hmem : c ∈ slots := h.indexed.nonneg_iff.mp (by rw [hk]; exact Int.natCast_nonneg k)
    obtain ⟨k', pfd, hk', -, -, hpfd, hfdc⟩ := h.slot ((h.registered c).mp hmem)
    obtain rfl : k = k' := Int.ofNat.inj (hk.symm.trans hk')
    exact ⟨pfd, hpfd, hfdc⟩
  unregistered c hc := h.indexed.absent c fun hx => hc ((h.registered c).mp hx)

variable [DecidableEq C]

/-- **`PollPoller`'s index table is exact** after whatever is done to the poller, if only registered
channels are removed: no operation fails, and the table is exact. -/
theorem table_exact (hfd : Function.Injective fd) {l : List (Op C)}
    (h : Run Interest.exec Interest.initial l i) :
    ∃ s, Run (exec fd) initial l s ∧ Exact fd i.registered s := by
  obtain ⟨s, slots, hs, htabled⟩ := tabled_run hfd h
  exact ⟨s, hs, exact_of_tabled hfd htabled⟩

/-- Three channels are registered; the first is removed, and registered again. -/
def moved : List (Op ℕ) :=
  [.update 0 .enableReading, .update 1 .enableWriting, .update 2 .enableReading, .remove 0,
    .remove 1, .update 0 .enableWriting, .poll (fun _ => pollIn) []]

theorem table_exact_moved : ∃ s, Run (exec fun c => c + 10) initial moved s ∧
    Exact (fun c => c + 10) (after Interest.exec Interest.initial moved).registered s :=
  table_exact (fun _ _ h => Nat.add_right_cancel h) (run_after (by decide))

end ToolsCxx.Pollers.Table
