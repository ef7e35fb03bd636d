import ToolsCxx.Pollers.Kernel
import Mathlib.Data.List.Infix

/-! # `EPollPoller`: the buffer of `epoll_wait`

`epoll_wait` returns as many ready channels as `m_eventList` holds, and the others have to wait for
the next call. The buffer is doubled whenever it has been filled, so this cannot happen often.

* `missed_iff`: a call of `poll` leaves a ready channel out exactly when more are ready than the
  buffer holds.
* `poll_misses`: in a whole run in which no more than `n` channels are registered at a time, the
  calls that leave a ready channel out are not more than the logarithm of `n`. -/

namespace ToolsCxx.Pollers.Growth

open ToolsCxx.Lib.Machine ToolsCxx.Pollers.Base ToolsCxx.Pollers.Abstract ToolsCxx.Pollers.EPoll
open ToolsCxx.Pollers.Kernel

variable {C : Type} [DecidableEq C] (fd : C → ℕ)

/-- A call of `poll` for which there are more ready channels than the buffer holds. -/
def missed (s : EPollPoller C) : Op C → Bool
  | .poll ready order => s.eventListSize < (readyList ready order s).length
  | _ => false

/-- A call of `poll` that fills the buffer. -/
def filled (s : EPollPoller C) : Op C → Bool
  | .poll ready order => s.eventListSize ≤ (readyList ready order s).length
  | _ => false

/-- How often `see` is true of an operation of the run. -/
def count (see : EPollPoller C → Op C → Bool) (l : List (Op C)) : ℕ :=
  (seen (exec fd) (fun s op => if see s op then some () else none) initial l).length

section
variable {fd} {s s' : EPollPoller C} {op : Op C} {l : List (Op C)} {i : Interest C} {n : ℕ}

theorem count_snoc {see : EPollPoller C → Op C → Bool} (h : Run (exec fd) initial l s) :
    count fd see (l ++ [op]) = count fd see l + (see s op).toNat := by
  unfold count
  rw [seen_snoc h, List.length_append]
  cases see s op <;> rfl

/-! ### The registered channels -/

/-- An operation that does not fault is one of the abstract poller. -/
theorem exists_mirrored (hfd : Function.Injective fd) (h : Mirrored fd i s)
    (hop : exec fd s op = .ok s') : ∃ i', Mirrored fd i' s' := by
  have hremove : ∀ c, op = .remove c → c ∈ i.registered := by
    rintro c rfl
    by_contra hc
    obtain ⟨hadded, -⟩ := check_bind_eq_ok.mp hop
    rw [h.new c hc] at hadded
    cases hadded
  have hexec : ∃ i', i.exec op = .ok i' := by
    cases op with
    | remove c => exact ⟨_, enable_bind_of (hremove c rfl)⟩
    | update c change => exact ⟨_, rfl⟩
    | poll ready order => exact ⟨_, rfl⟩
    | interrupted => exact ⟨_, rfl⟩
  obtain ⟨i', hi'⟩ := hexec
  obtain ⟨t, ht, hmirrored⟩ := mirrored_exec hfd h hi'
  cases Except.ok.inj (ht.symm.trans hop)
  exact ⟨i', hmirrored⟩

theorem run_mirrored (hfd : Function.Injective fd) (hr : Run (exec fd) initial l s) :
    ∃ i, Mirrored fd i s :=
  Run.induction (P := fun _ s => ∃ i, Mirrored fd i s) ⟨_, mirrored_initial⟩
    (fun _ _ _ _ _ ⟨_, h⟩ hop => exists_mirrored hfd h hop) hr

omit [DecidableEq C] in
/-- No more channels are ready than are registered. -/
theorem length_readyList_le (hfd : Function.Injective fd) (h : Mirrored fd i s)
    {ready : ℕ → Events} {order : List ℕ} :
    (readyList ready order s).length ≤ s.interest.keys.length := by
  have hnodup : ((readyList ready order s).map fun e => fd e.ptr).Nodup := by
    have hptr : ((readyList ready order s).map EpollEvent.ptr).Nodup := h.nodup_readyList
    have hmap := hptr.map hfd
    rwa [List.map_map] at hmap
  have hsub : (readyList ready order s).map (fun e => fd e.ptr) ⊆ s.interest.keys := by
    intro f hf
    obtain ⟨e, he, rfl⟩ := List.mem_map.mp hf
    obtain ⟨c, hc, -, rfl⟩ := h.mem_readyList.mp he
    exact h.mem_iff.mpr ⟨c, hc, rfl⟩
  have hle := (hnodup.subperm hsub).length_le
  rwa [List.length_map] at hle

/-! ### One call -/

/-- **A call of `poll`** doubles the buffer if it is filled. -/
theorem eventListSize_poll (hpos : 0 < s.eventListSize) {ready : ℕ → Events} {order : List ℕ}
    (hop : exec fd s (.poll ready order) = .ok s') : s'.eventListSize =
      if filled s (.poll ready order) then s.eventListSize * 2 else s.eventListSize := by
  have hlen : ((readyList ready order s).take s.eventListSize).length =
      min s.eventListSize (readyList ready order s).length := List.length_take ..
  have hfilled : filled s (.poll ready order) = true ↔
      ((readyList ready order s).take s.eventListSize).length = s.eventListSize := by
    rw [hlen, min_eq_left_iff]
    exact decide_eq_true_iff
  change poll fd ready order s = .ok s' at hop
  unfold poll at hop
  change (if ((readyList ready order s).take s.eventListSize).length = 0 then _ else
    (check (((readyList ready order s).take s.eventListSize).length ≤ s.eventListSize) _ >>=
      fun _ => fillActiveChannels fd ((readyList ready order s).take s.eventListSize) _ >>= _)) = _
    at hop
  split_ifs at hop with hzero hfull
  · cases hop
    have hnot : ¬ filled s (.poll ready order) = true := fun hx => by
      rw [hfilled, hzero] at hx
      omega
    rw [if_neg hnot]
  · obtain ⟨-, hop⟩ := check_bind_eq_ok.mp hop
    obtain ⟨base, -, hop⟩ := bind_eq_ok.mp hop
    cases hop
    exact (if_pos (hfilled.mpr hfull)).symm
  · obtain ⟨-, hop⟩ := check_bind_eq_ok.mp hop
    obtain ⟨base, -, hop⟩ := bind_eq_ok.mp hop
    cases hop
    exact (if_neg fun hx => hfull (hfilled.mp hx)).symm

theorem eventListSize_exec {op : Op C} (hop : exec fd s op = .ok s') (hpos : 0 < s.eventListSize) :
    s'.eventListSize = s.eventListSize * 2 ^ (filled s op).toNat := by
  cases op with
  | poll ready order =>
    rw [eventListSize_poll hpos hop]
    cases filled s (.poll ready order)
    · exact (Nat.mul_one _).symm
    · rfl
  | interrupted =>
    cases hop
    exact (Nat.mul_one _).symm
  | remove c =>
    obtain ⟨-, hop⟩ := check_bind_eq_ok.mp hop
    obtain ⟨-, hop⟩ := check_bind_eq_ok.mp hop
    obtain ⟨t, ht, hop⟩ := bind_eq_ok.mp hop
    obtain ⟨interest, -, ht⟩ := bind_eq_ok.mp ht
    cases ht
    cases hop
    exact (Nat.mul_one _).symm
  | update c change =>
    change updateChannel fd c _ = .ok s' at hop
    unfold updateChannel at hop
    split_ifs at hop
    · obtain ⟨-, hop⟩ := check_bind_eq_ok.mp hop
      obtain ⟨interest, -, hop⟩ := bind_eq_ok.mp hop
      cases hop
      exact (Nat.mul_one _).symm
    · obtain ⟨-, hop⟩ := check_bind_eq_ok.mp hop
      obtain ⟨-, hop⟩ := check_bind_eq_ok.mp hop
      obtain ⟨interest, -, hop⟩ := bind_eq_ok.mp hop
      cases hop
      exact (Nat.mul_one _).symm

/-- **A ready channel is left out** exactly when more are ready than the buffer holds. -/
theorem missed_iff (h : Mirrored fd i s) {ready : ℕ → Events} {order : List ℕ}
    (hop : exec fd s (.poll ready order) = .ok s') :
    missed s (.poll ready order) = true ↔ ∃ c, s.channelStore.lookup (fd c) = some c ∧
      report (s.channels c).events (ready (fd c)) ≠ 0 ∧ c ∉ s'.activeChannels := by
  obtain ⟨size, hpoll⟩ := poll_eq h ready order
  cases Except.ok.inj (hpoll.symm.trans hop)
  have hactive : (activateAll (((readyList ready order s).take s.eventListSize).map
      fun e => (e.ptr, e.events)) { s.toPoller with activeChannels := [] }).activeChannels =
        ((readyList ready order s).take s.eventListSize).map EpollEvent.ptr := by
    rw [activateAll_activeChannels, List.map_map]
    rfl
  have hready : ∀ c, s.channelStore.lookup (fd c) = some c ∧
      report (s.channels c).events (ready (fd c)) ≠ 0 ↔
        c ∈ (readyList ready order s).map EpollEvent.ptr := by
    intro c
    rw [List.mem_map, h.holds.store (fd c) c, h.holds.events c]
    constructor
    · rintro ⟨⟨hc, -⟩, hne⟩
      exact ⟨_, h.mem_readyList.mpr ⟨c, hc, hne, rfl⟩, rfl⟩
    · rintro ⟨e, he, rfl⟩
      obtain ⟨c, hc, hne, rfl⟩ := h.mem_readyList.mp he
      exact ⟨⟨hc, rfl⟩, hne⟩
  show decide (s.eventListSize < (readyList ready order s).length) = true ↔ ∃ c,
    s.channelStore.lookup (fd c) = some c ∧ report (s.channels c).events (ready (fd c)) ≠ 0 ∧
      c ∉ (activateAll _ _).activeChannels
  rw [decide_eq_true_iff, hactive]
  constructor
  · intro hlt
    -- the first one that does not fit
    refine ⟨(readyList ready order s)[s.eventListSize].ptr, ?_⟩
    have hmem : (readyList ready order s)[s.eventListSize].ptr ∈
        (readyList ready order s).map EpollEvent.ptr :=
      List.mem_map_of_mem (List.getElem_mem hlt)
    obtain ⟨hlookup, hne⟩ := (hready _).mpr hmem
    refine ⟨hlookup, hne, fun hin => ?_⟩
    have hnodup : ((readyList ready order s).map EpollEvent.ptr).Nodup := h.nodup_readyList
    rw [← List.take_append_drop s.eventListSize (readyList ready order s), List.map_append,
      List.nodup_append] at hnodup
    refine hnodup.2.2 _ hin _ (List.mem_map_of_mem ?_) rfl
    rw [List.drop_eq_getElem_cons hlt]
    exact List.mem_cons_self
  · rintro ⟨c, hlookup, hne, hnot⟩
    by_contra hge
    rw [List.take_of_length_le (not_lt.mp hge)] at hnot
    exact hnot ((hready c).mp ⟨hlookup, hne⟩)

/-! ### The runs -/

/-- The buffer, and the calls that have left a channel out. -/
structure Grown (fd : C → ℕ) (n : ℕ) (l : List (Op C)) (s : EPollPoller C) : Prop where
  size : s.eventListSize = kEventListSize * 2 ^ count fd filled l
  le : count fd missed l ≤ count fd filled l
  bound : 0 < count fd missed l → kEventListSize * 2 ^ (count fd missed l - 1) < n

theorem Grown.pos (h : Grown fd n l s) : 0 < s.eventListSize := by
  rw [h.size]
  exact Nat.mul_pos (by decide) (Nat.two_pow_pos _)

omit [DecidableEq C] in
theorem filled_of_missed (h : missed s op = true) : filled s op = true := by
  cases op with
  | poll ready order =>
    have hlt := of_decide_eq_true h
    exact decide_eq_true hlt.le
  | _ => cases h

theorem grown_step (hfd : Function.Injective fd) (hr : Run (exec fd) initial l s)
    (hn : s.interest.keys.length ≤ n) (h : Grown fd n l s) (hop : exec fd s op = .ok s') :
    Grown fd n (l ++ [op]) s' := by
  obtain ⟨i, hi⟩ := run_mirrored hfd hr
  have hsize := eventListSize_exec hop h.pos
  refine ⟨?_, ?_, fun hcount => ?_⟩
  · rw [hsize, h.size, count_snoc hr, Nat.mul_assoc, ← Nat.pow_add]
  · rw [count_snoc hr, count_snoc hr]
    have hle := h.le
    cases hm : missed s op with
    | false => exact hle.trans (Nat.le_add_right _ _)
    | true =>
      rw [filled_of_missed hm]
      exact Nat.succ_le_succ hle
  · rw [count_snoc hr] at hcount ⊢
    cases hm : missed s op with
    | false =>
      rw [hm] at hcount
      exact h.bound hcount
    | true =>
      -- the buffer was too small, and has been doubled as often as it was before
      cases op with
      | poll ready order =>
        have hlt : s.eventListSize < (readyList ready order s).length := of_decide_eq_true hm
        have hready : (readyList ready order s).length ≤ s.interest.keys.length :=
          length_readyList_le hfd hi
        have hpow : kEventListSize * 2 ^ count fd missed l ≤ s.eventListSize := by
          rw [h.size]
          exact Nat.mul_le_mul_left _ (Nat.pow_le_pow_right (by decide) h.le)
        show kEventListSize * 2 ^ (count fd missed l + 1 - 1) < n
        rw [Nat.add_sub_cancel]
        omega
      | _ => cases hm

/-- **Ready channels are seldom left out.** In a run in which never more than `n` channels are
registered, `k` calls of `poll` leave a ready channel out only if `16 * 2 ^ (k - 1) < n`; the buffer
has been doubled by each call that filled it, and a channel is left out by no other. -/
theorem poll_misses (hfd : Function.Injective fd) (hr : Run (exec fd) initial l s)
    (hn : ∀ l₁ l₂ t, l = l₁ ++ l₂ → Run (exec fd) initial l₁ t → t.interest.keys.length ≤ n) :
    (0 < count fd missed l → kEventListSize * 2 ^ (count fd missed l - 1) < n) ∧
      s.eventListSize = kEventListSize * 2 ^ count fd filled l ∧
        ∀ ready order s', exec fd s (.poll ready order) = .ok s' →
          (missed s (.poll ready order) = true ↔ ∃ c, s.channelStore.lookup (fd c) = some c ∧
            report (s.channels c).events (ready (fd c)) ≠ 0 ∧ c ∉ s'.activeChannels) := by
  obtain ⟨i, hi⟩ := run_mirrored hfd hr
  have hgrown : Grown fd n l s := by
    refine Run.induction (P := fun l s => (∀ l₁ l₂ t, l = l₁ ++ l₂ →
      Run (exec fd) initial l₁ t → t.interest.keys.length ≤ n) → Grown fd n l s) ?_ ?_ hr hn
    · exact fun _ => ⟨rfl, le_rfl, fun h => absurd h (Nat.lt_irrefl 0)⟩
    · intro l t op t' hr ih hop hn
      refine grown_step hfd hr (hn l [op] t rfl hr) (ih fun l₁ l₂ u heq => ?_) hop
      exact hn l₁ (l₂ ++ [op]) u (by rw [heq, List.append_assoc])
  exact ⟨hgrown.bound, hgrown.size, fun ready order s' hop => missed_iff hi hop⟩

end

/-- Of 33 channels 17 are ready, which are too many, then 32, which fill the buffer, then all. -/
def manyReady : List (Op ℕ) :=
  (List.range 33).map (fun c => .update c .enableReading) ++
    [.poll (fun f => if f < 17 then pollIn else 0) [],
      .poll (fun f => if f < 32 then pollIn else 0) [], .poll (fun _ => pollIn) []]

theorem poll_misses_manyReady : let s := after (exec id) initial manyReady
    count id missed manyReady = 1 ∧ count id filled manyReady = 2 ∧
    (0 < count id missed manyReady →
      kEventListSize * 2 ^ (count id missed manyReady - 1) < 33) ∧
    s.eventListSize = kEventListSize * 2 ^ count id filled manyReady ∧
      ∀ ready order s', exec id s (.poll ready order) = .ok s' →
        (missed s (.poll ready order) = true ↔ ∃ c, s.channelStore.lookup (id c) = some c ∧
          report (s.channels c).events (ready (id c)) ≠ 0 ∧ c ∉ s'.activeChannels) := by
  have hfew : ∀ l ∈ manyReady.inits,
      (after (exec id) initial l).interest.keys.length ≤ 33 := by decide +kernel
  have hn : ∀ l₁ l₂ t, manyReady = l₁ ++ l₂ → Run (exec id) initial l₁ t →
      t.interest.keys.length ≤ 33 := by
    intro l₁ l₂ t heq hr
    rw [← after_eq hr]
    exact hfew l₁ ((List.mem_inits _ _).mpr ⟨l₂, heq.symm⟩)
  have hr : Run (exec id) initial manyReady (after (exec id) initial manyReady) :=
    run_after (by decide +kernel)
  exact ⟨by decide +kernel, by decide +kernel, poll_misses Function.injective_id hr hn⟩

end ToolsCxx.Pollers.Growth
