import ToolsCxx.TimerScheduler.Effects

/-! # `TimerScheduler`: the timer store

What the invariant of `Ownership` says of the states of a run, in the terms of the source: the two
sets describe the same timers, and every live timer is in exactly one `Place` (`store_ok`). -/

namespace ToolsCxx.TimerScheduler.Store

open ToolsCxx.Base ToolsCxx.Lib.Machine ToolsCxx.Lib.OrderedSet
open ToolsCxx.TimerScheduler.Model ToolsCxx.TimerScheduler.Ownership
open ToolsCxx.TimerScheduler.Effects

/-- Where a timer can be. -/
inductive Place where
  /-- in the `add_timer` call of the thread `c` -/
  | adding (c : ℕ)
  /-- in the queued insertion at position `k` -/
  | queued (k : ℕ)
  /-- in the sets -/
  | stored
  /-- in the batch, at position `k` -/
  | expired (k : ℕ)

/-- The timer at the address `a` is in a place. -/
def At (s : State) (a : Addr) : Place → Prop
  | .adding c => ∃ q, s.calls c = .created a q
  | .queued k => (queue s)[k]? = some (.insert a)
  | .stored => ∃ e ∈ s.timers, e.timer = a
  | .expired k => ∃ e, (batch s.phase)[k]? = some e ∧ e.timer = a

/-! ### One place -/

theorem filterMap_inj {α β : Type} {f : α → Option β} {b : β} :
    ∀ {l : List α} {i j : ℕ} {x y : α}, (l.filterMap f).Nodup → l[i]? = some x → f x = some b →
      l[j]? = some y → f y = some b → i = j
  | [], i, j, x, y, _, hi, _, _, _ => by simp at hi
  | z :: l, i, j, x, y, hn, hi, hx, hj, hy => by
    have htail : (l.filterMap f).Nodup := hn.sublist ((List.sublist_cons_self z l).filterMap f)
    have hhead : ∀ {k : ℕ} {w : α}, f z = some b → l[k]? = some w → f w = some b → False := by
      intro k w hz hk hw
      rw [List.filterMap_cons_some hz, List.nodup_cons] at hn
      exact hn.1 (List.mem_filterMap.mpr ⟨w, List.mem_of_getElem? hk, hw⟩)
    cases i with
    | zero =>
      cases j with
      | zero => rfl
      | succ j =>
        rw [List.getElem?_cons_zero, Option.some.injEq] at hi
        rw [List.getElem?_cons_succ] at hj
        exact (hhead (hi ▸ hx) hj hy).elim
    | succ i =>
      cases j with
      | zero =>
        rw [List.getElem?_cons_zero, Option.some.injEq] at hj
        rw [List.getElem?_cons_succ] at hi
        exact (hhead (hj ▸ hy) hi hx).elim
      | succ j =>
        rw [List.getElem?_cons_succ] at hi hj
        rw [filterMap_inj htail hi hx hj hy]

section
variable {s : State} (h : Inv [] s)
include h

theorem exists_place {a : Addr} (ha : s.heap a ≠ none) : ∃ p, At s a p := by
  rcases (h.live a).mp ha with hm | ⟨c, q, hc⟩
  · rcases mem_owned.mp hm with hm | hm | hm | ⟨e, he, rfl⟩
    · exact absurd hm List.not_mem_nil
    · obtain ⟨k, hk⟩ := List.mem_iff_getElem?.mp hm
      exact ⟨.queued k, hk⟩
    · exact ⟨.stored, hm⟩
    · obtain ⟨k, hk⟩ := List.mem_iff_getElem?.mp he
      exact ⟨.expired k, e, hk, rfl⟩
  · exact ⟨.adding c, q, hc⟩

omit h in
theorem owned_of_at {a : Addr} {p : Place} (hp : At s a p) :
    a ∈ owned [] s ∨ ∃ c q, s.calls c = .created a q := by
  cases p with
  | adding c =>
    obtain ⟨q, hc⟩ := hp
    exact Or.inr ⟨c, q, hc⟩
  | queued k => exact Or.inl (mem_owned.mpr (Or.inr (Or.inl (List.mem_of_getElem? hp))))
  | stored => exact Or.inl (mem_owned.mpr (Or.inr (Or.inr (Or.inl hp))))
  | expired k =>
    obtain ⟨e, he, hea⟩ := hp
    exact Or.inl (mem_owned.mpr (Or.inr (Or.inr (Or.inr ⟨e, List.mem_of_getElem? he, hea⟩))))

theorem live_of_at {a : Addr} {p : Place} (hp : At s a p) : s.heap a ≠ none :=
  (h.live a).mpr (owned_of_at hp)

theorem place_unique {a : Addr} {p p' : Place} (hp : At s a p) (hp' : At s a p') : p = p' := by
  obtain ⟨hq, hb, hqt, hqb, htb⟩ := h.disjoint
  have hadd : ∀ {c p}, At s a (.adding c) → At s a p → p = .adding c := by
    rintro c p ⟨q, hc⟩ hp
    obtain ⟨hno, -, huniq⟩ := h.created c a q hc
    cases p with
    | adding c' =>
      obtain ⟨q', hc'⟩ := hp
      rw [huniq c' q' hc']
    | queued k => exact absurd (mem_owned.mpr (Or.inr (Or.inl (List.mem_of_getElem? hp)))) hno
    | stored => exact absurd (mem_owned.mpr (Or.inr (Or.inr (Or.inl hp)))) hno
    | expired k =>
      obtain ⟨e, he, hea⟩ := hp
      exact absurd (mem_owned.mpr (Or.inr (Or.inr (Or.inr ⟨e, List.mem_of_getElem? he, hea⟩)))) hno
  have hexp : ∀ {k}, At s a (.expired k) → ∃ e ∈ batch s.phase, e.timer = a :=
    fun ⟨e, he, hea⟩ => ⟨e, List.mem_of_getElem? he, hea⟩
  cases p with
  | adding c => exact (hadd hp hp').symm
  | queued k =>
    cases p' with
    | adding c => exact hadd hp' hp
    | queued k' => rw [filterMap_inj hq hp rfl hp' rfl]
    | stored => exact absurd hp' (hqt a (List.mem_of_getElem? hp))
    | expired k' => exact absurd (hexp hp') (hqb a (List.mem_of_getElem? hp))
  | stored =>
    cases p' with
    | adding c => exact hadd hp' hp
    | queued k' => exact absurd hp (hqt a (List.mem_of_getElem? hp'))
    | stored => rfl
    | expired k' => exact absurd (hexp hp') (htb a hp)
  | expired k =>
    cases p' with
    | adding c => exact hadd hp' hp
    | queued k' => exact absurd (hexp hp) (hqb a (List.mem_of_getElem? hp'))
    | stored => exact absurd (hexp hp) (htb a hp')
    | expired k' =>
      obtain ⟨e, he, hea⟩ := hp
      obtain ⟨e', he', hea'⟩ := hp'
      rw [← List.filterMap_eq_map] at hb
      rw [filterMap_inj hb he (congrArg some hea) he' (congrArg some hea')]

/-! ### Cancelling -/

/-- `cancel_timer` removes no timer but the one its id names. -/
theorem cancelTimer_stale {timerId : TimerId} {s' : State} (hc : cancelTimer timerId s = .ok s')
    (hstale : ∀ t, s.heap timerId.timer = some t → t.sequence ≠ timerId.sequence) :
    s'.timers = s.timers ∧ s'.activeTimers = s.activeTimers ∧ s'.heap = s.heap := by
  rcases cancelTimer_spec h timerId with ⟨t, ht, hq, -⟩ | ⟨-, hok, -⟩
  · exact absurd hq (hstale t ht)
  · rw [hok] at hc
    cases hc
    exact ⟨rfl, rfl, rfl⟩

end

/-! ### The store of a run -/

/-- **What holds of the timer store.** -/
structure StoreOk (s : State) : Prop where
  /-- `m_activeTimers` has the timers of `m_timers` with their sequences -/
  active : ∀ i, i ∈ s.activeTimers ↔
    ∃ e ∈ s.timers, ∃ t, s.heap e.timer = some t ∧ i = ⟨e.timer, t.sequence⟩
  /-- an entry of `m_timers` has the expiration of its timer -/
  expiration : ∀ e ∈ s.timers, ∃ t, s.heap e.timer = some t ∧ t.expiration = e.expiration
  /-- a timer that has not been deleted is in one place -/
  place : ∀ a, s.heap a ≠ none → ∃! p, At s a p
  /-- a deleted timer is in none -/
  dead : ∀ a, s.heap a = none → ∀ p, ¬ At s a p
  /-- no `assert` fails, and no deleted timer is used by the scheduler's thread or deleted -/
  noFault : ∀ a f, exec s a ≠ .error (.fault f)
  /-- an id that names no timer removes none -/
  stale : ∀ timerId s', cancelTimer timerId s = .ok s' →
    (∀ t, s.heap timerId.timer = some t → t.sequence ≠ timerId.sequence) →
    s'.timers = s.timers ∧ s'.activeTimers = s.activeTimers ∧ s'.heap = s.heap

/-- **The timer store** is in order in every state of every run. -/
theorem store_ok {l : List Act} {s : State} (hr : Run exec initial l s) : StoreOk s := by
  have h := reachable_inv hr
  refine ⟨h.active, h.timers, fun a ha => ?_, fun a ha p hp => live_of_at h hp ha, exec_no_fault h,
    fun timerId s' hc hstale => cancelTimer_stale h hc hstale⟩
  obtain ⟨p, hp⟩ := exists_place h ha
  exact ⟨p, hp, fun p' hp' => place_unique h hp' hp⟩

/-- A callback cancels a timer and adds one at the same address, and the old id is cancelled
again. -/
def reuse : List Act :=
  [.addTimer ⟨16, 1⟩ (.runAt 1000) 500, .addTimer ⟨32, 2⟩ (.runAt 5000) 500, .expire 1000,
    .handleEvent 1000, .run, .cancel ⟨32, 2⟩, .addTimer ⟨32, 3⟩ (.runAt 7000) 1000,
    .cancel ⟨32, 2⟩]

theorem store_ok_reuse : StoreOk (after exec initial reuse) :=
  store_ok (run_after (l := reuse) rfl)

end ToolsCxx.TimerScheduler.Store
