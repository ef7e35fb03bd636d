import ToolsCxx.TimerScheduler.Model

/-! # `TimerScheduler`: who owns each `Timer`

The invariant of the timer store, and what every operation does to it. A live `Timer` is owned by
one of: the `hand` of the operation that is running, a queued insertion, the two sets, the batch of
the dispatch (`owned` lists these), or an `add_timer` call of a foreign thread. An operation takes a
`Timer` into its hand from one of these places and puts it into another, or deletes it, so that each
of them is a lemma about `Inv (a :: hand)` and `Inv hand`; between two actions the hand is empty.

* `Inv.allocated`, `Inv.deleted`: `new` puts a timer into the hand, `delete` takes it out of it.
* `insertTimer_spec`, `cancelTimer_spec`: the operations on the sets do not fault, what they return,
  and the invariant afterwards. -/

namespace ToolsCxx.TimerScheduler.Ownership

open ToolsCxx.Base ToolsCxx.Lib.Machine ToolsCxx.Lib.OrderedSet
open ToolsCxx.TimerScheduler.Model

/-! ### The places of a timer -/

/-- The timer a functor will insert. -/
def timerOf : Functor → Option Addr
  | .insert timer => some timer
  | .cancelTimer _ => none

@[simp] theorem filterMap_timerOf_insert (timer : Addr) (l : List Functor) :
    (.insert timer :: l : List Functor).filterMap timerOf = timer :: l.filterMap timerOf := rfl

@[simp] theorem filterMap_timerOf_cancelTimer (timerId : TimerId) (l : List Functor) :
    (.cancelTimer timerId :: l : List Functor).filterMap timerOf = l.filterMap timerOf := rfl

/-- The functors taken out of `m_pendingFunctors` and not executed yet. -/
def draining : Phase → List Functor
  | .draining functors => functors
  | _ => []

/-- The entries taken out of the sets by `get_expired` and not handled by `reset` yet. -/
def batch : Phase → List TimerEntry
  | .calling _ called rest _ => called ++ rest
  | .resetting _ rest => rest
  | _ => []

/-- The functors still to be executed, in order. -/
def queue (s : State) : List Functor := draining s.phase ++ s.pendingFunctors

/-- The timers that are in `hand`, in a queued insertion, in `m_timers` or in the batch. -/
def owned (hand : List Addr) (s : State) : List Addr :=
  hand ++ ((queue s).filterMap timerOf ++
    (s.timers.toList.map TimerEntry.timer ++ (batch s.phase).map TimerEntry.timer))

/-- **The invariant of the timer store**, an operation holding `hand`. -/
structure Inv (hand : List Addr) (s : State) : Prop where
  size : s.timers.size = s.activeTimers.size
  timers : ∀ e ∈ s.timers, ∃ t, s.heap e.timer = some t ∧ t.expiration = e.expiration
  active : ∀ i, i ∈ s.activeTimers ↔
    ∃ e ∈ s.timers, ∃ t, s.heap e.timer = some t ∧ i = ⟨e.timer, t.sequence⟩
  nodup : (owned hand s).Nodup
  live : ∀ a, s.heap a ≠ none ↔ a ∈ owned hand s ∨ ∃ c q, s.calls c = .created a q
  created : ∀ c a q, s.calls c = .created a q →
    a ∉ owned hand s ∧ (∃ t, s.heap a = some t ∧ t.sequence = q) ∧
      ∀ c' q', s.calls c' = .created a q' → c' = c
  addr : ∀ a t, s.heap a = some t → a < uintptrMax
  seq_le : ∀ a t, s.heap a = some t → t.sequence ≤ s.numCreated
  seq_inj : ∀ a b t u, s.heap a = some t → s.heap b = some u → t.sequence = u.sequence → a = b
  calling : s.callingExpiredTimer = true ↔
    ∃ now called rest running, s.phase = .calling now called rest running

theorem inv_initial : Inv [] initial where
  size := rfl
  timers e he := absurd he OrdSet.not_mem_empty
  active i := ⟨fun h => absurd h OrdSet.not_mem_empty,
    fun ⟨_, he, _⟩ => absurd he OrdSet.not_mem_empty⟩
  nodup := by simp [owned, queue, draining, batch, initial]
  live a := by simp [owned, queue, draining, batch, initial]
  created c a q h := by simp [initial] at h
  addr a t h := by simp [initial] at h
  seq_le a t h := by simp [initial] at h
  seq_inj a b t u h := by simp [initial] at h
  calling := by simp [initial]

section
variable {hand : List Addr} {s : State} (h : Inv hand s)
include h

theorem Inv.live_of_mem {a : Addr} (ha : a ∈ owned hand s) : ∃ t, s.heap a = some t :=
  Option.ne_none_iff_exists'.mp ((h.live a).mpr (Or.inl ha))

theorem Inv.not_mem_of_dead {a : Addr} (ha : s.heap a = none) : a ∉ owned hand s := fun hm => by
  obtain ⟨t, ht⟩ := h.live_of_mem hm
  rw [ha] at ht; cases ht

omit h in
theorem mem_owned {a : Addr} : a ∈ owned hand s ↔ a ∈ hand ∨ .insert a ∈ queue s ∨
    (∃ e ∈ s.timers, e.timer = a) ∨ ∃ e ∈ batch s.phase, e.timer = a := by
  have hq : (∃ f ∈ queue s, timerOf f = some a) ↔ .insert a ∈ queue s := by
    constructor
    · rintro ⟨f, hf, hfa⟩
      cases f with
      | insert b => rw [Option.some.inj hfa] at hf; exact hf
      | cancelTimer i => cases hfa
    · intro hf; exact ⟨_, hf, rfl⟩
  simp only [owned, List.mem_append, List.mem_filterMap, List.mem_map, hq]
  exact Iff.rfl

/-- Timers move between the hand, the queue and the batch. -/
theorem Inv.move {hand' : List Addr} {s' : State} (ht : s'.timers = s.timers)
    (ha : s'.activeTimers = s.activeTimers) (hh : s'.heap = s.heap)
    (hn : s.numCreated ≤ s'.numCreated)
    (hc : ∀ c a q, s'.calls c = .created a q ↔ s.calls c = .created a q)
    (hp : (owned hand' s').Perm (owned hand s))
    (hf : s'.callingExpiredTimer = true ↔
      ∃ now called rest running, s'.phase = .calling now called rest running) : Inv hand' s' where
  size := by rw [ht, ha]; exact h.size
  timers := by rw [ht, hh]; exact h.timers
  active := by rw [ht, ha, hh]; exact h.active
  nodup := hp.nodup_iff.mpr h.nodup
  live a := by simp only [hh, hc, hp.mem_iff]; exact h.live a
  created c a q hcq := by
    simp only [hc] at hcq ⊢
    rw [hh, hp.mem_iff]
    exact h.created c a q hcq
  addr := by rw [hh]; exact h.addr
  seq_le a t ha := (h.seq_le a t (hh ▸ ha)).trans hn
  seq_inj := by rw [hh]; exact h.seq_inj
  calling := hf

/-- The scheduler's thread goes on, with the same queue and the same batch. -/
theorem Inv.phase {p : Phase} {calling : Bool} {invoked : List Invocation}
    (hd : draining p = draining s.phase) (hb : batch p = batch s.phase)
    (hf : calling = true ↔ ∃ now called rest running, p = .calling now called rest running) :
    Inv hand { s with phase := p, callingExpiredTimer := calling, invoked := invoked } := by
  refine h.move rfl rfl rfl le_rfl (fun _ _ _ => Iff.rfl) (List.Perm.of_eq ?_) hf
  unfold owned queue
  simp only [hd, hb]

omit h in
theorem timer_mem_owned {e : TimerEntry} (he : e ∈ s.timers) : e.timer ∈ owned hand s :=
  mem_owned.mpr (Or.inr (Or.inr (Or.inl ⟨e, he, rfl⟩)))

end

/-- The lists of owned timers have no timer in common, and none twice. -/
theorem Inv.disjoint {s : State} (h : Inv [] s) :
    ((queue s).filterMap timerOf).Nodup ∧
    ((batch s.phase).map TimerEntry.timer).Nodup ∧
    (∀ a, .insert a ∈ queue s → ¬ ∃ e ∈ s.timers, e.timer = a) ∧
    (∀ a, .insert a ∈ queue s → ¬ ∃ e ∈ batch s.phase, e.timer = a) ∧
    ∀ a, (∃ e ∈ s.timers, e.timer = a) → ¬ ∃ e ∈ batch s.phase, e.timer = a := by
  have hn : ((queue s).filterMap timerOf ++ (s.timers.toList.map TimerEntry.timer ++
    (batch s.phase).map TimerEntry.timer)).Nodup := h.nodup
  obtain ⟨hq, hr, hqr⟩ := List.nodup_append.mp hn
  obtain ⟨-, hb, htb⟩ := List.nodup_append.mp hr
  have hmq : ∀ {a}, .insert a ∈ queue s → a ∈ (queue s).filterMap timerOf :=
    fun ha => List.mem_filterMap.mpr ⟨_, ha, rfl⟩
  refine ⟨hq, hb, fun a ha => ?_, fun a ha => ?_, ?_⟩
  · rintro ⟨e, he, rfl⟩
    exact hqr _ (hmq ha) _ (List.mem_append_left _ (List.mem_map_of_mem he)) rfl
  · rintro ⟨e, he, rfl⟩
    exact hqr _ (hmq ha) _ (List.mem_append_right _ (List.mem_map_of_mem he)) rfl
  · rintro a ⟨e, he, rfl⟩ ⟨e', he', hee⟩
    exact htb _ (List.mem_map_of_mem he) _ (List.mem_map_of_mem he') hee.symm

/-! ### `new` and `delete` -/

/-- The state `new Timer` leaves. -/
def allocated (timer : Addr) (request : Request) (s : State) : State :=
  { s with
    heap := Function.update s.heap timer
      (some (Timer.new request.when request.interval (s.numCreated + 1)))
    numCreated := s.numCreated + 1 }

theorem newTimer_eq_ok {timer : Addr} {request : Request} {s s' : State} :
    newTimer timer request s = .ok s' ↔
      (s.heap timer = none ∧ timer ≠ nullptr ∧ timer < uintptrMax) ∧
        s' = allocated timer request s := by
  unfold newTimer
  rw [enable_bind_eq_ok]
  exact and_congr_right fun _ => ⟨fun h => (Except.ok.inj h).symm, fun h => h ▸ rfl⟩

theorem Inv.allocated {hand : List Addr} {s : State} (h : Inv hand s) {timer : Addr}
    (request : Request) (hfree : s.heap timer = none) (hmax : timer < uintptrMax) :
    Inv (timer :: hand) (allocated timer request s) := by
  have hnew : timer ∉ owned hand s := h.not_mem_of_dead hfree
  have hne : ∀ {a t}, s.heap a = some t → a ≠ timer := by
    rintro a t ha rfl; rw [hfree] at ha; cases ha
  have hold : ∀ {a}, a ≠ timer → (Ownership.allocated timer request s).heap a = s.heap a :=
    fun ha => Function.update_of_ne ha _ _
  have hself : (Ownership.allocated timer request s).heap timer =
      some (Timer.new request.when request.interval (s.numCreated + 1)) :=
    Function.update_self _ _ _
  have hcase : ∀ {a t}, (Ownership.allocated timer request s).heap a = some t →
      a = timer ∧ t.sequence = s.numCreated + 1 ∨ a ≠ timer ∧ s.heap a = some t := by
    intro a t ha
    by_cases hat : a = timer
    · subst hat
      rw [hself] at ha
      exact Or.inl ⟨rfl, by rw [← Option.some.inj ha]; rfl⟩
    · rw [hold hat] at ha; exact Or.inr ⟨hat, ha⟩
  refine ⟨h.size, fun e he => ?_, fun i => ?_, ?_, fun a => ?_, fun c a q hc => ?_,
    fun a t ha => ?_, fun a t ha => ?_, fun a b t u ha hb htu => ?_, h.calling⟩
  · obtain ⟨t, ht, hte⟩ := h.timers e he
    exact ⟨t, by rw [hold (hne ht)]; exact ht, hte⟩
  · refine (h.active i).trans (exists_congr fun e => and_congr_right fun he => ?_)
    obtain ⟨t, ht, -⟩ := h.timers e he
    rw [hold (hne ht)]
  · exact List.nodup_cons.mpr ⟨hnew, h.nodup⟩
  · show _ ↔ a ∈ timer :: owned hand s ∨ _
    rw [List.mem_cons, or_assoc]
    by_cases hat : a = timer
    · subst hat; simp [hself]
    · rw [hold hat, h.live a]
      exact ⟨Or.inr, fun h' => h'.resolve_left hat⟩
  · obtain ⟨hno, ⟨t, ht, htq⟩, huniq⟩ := h.created c a q hc
    refine ⟨?_, ⟨t, by rw [hold (hne ht)]; exact ht, htq⟩, huniq⟩
    show ¬ a ∈ timer :: owned hand s
    rw [List.mem_cons, not_or]
    exact ⟨hne ht, hno⟩
  · rcases hcase ha with ⟨rfl, -⟩ | ⟨-, ha⟩
    · exact hmax
    · exact h.addr a t ha
  · show t.sequence ≤ s.numCreated + 1
    rcases hcase ha with ⟨-, hq⟩ | ⟨-, ha⟩
    · exact hq.le
    · exact (h.seq_le a t ha).trans (Nat.le_succ _)
  · rcases hcase ha with ⟨hat, hq⟩ | ⟨-, ha'⟩ <;> rcases hcase hb with ⟨hbt, hr⟩ | ⟨-, hb'⟩
    · rw [hat, hbt]
    · have := h.seq_le b u hb'; omega
    · have := h.seq_le a t ha'; omega
    · exact h.seq_inj a b t u ha' hb' htu

/-- The state `delete` leaves. -/
def deleted (timer : Addr) (s : State) : State :=
  { s with heap := Function.update s.heap timer none }

theorem delete_eq {timer : Addr} {s : State} {t : Timer} (h : s.heap timer = some t) :
    delete timer s = .ok (deleted timer s) := by
  unfold delete deleted; rw [h]

theorem deref_bind {α : Type} {timer : Addr} {s : State} {t : Timer} {f : Timer → Result α}
    (h : s.heap timer = some t) : (deref timer s >>= f) = f t := by
  unfold deref; rw [h]; rfl

theorem Inv.deleted {hand : List Addr} {timer : Addr} {s : State} (h : Inv (timer :: hand) s) :
    Inv hand (deleted timer s) := by
  have hnd : timer ∉ owned hand s ∧ (owned hand s).Nodup := List.nodup_cons.mp h.nodup
  have hold : ∀ {a}, a ≠ timer → (Ownership.deleted timer s).heap a = s.heap a :=
    fun ha => Function.update_of_ne ha _ _
  have hself : (Ownership.deleted timer s).heap timer = none := Function.update_self _ _ _
  have hcase : ∀ {a t}, (Ownership.deleted timer s).heap a = some t →
      a ≠ timer ∧ s.heap a = some t := by
    intro a t ha
    by_cases hat : a = timer
    · rw [hat, hself] at ha; cases ha
    · rw [hold hat] at ha; exact ⟨hat, ha⟩
  have hstored : ∀ e ∈ s.timers, e.timer ≠ timer := fun e he hee =>
    hnd.1 (hee ▸ timer_mem_owned he)
  refine ⟨h.size, fun e he => ?_, fun i => ?_, hnd.2, fun a => ?_, fun c a q hc => ?_,
    fun a t ha => h.addr a t (hcase ha).2, fun a t ha => h.seq_le a t (hcase ha).2,
    fun a b t u ha hb => h.seq_inj a b t u (hcase ha).2 (hcase hb).2, h.calling⟩
  · rw [hold (hstored e he)]; exact h.timers e he
  · refine (h.active i).trans (exists_congr fun e => and_congr_right fun he => ?_)
    rw [hold (hstored e he)]
  · by_cases hat : a = timer
    · subst hat
      rw [hself]
      refine ⟨fun hx => absurd rfl hx, ?_⟩
      rintro (hm | ⟨c, q, hc⟩)
      · exact absurd hm hnd.1
      · exact absurd (List.mem_cons_self) (h.created c a q hc).1
    · rw [hold hat, h.live a]
      show a ∈ timer :: owned hand s ∨ _ ↔ _
      rw [List.mem_cons]
      exact or_congr_left ⟨fun h' => h'.resolve_left hat, Or.inr⟩
  · obtain ⟨hno, ⟨t, ht, htq⟩, huniq⟩ := h.created c a q hc
    have hno' : ¬ a ∈ timer :: owned hand s := hno
    rw [List.mem_cons, not_or] at hno'
    exact ⟨hno'.2, ⟨t, by rw [hold hno'.1]; exact ht, htq⟩, huniq⟩

/-- The state after the timer at an address has been changed to `t`. -/
def restarted (timer : Addr) (t : Timer) (s : State) : State :=
  { s with heap := Function.update s.heap timer (some t) }

/-- A timer in hand may change, but for its sequence. -/
theorem Inv.restarted {hand : List Addr} {timer : Addr} {s : State} (h : Inv (timer :: hand) s)
    {t t' : Timer} (ht : s.heap timer = some t) (hq : t'.sequence = t.sequence) :
    Inv (timer :: hand) (restarted timer t' s) := by
  have hnd : timer ∉ owned hand s := (List.nodup_cons.mp h.nodup).1
  have hold : ∀ {a}, a ≠ timer → (Ownership.restarted timer t' s).heap a = s.heap a :=
    fun ha => Function.update_of_ne ha _ _
  have hself : (Ownership.restarted timer t' s).heap timer = some t' := Function.update_self _ _ _
  have hstored : ∀ e ∈ s.timers, e.timer ≠ timer := fun e he hee =>
    hnd (hee ▸ timer_mem_owned he)
  have hcase : ∀ {a u}, (Ownership.restarted timer t' s).heap a = some u →
      ∃ v, s.heap a = some v ∧ u.sequence = v.sequence := by
    intro a u ha
    by_cases hat : a = timer
    · subst hat
      rw [hself] at ha
      exact ⟨t, ht, by rw [← Option.some.inj ha, hq]⟩
    · rw [hold hat] at ha; exact ⟨u, ha, rfl⟩
  refine ⟨h.size, fun e he => ?_, fun i => ?_, h.nodup, fun a => ?_, fun c a q hc => ?_,
    fun a u ha => ?_, fun a u ha => ?_, fun a b u v ha hb huv => ?_, h.calling⟩
  · rw [hold (hstored e he)]; exact h.timers e he
  · refine (h.active i).trans (exists_congr fun e => and_congr_right fun he => ?_)
    rw [hold (hstored e he)]
  · refine Iff.trans ?_ (h.live a)
    by_cases hat : a = timer
    · rw [hat, hself, ht]; simp
    · rw [hold hat]
  · obtain ⟨hno, ⟨u, hu, huq⟩, huniq⟩ := h.created c a q hc
    have hne : a ≠ timer := fun hat => hno (hat ▸ List.mem_cons_self)
    exact ⟨hno, ⟨u, by rw [hold hne]; exact hu, huq⟩, huniq⟩
  · obtain ⟨v, hv, -⟩ := hcase ha
    exact h.addr a v hv
  · obtain ⟨v, hv, huv⟩ := hcase ha
    exact huv ▸ h.seq_le a v hv
  · obtain ⟨u', hu', huu⟩ := hcase ha
    obtain ⟨v', hv', hvv⟩ := hcase hb
    exact h.seq_inj a b u' v' hu' hv' (by rw [← huu, huv, hvv])

/-! ### The calls of foreign threads -/

section
variable {hand : List Addr} {timer : Addr} {s : State} {c q : ℕ}

/-- The timer in hand is left with the call of the thread `c`. -/
theorem Inv.entrust (h : Inv (timer :: hand) s) (hc : s.calls c = .none) {t : Timer}
    (ht : s.heap timer = some t) (hq : t.sequence = q) :
    Inv hand { s with calls := Function.update s.calls c (.created timer q) } := by
  obtain ⟨hnd, hnd'⟩ : timer ∉ owned hand s ∧ (owned hand s).Nodup := List.nodup_cons.mp h.nodup
  have hcase : ∀ {c' a q'}, Function.update s.calls c (.created timer q) c' = .created a q' →
      c' = c ∧ a = timer ∧ q' = q ∨ c' ≠ c ∧ s.calls c' = .created a q' := by
    intro c' a q' h'
    by_cases hcc : c' = c
    · subst hcc
      rw [Function.update_self] at h'
      cases h'
      exact Or.inl ⟨rfl, rfl, rfl⟩
    · rw [Function.update_of_ne hcc] at h'; exact Or.inr ⟨hcc, h'⟩
  have hother : ∀ {c' a q'}, s.calls c' = .created a q' → a ≠ timer ∧ a ∉ owned hand s := by
    intro c' a q' h'
    have hno : ¬ a ∈ timer :: owned hand s := (h.created c' a q' h').1
    rwa [List.mem_cons, not_or] at hno
  refine ⟨h.size, h.timers, h.active, hnd', fun a => ?_, fun c' a q' h' => ?_, h.addr, h.seq_le,
    h.seq_inj, h.calling⟩
  · rw [h.live a]
    show a ∈ timer :: owned hand s ∨ _ ↔ a ∈ owned hand s ∨ _
    constructor
    · rintro (hm | ⟨c', q', h'⟩)
      · rcases List.mem_cons.mp hm with rfl | hm
        · exact Or.inr ⟨c, q, Function.update_self _ _ _⟩
        · exact Or.inl hm
      · have hcc : c' ≠ c := by rintro rfl; rw [hc] at h'; cases h'
        exact Or.inr ⟨c', q', (Function.update_of_ne hcc _ _).trans h'⟩
    · rintro (hm | ⟨c', q', h'⟩)
      · exact Or.inl (List.mem_cons_of_mem _ hm)
      · rcases hcase h' with ⟨-, rfl, -⟩ | ⟨-, h'⟩
        · exact Or.inl List.mem_cons_self
        · exact Or.inr ⟨c', q', h'⟩
  · rcases hcase h' with ⟨rfl, rfl, rfl⟩ | ⟨hcc, h'⟩
    · refine ⟨hnd, ⟨t, ht, hq⟩, fun c'' q'' h'' => ?_⟩
      rcases hcase h'' with ⟨rfl, -, -⟩ | ⟨-, h''⟩
      · rfl
      · exact absurd rfl (hother h'').1
    · obtain ⟨-, hheap, huniq⟩ := h.created c' a q' h'
      refine ⟨(hother h').2, hheap, fun c'' q'' h'' => ?_⟩
      rcases hcase h'' with ⟨-, hat, -⟩ | ⟨-, h''⟩
      · exact absurd hat (hother h').1
      · exact huniq c'' q'' h''

/-- The timer of the call of the thread `c` is taken into the hand. -/
theorem Inv.reclaim (h : Inv hand s) (hc : s.calls c = .created timer q) {call : AddCall}
    (hcall : ∀ a q', call ≠ .created a q') :
    Inv (timer :: hand) { s with calls := Function.update s.calls c call } := by
  obtain ⟨hno, -, huniq⟩ := h.created c timer q hc
  have hcase : ∀ {c' a q'}, Function.update s.calls c call c' = .created a q' →
      c' ≠ c ∧ s.calls c' = .created a q' := by
    intro c' a q' h'
    by_cases hcc : c' = c
    · subst hcc
      rw [Function.update_self] at h'
      exact absurd h' (hcall a q')
    · rw [Function.update_of_ne hcc] at h'; exact ⟨hcc, h'⟩
  refine ⟨h.size, h.timers, h.active, List.nodup_cons.mpr ⟨hno, h.nodup⟩, fun a => ?_,
    fun c' a q' h' => ?_, h.addr, h.seq_le, h.seq_inj, h.calling⟩
  · rw [h.live a]
    show a ∈ owned hand s ∨ _ ↔ a ∈ timer :: owned hand s ∨ _
    constructor
    · rintro (hm | ⟨c', q', h'⟩)
      · exact Or.inl (List.mem_cons_of_mem _ hm)
      · by_cases hcc : c' = c
        · subst hcc
          rw [hc] at h'
          cases h'
          exact Or.inl List.mem_cons_self
        · exact Or.inr ⟨c', q', (Function.update_of_ne hcc _ _).trans h'⟩
    · rintro (hm | ⟨c', q', h'⟩)
      · rcases List.mem_cons.mp hm with rfl | hm
        · exact Or.inr ⟨c, q, hc⟩
        · exact Or.inl hm
      · exact Or.inr ⟨c', q', (hcase h').2⟩
  · obtain ⟨hcc, h'⟩ := hcase h'
    obtain ⟨hno', hheap, huniq'⟩ := h.created c' a q' h'
    refine ⟨?_, hheap, fun c'' q'' h'' => huniq' c'' q'' (hcase h'').2⟩
    show ¬ a ∈ timer :: owned hand s
    rw [List.mem_cons, not_or]
    refine ⟨?_, hno'⟩
    rintro rfl
    exact hcc (huniq c' q' h')

end

/-! ### `insert` -/

@[simp] theorem armIfEarliest_timers (when clock : Timestamp) (s : State) :
    (armIfEarliest when clock s).timers = s.timers := by
  unfold armIfEarliest; split_ifs <;> rfl

@[simp] theorem armIfEarliest_activeTimers (when clock : Timestamp) (s : State) :
    (armIfEarliest when clock s).activeTimers = s.activeTimers := by
  unfold armIfEarliest; split_ifs <;> rfl

/-- The state `insert` leaves, `t` being the timer. -/
def inserted (timer : Addr) (t : Timer) (clock : Timestamp) (s : State) : State :=
  { s with
    timers := s.timers.insert ⟨t.expiration, timer⟩
    activeTimers := s.activeTimers.insert ⟨timer, t.sequence⟩
    timerfd := (armIfEarliest t.expiration clock s).timerfd
    armings := (armIfEarliest t.expiration clock s).armings }

theorem insertTimer_eq {timer : Addr} {t : Timer} {clock : Timestamp} {s : State}
    (hsize : s.timers.size = s.activeTimers.size) (ht : s.heap timer = some t)
    (htimers : (⟨t.expiration, timer⟩ : TimerEntry) ∉ s.timers)
    (hactive : (⟨timer, t.sequence⟩ : ActiveTimerEntry) ∉ s.activeTimers) :
    insertTimer timer clock s = .ok (inserted timer t clock s) := by
  have hsize' : (s.timers.insert ⟨t.expiration, timer⟩).size =
      (s.activeTimers.insert ⟨timer, t.sequence⟩).size := by
    rw [OrdSet.size_insert htimers, OrdSet.size_insert hactive, hsize]
  refine (check_bind_of hsize).trans ((deref_bind ht).trans ?_)
  dsimp only
  simp only [armIfEarliest_timers, armIfEarliest_activeTimers]
  rw [check_bind_of htimers, check_bind_of hactive, check_bind_of hsize']
  unfold inserted armIfEarliest
  split_ifs <;> rfl

section
variable {hand : List Addr} {timer : Addr} {s : State} (h : Inv (timer :: hand) s)
include h

theorem Inv.head_not_mem : timer ∉ owned hand s := (List.nodup_cons.mp h.nodup).1

theorem Inv.head_not_stored : ∀ e ∈ s.timers, e.timer ≠ timer := fun _ he hee =>
  h.head_not_mem (hee ▸ timer_mem_owned he)

theorem Inv.head_live : ∃ t, s.heap timer = some t :=
  h.live_of_mem (List.mem_append_left _ List.mem_cons_self)

theorem Inv.head_not_active (q : ℕ) :
    (⟨timer, q⟩ : ActiveTimerEntry) ∉ s.activeTimers := fun hi => by
  obtain ⟨e, he, u, -, hie⟩ := (h.active _).mp hi
  exact h.head_not_stored e he (congrArg TimerId.timer hie).symm

theorem Inv.inserted {t : Timer} (ht : s.heap timer = some t) (clock : Timestamp) :
    Inv hand (inserted timer t clock s) := by
  have htimers : (⟨t.expiration, timer⟩ : TimerEntry) ∉ s.timers :=
    fun he => h.head_not_stored _ he rfl
  have hactive := h.head_not_active t.sequence
  have hperm :
      (owned hand (Ownership.inserted timer t clock s)).Perm (owned (timer :: hand) s) := by
    have h1 : ((s.timers.insert ⟨t.expiration, timer⟩).toList.map TimerEntry.timer).Perm
        (timer :: s.timers.toList.map TimerEntry.timer) :=
      (OrdSet.insert_perm htimers).map TimerEntry.timer
    refine (((h1.append_right _).append_left _).append_left hand).trans ?_
    rw [List.cons_append]
    exact ((List.perm_middle.append_left hand).trans List.perm_middle)
  refine ⟨?_, fun e he => ?_, fun i => ?_, hperm.nodup_iff.mpr h.nodup, fun a => ?_,
    fun c a q hc => ?_, h.addr, h.seq_le, h.seq_inj, h.calling⟩
  · show (s.timers.insert _).size = (s.activeTimers.insert _).size
    rw [OrdSet.size_insert htimers, OrdSet.size_insert hactive, h.size]
  · rcases OrdSet.mem_insert.mp he with rfl | he
    · exact ⟨t, ht, rfl⟩
    · exact h.timers e he
  · show i ∈ s.activeTimers.insert _ ↔ ∃ e ∈ s.timers.insert _, _
    simp only [OrdSet.mem_insert, h.active i]
    constructor
    · rintro (rfl | ⟨e, he, hi⟩)
      · exact ⟨⟨t.expiration, timer⟩, Or.inl rfl, t, ht, rfl⟩
      · exact ⟨e, Or.inr he, hi⟩
    · rintro ⟨e, rfl | he, u, hu, rfl⟩
      · have hu' : s.heap timer = some u := hu
        rw [ht] at hu'
        exact Or.inl (by rw [Option.some.inj hu'])
      · exact Or.inr ⟨e, he, u, hu, rfl⟩
  · rw [hperm.mem_iff]; exact h.live a
  · rw [hperm.mem_iff]; exact h.created c a q hc

/-- **`insert`** of a timer in hand does not fault. -/
theorem insertTimer_spec (clock : Timestamp) : ∃ t, s.heap timer = some t ∧
    insertTimer timer clock s = .ok (Ownership.inserted timer t clock s) ∧
    Inv hand (Ownership.inserted timer t clock s) := by
  obtain ⟨t, ht⟩ := h.head_live
  exact ⟨t, ht, insertTimer_eq h.size ht (fun he => h.head_not_stored _ he rfl)
    (h.head_not_active _), h.inserted ht clock⟩

end

/-! ### `cancel_timer` -/

/-- The state `cancel_timer` leaves if the timer `t` is in the sets. -/
def removed (timerId : TimerId) (t : Timer) (s : State) : State :=
  { s with
    timers := s.timers.erase ⟨t.expiration, timerId.timer⟩
    activeTimers := s.activeTimers.erase timerId
    heap := Function.update s.heap timerId.timer none }

/-- The state it leaves otherwise. -/
def noted (timerId : TimerId) (s : State) : State :=
  { s with
    cancelingTimers :=
      if s.callingExpiredTimer then s.cancelingTimers.insert timerId else s.cancelingTimers }

section
variable {hand : List Addr} {s : State} (h : Inv hand s)
include h

/-- The only entry of `m_timers` for a timer is the one with its expiration. -/
theorem Inv.entry_eq {e : TimerEntry} {t : Timer} (he : e ∈ s.timers)
    (ht : s.heap e.timer = some t) : e = ⟨t.expiration, e.timer⟩ := by
  obtain ⟨u, hu, hue⟩ := h.timers e he
  rw [ht] at hu
  rw [Option.some.inj hu, hue]

theorem Inv.active_iff {timerId : TimerId} : timerId ∈ s.activeTimers ↔
    ∃ t, s.heap timerId.timer = some t ∧ t.sequence = timerId.sequence ∧
      (⟨t.expiration, timerId.timer⟩ : TimerEntry) ∈ s.timers := by
  rw [h.active]
  constructor
  · rintro ⟨e, he, t, ht, rfl⟩
    exact ⟨t, ht, rfl, h.entry_eq he ht ▸ he⟩
  · rintro ⟨t, ht, hq, he⟩
    exact ⟨_, he, t, ht, by rw [hq]⟩

theorem Inv.removed {timerId : TimerId} {t : Timer} (ht : s.heap timerId.timer = some t)
    (hq : t.sequence = timerId.sequence)
    (he : (⟨t.expiration, timerId.timer⟩ : TimerEntry) ∈ s.timers) :
    Inv hand (removed timerId t s) := by
  have hi : timerId ∈ s.activeTimers := h.active_iff.mpr ⟨t, ht, hq, he⟩
  set entry : TimerEntry := ⟨t.expiration, timerId.timer⟩ with hentry
  -- the timer passes through the hand
  let taken : State :=
    { s with timers := s.timers.erase entry, activeTimers := s.activeTimers.erase timerId }
  have hperm : (owned (timerId.timer :: hand) taken).Perm (owned hand s) := by
    have h1 : (s.timers.toList.map TimerEntry.timer).Perm
        (timerId.timer :: (s.timers.erase entry).toList.map TimerEntry.timer) :=
      (OrdSet.erase_perm he).map TimerEntry.timer
    refine List.Perm.symm ((((h1.append_right _).append_left _).append_left hand).trans ?_)
    exact ((List.perm_middle.append_left hand).trans List.perm_middle)
  have hsame : ∀ e ∈ s.timers, e.timer = timerId.timer → e = entry := by
    intro e hes hee
    rw [h.entry_eq hes (hee ▸ ht), hee]
  suffices Inv (timerId.timer :: hand) taken from this.deleted
  refine ⟨?_, fun e he' => h.timers e (OrdSet.mem_erase.mp he').2, fun i => ?_,
    hperm.nodup_iff.mpr h.nodup, fun a => ?_, fun c a q hc => ?_, h.addr, h.seq_le, h.seq_inj,
    h.calling⟩
  · have h1 := OrdSet.size_erase he
    have h2 := OrdSet.size_erase hi
    have h3 := h.size
    show (s.timers.erase entry).size = (s.activeTimers.erase timerId).size
    omega
  · show i ∈ s.activeTimers.erase timerId ↔ ∃ e ∈ s.timers.erase entry, _
    simp only [OrdSet.mem_erase, h.active i]
    constructor
    · rintro ⟨hne, e, hes, u, hu, rfl⟩
      refine ⟨e, ⟨?_, hes⟩, u, hu, rfl⟩
      rintro rfl
      have hu' : s.heap timerId.timer = some u := hu
      rw [ht] at hu'
      exact hne (by rw [← Option.some.inj hu', hq])
    · rintro ⟨e, ⟨hne, hes⟩, u, hu, rfl⟩
      exact ⟨fun hie => hne (hsame e hes (congrArg TimerId.timer hie)), e, hes, u, hu, rfl⟩
  · rw [hperm.mem_iff]; exact h.live a
  · rw [hperm.mem_iff]; exact h.created c a q hc

theorem Inv.noted (timerId : TimerId) : Inv hand (noted timerId s) :=
  h.move rfl rfl rfl le_rfl (fun _ _ _ => Iff.rfl) (List.Perm.refl _) h.calling

theorem cancelTimer_active {timerId : TimerId} {t : Timer} (ht : s.heap timerId.timer = some t)
    (hq : t.sequence = timerId.sequence)
    (he : (⟨t.expiration, timerId.timer⟩ : TimerEntry) ∈ s.timers) :
    cancelTimer timerId s = .ok (Ownership.removed timerId t s) := by
  have hi : timerId ∈ s.activeTimers := h.active_iff.mpr ⟨t, ht, hq, he⟩
  have hsize := (h.removed ht hq he).size
  refine (check_bind_of h.size).trans ?_
  rw [if_pos hi, deref_bind ht]
  unfold delete
  simp only [ht]
  exact check_bind_of hsize

theorem cancelTimer_inactive {timerId : TimerId} (hi : timerId ∉ s.activeTimers) :
    cancelTimer timerId s = .ok (Ownership.noted timerId s) := by
  refine (check_bind_of h.size).trans ?_
  rw [if_neg hi]
  unfold Ownership.noted
  split_ifs <;> exact check_bind_of h.size

/-- **`cancel_timer`** does not fault: it deletes the timer if it is in the sets, and otherwise
notes the id during a dispatch. -/
theorem cancelTimer_spec (timerId : TimerId) :
    (∃ t, s.heap timerId.timer = some t ∧ t.sequence = timerId.sequence ∧
      (⟨t.expiration, timerId.timer⟩ : TimerEntry) ∈ s.timers ∧
      cancelTimer timerId s = .ok (Ownership.removed timerId t s) ∧
      Inv hand (Ownership.removed timerId t s)) ∨
    (timerId ∉ s.activeTimers ∧ cancelTimer timerId s = .ok (Ownership.noted timerId s) ∧
      Inv hand (Ownership.noted timerId s)) := by
  by_cases hi : timerId ∈ s.activeTimers
  · obtain ⟨t, ht, hq, he⟩ := h.active_iff.mp hi
    exact Or.inl ⟨t, ht, hq, he, cancelTimer_active h ht hq he, h.removed ht hq he⟩
  · exact Or.inr ⟨hi, cancelTimer_inactive h hi, h.noted timerId⟩

end

end ToolsCxx.TimerScheduler.Ownership
