import ToolsCxx.TimerScheduler.Spent
import ToolsCxx.TimerScheduler.Completion

/-! # `TimerScheduler`: what a dispatch does

A dispatch is a run from `handleEvent now` to the next `resetDone`; in between the callbacks add and
cancel timers, and other threads act. `InDispatch now s l done t` describes the state `t` after the
actions `l` of a dispatch that began in `s`, the entries `done` of the batch having been handled by
`reset`: which callbacks were started, and which timers are stored, in terms of `s` and `l`.

* `dispatch_step`: every action extends the description.
* `dispatch_spec`: every dispatch ends, what it has done when it has, and that no one-shot timer is
  ever started twice. -/

namespace ToolsCxx.TimerScheduler.Dispatch

open ToolsCxx.Base ToolsCxx.Lib.Machine ToolsCxx.Lib.OrderedSet
open ToolsCxx.TimerScheduler.Model ToolsCxx.TimerScheduler.Ownership
open ToolsCxx.TimerScheduler.Effects ToolsCxx.TimerScheduler.Frames
open ToolsCxx.TimerScheduler.Spent ToolsCxx.TimerScheduler.Completion

/-! ### What is stored -/

/-- The timer of sequence `q` is in the store, as the entry `e`. -/
def Stored (s : State) (e : TimerEntry) (q : ℕ) : Prop :=
  e ∈ s.timers ∧ ∃ t, s.heap e.timer = some t ∧ t.sequence = q

/-- It was there before the dispatch, has not expired and has not been cancelled. -/
def Kept (now : Timestamp) (s : State) (l : List Act) (e : TimerEntry) (q : ℕ) : Prop :=
  Stored s e q ∧ now < e.expiration ∧ .cancel ⟨e.timer, q⟩ ∉ l

/-- It has been added, and has not been cancelled since. -/
def Added (l : List Act) (e : TimerEntry) (q : ℕ) : Prop :=
  ∃ l₁ l₂ request clock, l = l₁ ++ .addTimer ⟨e.timer, q⟩ request clock :: l₂ ∧
    request.when = e.expiration ∧ .cancel ⟨e.timer, q⟩ ∉ l₂

/-- It is one of the timers `done`, is to be repeated, and has not been cancelled. -/
def Rearmed (now : Timestamp) (s : State) (l : List Act) (done : List TimerEntry) (e : TimerEntry)
    (q : ℕ) : Prop :=
  ∃ e₀ ∈ done, ∃ t, s.heap e₀.timer = some t ∧ t.sequence = q ∧ t.repeated = true ∧
    e = ⟨now.addTime t.interval, e₀.timer⟩ ∧ .cancel ⟨e.timer, q⟩ ∉ l

/-- What the store holds after the actions `l` of a dispatch. -/
def Holds (now : Timestamp) (s : State) (l : List Act) (done : List TimerEntry) (e : TimerEntry)
    (q : ℕ) : Prop :=
  Kept now s l e q ∨ Added l e q ∨ Rearmed now s l done e q

section
variable {now : Timestamp} {s : State} {l : List Act} {done : List TimerEntry} {e : TimerEntry}
  {q : ℕ} {a : Act}

theorem not_mem_snoc {b : Act} : b ∉ l ++ [a] ↔ b ∉ l ∧ a ≠ b := by
  rw [List.mem_append, List.mem_singleton, not_or, eq_comm]

theorem added_snoc : Added (l ++ [a]) e q ↔ (Added l e q ∧ a ≠ .cancel ⟨e.timer, q⟩) ∨
    ∃ request clock, a = .addTimer ⟨e.timer, q⟩ request clock ∧ request.when = e.expiration := by
  constructor
  · rintro ⟨l₁, l₂, request, clock, hl, hwhen, hno⟩
    rcases List.eq_nil_or_concat' l₂ with rfl | ⟨l₂, b, rfl⟩
    · obtain ⟨-, ha⟩ := List.append_inj' hl rfl
      exact Or.inr ⟨request, clock, List.singleton_inj.mp ha, hwhen⟩
    · rw [← List.cons_append, ← List.append_assoc] at hl
      obtain ⟨hl, ha⟩ := List.append_inj' hl rfl
      rw [not_mem_snoc] at hno
      rw [List.singleton_inj.mp ha]
      exact Or.inl ⟨⟨l₁, l₂, request, clock, hl, hwhen, hno.1⟩, hno.2⟩
  · rintro (⟨⟨l₁, l₂, request, clock, rfl, hwhen, hno⟩, ha⟩ | ⟨request, clock, rfl, hwhen⟩)
    · exact ⟨l₁, l₂ ++ [a], request, clock, by simp, hwhen, not_mem_snoc.mpr ⟨hno, ha⟩⟩
    · exact ⟨l, [], request, clock, rfl, hwhen, List.not_mem_nil⟩

/-- An action that neither adds nor cancels a timer. -/
def silent : Act → Bool
  | .addTimer .. | .cancel .. => false
  | _ => true

theorem holds_snoc_silent (ha : silent a = true) :
    Holds now s (l ++ [a]) done e q ↔ Holds now s l done e q := by
  have hno : a ≠ .cancel ⟨e.timer, q⟩ := by rintro rfl; cases ha
  have hadd : ¬ ∃ request clock, a = .addTimer ⟨e.timer, q⟩ request clock ∧
      request.when = e.expiration := by
    rintro ⟨request, clock, rfl, -⟩; cases ha
  unfold Holds Kept Rearmed
  simp only [not_mem_snoc, added_snoc, hno, hadd, or_false, ne_eq, not_false_eq_true, and_true]

theorem holds_snoc_cancel {timerId : TimerId} :
    Holds now s (l ++ [.cancel timerId]) done e q ↔
      Holds now s l done e q ∧ timerId ≠ ⟨e.timer, q⟩ := by
  have hadd : ¬ ∃ request clock, Act.cancel timerId = .addTimer ⟨e.timer, q⟩ request clock ∧
      request.when = e.expiration := by
    rintro ⟨request, clock, h, -⟩; cases h
  have hno : Act.cancel timerId ≠ .cancel ⟨e.timer, q⟩ ↔ timerId ≠ ⟨e.timer, q⟩ := by
    rw [ne_eq, Act.cancel.injEq]
  unfold Holds Kept Rearmed
  simp only [not_mem_snoc, added_snoc, hadd, hno, or_false]
  constructor
  · rintro (⟨h1, h2, h3, h4⟩ | ⟨h1, h2⟩ | ⟨e₀, h1, t, h2, h3, h4, h5, h6, h7⟩)
    · exact ⟨Or.inl ⟨h1, h2, h3⟩, h4⟩
    · exact ⟨Or.inr (Or.inl h1), h2⟩
    · exact ⟨Or.inr (Or.inr ⟨e₀, h1, t, h2, h3, h4, h5, h6⟩), h7⟩
  · rintro ⟨⟨h1, h2, h3⟩ | h1 | ⟨e₀, h1, t, h2, h3, h4, h5, h6⟩, h⟩
    · exact Or.inl ⟨h1, h2, h3, h⟩
    · exact Or.inr (Or.inl ⟨h1, h⟩)
    · exact Or.inr (Or.inr ⟨e₀, h1, t, h2, h3, h4, h5, h6, h⟩)

theorem holds_snoc_add {timerId : TimerId} {request : Request} {clock : Timestamp} :
    Holds now s (l ++ [.addTimer timerId request clock]) done e q ↔
      Holds now s l done e q ∨ (timerId = ⟨e.timer, q⟩ ∧ request.when = e.expiration) := by
  have hno : Act.addTimer timerId request clock ≠ .cancel ⟨e.timer, q⟩ := by rintro h; cases h
  have hadd : (∃ r c, Act.addTimer timerId request clock = .addTimer ⟨e.timer, q⟩ r c ∧
      r.when = e.expiration) ↔ timerId = ⟨e.timer, q⟩ ∧ request.when = e.expiration := by
    constructor
    · rintro ⟨r, c, h, hwhen⟩
      cases h
      exact ⟨rfl, hwhen⟩
    · rintro ⟨rfl, hwhen⟩
      exact ⟨request, clock, rfl, hwhen⟩
  unfold Holds Kept Rearmed
  simp only [not_mem_snoc, added_snoc, hno, hadd, ne_eq, not_false_eq_true, and_true]
  constructor
  · rintro (h | (h | h) | h)
    · exact Or.inl (Or.inl h)
    · exact Or.inl (Or.inr (Or.inl h))
    · exact Or.inr h
    · exact Or.inl (Or.inr (Or.inr h))
  · rintro ((h | h | h) | h)
    · exact Or.inl h
    · exact Or.inr (Or.inl (Or.inl h))
    · exact Or.inr (Or.inr h)
    · exact Or.inr (Or.inl (Or.inr h))

theorem holds_done {e' : TimerEntry} : Holds now s l (done ++ [e']) e q ↔
    Holds now s l done e q ∨ Rearmed now s l [e'] e q := by
  unfold Holds Rearmed
  simp only [List.mem_append, or_and_right, exists_or, or_assoc]

end

/-! ### The dispatch -/

/-- The start of the callback of an entry. -/
def invocation (heap : Addr → Option Timer) (e : TimerEntry) : Invocation :=
  ⟨e, sequenceAt heap e.timer, ((heap e.timer).map Timer.repeated).getD false⟩

theorem invocation_eq {heap : Addr → Option Timer} {e : TimerEntry} {t : Timer}
    (h : heap e.timer = some t) : invocation heap e = ⟨e, t.sequence, t.repeated⟩ := by
  unfold invocation; rw [sequenceAt_eq h, h]; rfl

/-- Where the thread is, and the callbacks it has started. -/
def Progress (now : Timestamp) (s : State) (done : List TimerEntry) (t : State) : Prop :=
  (∃ called rest running, t.phase = .calling now called rest running ∧ done = [] ∧
    t.invoked = s.invoked ++ called.map (invocation s.heap)) ∨
  ∃ rest, t.phase = .resetting now rest ∧
    t.invoked = s.invoked ++ (expiredAt now s).map (invocation s.heap)

/-- **The dispatch** that began in `s`, after the actions `l`: `reset` has handled `done`. -/
structure InDispatch (now : Timestamp) (s : State) (l : List Act) (done : List TimerEntry)
    (t : State) : Prop where
  expired : expiredAt now s = done ++ batch t.phase
  progress : Progress now s done t
  heap : ∀ e ∈ batch t.phase, t.heap e.timer = s.heap e.timer
  noted : ∀ e ∈ batch t.phase, ∀ u, s.heap e.timer = some u →
    (⟨e.timer, u.sequence⟩ ∈ t.cancelingTimers ↔ .cancel ⟨e.timer, u.sequence⟩ ∈ l)
  store : ∀ e q, Stored t e q ↔ Holds now s l done e q

theorem stored_congr {hand : List Addr} {t t' : State} (h : Inv hand t)
    (ht : t'.timers = t.timers) (hh : ∀ b, t.heap b ≠ none → t'.heap b = t.heap b)
    {e : TimerEntry} {q : ℕ} : Stored t' e q ↔ Stored t e q := by
  unfold Stored
  rw [ht]
  refine and_congr_right fun he => ?_
  obtain ⟨u, hu, -⟩ := h.timers e he
  rw [hh _ (by rw [hu]; simp)]

/-- The beginning of the dispatch. -/
theorem dispatch_start {now : Timestamp} {s : State} (h : Inv [] s) :
    InDispatch now s [] [] (dispatched now s) where
  expired := rfl
  progress := Or.inl ⟨[], _, _, rfl, rfl, (List.append_nil _).symm⟩
  heap _ _ := rfl
  noted e _ u _ := ⟨fun hi => absurd hi OrdSet.not_mem_empty, fun hc => absurd hc List.not_mem_nil⟩
  store e q := by
    have hmem : e ∈ unexpiredAt now s ↔ e ∈ s.timers ∧ now < e.expiration := mem_unexpiredAt h
    constructor
    · rintro ⟨he, ht⟩
      obtain ⟨he, hlt⟩ := hmem.mp he
      exact Or.inl ⟨⟨he, ht⟩, hlt, List.not_mem_nil⟩
    · rintro (⟨⟨he, ht⟩, hlt, -⟩ | ⟨l₁, l₂, _, _, hl, -⟩ | ⟨e₀, he₀, -⟩)
      · exact ⟨hmem.mpr ⟨he, hlt⟩, ht⟩
      · cases l₁ <;> cases hl
      · exact absurd he₀ List.not_mem_nil

section
variable {now : Timestamp} {s t t' : State} {l : List Act} {done : List TimerEntry} {a : Act}

/-- An action that leaves the store and the batch as they are. -/
theorem InDispatch.frame (hd : InDispatch now s l done t) (h : Inv [] t) (ha : silent a = true)
    (hb : batch t'.phase = batch t.phase) (hp : Progress now s done t')
    (ht : t'.timers = t.timers) (hc : t'.cancelingTimers = t.cancelingTimers)
    (hh : ∀ b, t.heap b ≠ none → t'.heap b = t.heap b) : InDispatch now s (l ++ [a]) done t' where
  expired := by rw [hb]; exact hd.expired
  progress := hp
  heap e he := by
    rw [hb] at he
    obtain ⟨u, hu⟩ := h.live_of_mem (mem_owned.mpr (Or.inr (Or.inr (Or.inr ⟨e, he, rfl⟩))))
    rw [hh _ (by rw [hu]; simp)]
    exact hd.heap e he
  noted e he u hu := by
    rw [hb] at he
    have hno : a ≠ .cancel ⟨e.timer, u.sequence⟩ := by rintro rfl; cases ha
    rw [hc, hd.noted e he u hu, List.mem_append, List.mem_singleton]
    exact ⟨Or.inl, fun hm => hm.resolve_right fun hx => hno hx.symm⟩
  store e q := by rw [stored_congr h ht hh, hd.store, holds_snoc_silent ha]

theorem Progress.congr (hp : Progress now s done t) (hphase : t'.phase = t.phase)
    (hinv : t'.invoked = t.invoked) : Progress now s done t' := by
  unfold Progress
  rw [hphase, hinv]
  exact hp

theorem Progress.not_idle (hp : Progress now s done t) : t.phase ≠ .idle := by
  rcases hp with ⟨_, _, _, hp, -⟩ | ⟨_, hp, -⟩ <;> rw [hp] <;> simp

theorem Progress.not_draining (hp : Progress now s done t) (fs : List Functor) :
    t.phase ≠ .draining fs := by
  rcases hp with ⟨_, _, _, hp, -⟩ | ⟨_, hp, -⟩ <;> rw [hp] <;> simp

/-- A timer is added. -/
theorem InDispatch.add (hd : InDispatch now s l done t) (h : Inv [] t) {timerId : TimerId}
    {request : Request} {clock : Timestamp}
    (he : Effect t t' (.addTimer timerId request clock)) :
    InDispatch now s (l ++ [.addTimer timerId request clock]) done t' := by
  obtain ⟨-, hq, hfree, rfl⟩ := he
  set u := Timer.new request.when request.interval (t.numCreated + 1) with hu
  have hother : ∀ b, t.heap b ≠ none →
      Function.update t.heap timerId.timer (some u) b = t.heap b := fun b hb =>
    Function.update_of_ne (fun hbt => hb (by rw [hbt, hfree])) _ _
  refine ⟨hd.expired, hd.progress.congr rfl rfl, fun e he => ?_, fun e he v hv => ?_, fun e q => ?_⟩
  · obtain ⟨v, hv⟩ := h.live_of_mem (mem_owned.mpr (Or.inr (Or.inr (Or.inr ⟨e, he, rfl⟩))))
    exact (hother _ (by rw [hv]; simp)).trans (hd.heap e he)
  · have hno : Act.cancel ⟨e.timer, v.sequence⟩ ≠ .addTimer timerId request clock := by
      rintro hx; cases hx
    refine (hd.noted e he v hv).trans ?_
    rw [List.mem_append, List.mem_singleton]
    exact ⟨Or.inl, fun hm => hm.resolve_right hno⟩
  · rw [holds_snoc_add, ← hd.store]
    show (e ∈ t.timers.insert ⟨request.when, timerId.timer⟩ ∧
      ∃ v, Function.update t.heap timerId.timer (some u) e.timer = some v ∧ v.sequence = q) ↔ _
    rw [OrdSet.mem_insert]
    constructor
    · rintro ⟨rfl | he, v, hv, hvq⟩
      · rw [Function.update_self] at hv
        cases hv
        exact Or.inr ⟨by rw [← hvq]; cases timerId; cases hq; rfl, rfl⟩
      · obtain ⟨w, hw, -⟩ := h.timers e he
        rw [hother _ (by rw [hw]; simp)] at hv
        exact Or.inl ⟨he, v, hv, hvq⟩
    · rintro (⟨he, v, hv, hvq⟩ | ⟨rfl, hwhen⟩)
      · exact ⟨Or.inr he, v, by rw [hother _ (by rw [hv]; simp)]; exact hv, hvq⟩
      · refine ⟨Or.inl (by rw [hwhen]), u, Function.update_self _ _ _, hq.symm⟩

/-- A timer is cancelled. -/
theorem InDispatch.cancel (hd : InDispatch now s l done t) (h : Inv [] t) {timerId : TimerId}
    (he : Effect t t' (.cancel timerId)) :
    InDispatch now s (l ++ [.cancel timerId]) done t' := by
  obtain ⟨huser, hc⟩ := he
  have hdisj := h.disjoint.2.2.2.2
  have hcalling : t.callingExpiredTimer = true := by
    rcases hd.progress with ⟨_, _, _, hp, -⟩ | ⟨_, hp, -⟩
    · exact h.calling.mpr ⟨_, _, _, _, hp⟩
    · rw [hp] at huser; cases huser
  rcases hc with ⟨u, hu, huq, hmem, rfl⟩ | ⟨hi, rfl⟩
  · -- the timer is stored, so it is not in the batch
    have hbatch : ∀ e ∈ batch t.phase, e.timer ≠ timerId.timer := fun e he hee =>
      hdisj _ ⟨_, hmem, rfl⟩ ⟨e, he, hee⟩
    refine ⟨hd.expired, hd.progress.congr rfl rfl, fun e he => ?_, fun e he v hv => ?_,
      fun e q => ?_⟩
    · exact (Function.update_of_ne (hbatch e he) _ _).trans (hd.heap e he)
    · have hno : Act.cancel ⟨e.timer, v.sequence⟩ ≠ .cancel timerId := by
        rintro hx
        cases hx
        exact hbatch e he rfl
      refine (hd.noted e he v hv).trans ?_
      rw [List.mem_append, List.mem_singleton]
      exact ⟨Or.inl, fun hm => hm.resolve_right hno⟩
    · rw [holds_snoc_cancel, ← hd.store]
      show (e ∈ t.timers.erase ⟨u.expiration, timerId.timer⟩ ∧
        ∃ v, Function.update t.heap timerId.timer none e.timer = some v ∧ v.sequence = q) ↔ _
      rw [OrdSet.mem_erase]
      constructor
      · rintro ⟨⟨hne, he⟩, v, hv, hvq⟩
        have het : e.timer ≠ timerId.timer := by
          intro het
          rw [het, Function.update_self] at hv
          cases hv
        rw [Function.update_of_ne het] at hv
        refine ⟨⟨he, v, hv, hvq⟩, ?_⟩
        rintro rfl
        exact het rfl
      · rintro ⟨⟨he, v, hv, hvq⟩, hne⟩
        have het : e.timer ≠ timerId.timer := by
          intro het
          rw [het, hu] at hv
          refine hne ?_
          rw [het, ← hvq, ← Option.some.inj hv, huq]
        refine ⟨⟨fun hx => het (congrArg TimerEntry.timer hx), he⟩, v, ?_, hvq⟩
        rw [Function.update_of_ne het]
        exact hv
  · refine ⟨hd.expired, hd.progress.congr rfl rfl, hd.heap, fun e he v hv => ?_, fun e q => ?_⟩
    · show _ ∈ (Ownership.noted timerId t).cancelingTimers ↔ _
      unfold Ownership.noted
      rw [if_pos hcalling, OrdSet.mem_insert, hd.noted e he v hv, List.mem_append,
        List.mem_singleton, Act.cancel.injEq]
      exact or_comm
    · rw [holds_snoc_cancel, ← hd.store]
      refine ⟨fun hst => ⟨hst, ?_⟩, fun hst => hst.1⟩
      obtain ⟨he, v, hv, hvq⟩ := hst
      rintro rfl
      exact hi ((h.active _).mpr ⟨e, he, v, hv, by rw [hvq]⟩)

/-- What one round of `reset` adds to the store. -/
theorem InDispatch.rearmed_iff (hd : InDispatch now s l done t) {e₀ : TimerEntry} {u : Timer}
    (hmem : e₀ ∈ batch t.phase) (hu : t.heap e₀.timer = some u) {e : TimerEntry} {q : ℕ} :
    Rearmed now s l [e₀] e q ↔
      (u.repeated = true ∧ (⟨e₀.timer, u.sequence⟩ : TimerId) ∉ t.cancelingTimers) ∧
        e = ⟨now.addTime u.interval, e₀.timer⟩ ∧ u.sequence = q := by
  have hu₀ : s.heap e₀.timer = some u := (hd.heap e₀ hmem).symm.trans hu
  have hnoted := hd.noted e₀ hmem u hu₀
  constructor
  · rintro ⟨e₁, he₁, v, hv, hvq, hrep, rfl, hno⟩
    obtain rfl := List.mem_singleton.mp he₁
    rw [hu₀] at hv
    cases hv
    exact ⟨⟨hrep, by rw [hnoted, hvq]; exact hno⟩, rfl, hvq⟩
  · rintro ⟨⟨hrep, hno⟩, rfl, rfl⟩
    exact ⟨e₀, List.mem_singleton.mpr rfl, u, hu₀, rfl, hrep, rfl, fun hx => hno (hnoted.mpr hx)⟩

/-- The entry `e₀` of the batch has been handled, and what it adds to the store is there. -/
theorem InDispatch.next (hd : InDispatch now s l done t) (h : Inv [] t) {e₀ : TimerEntry}
    {rest : List TimerEntry} {clock : Timestamp} (hp : t.phase = .resetting now (e₀ :: rest))
    (hp' : t'.phase = .resetting now rest) (hinv : t'.invoked = t.invoked)
    (hc : t'.cancelingTimers = t.cancelingTimers)
    (hheap : ∀ b, b ≠ e₀.timer → t'.heap b = t.heap b)
    (hstore : ∀ e q, Stored t' e q ↔ Stored t e q ∨ Rearmed now s l [e₀] e q) :
    InDispatch now s (l ++ [.resetEntry clock]) (done ++ [e₀]) t' := by
  have hbatch : batch t.phase = e₀ :: rest := by rw [hp]; rfl
  have hbatch' : batch t'.phase = rest := by rw [hp']; rfl
  have hsub : ∀ e ∈ rest, e ∈ batch t.phase := fun e he => by
    rw [hbatch]; exact List.mem_cons_of_mem _ he
  have hnodup := h.disjoint.2.1
  rw [hbatch, List.map_cons, List.nodup_cons] at hnodup
  have hother : ∀ e ∈ rest, e.timer ≠ e₀.timer := fun e he hee =>
    hnodup.1 (hee ▸ List.mem_map_of_mem he)
  refine ⟨?_, Or.inr ⟨rest, hp', ?_⟩, fun e he => ?_, fun e he v hv => ?_, fun e q => ?_⟩
  · rw [hd.expired, hbatch, hbatch', List.append_assoc]; rfl
  · rcases hd.progress with ⟨_, _, _, hcalling, -⟩ | ⟨_, -, hi⟩
    · rw [hp] at hcalling; cases hcalling
    · exact hinv.trans hi
  · rw [hbatch'] at he
    exact (hheap _ (hother e he)).trans (hd.heap e (hsub e he))
  · rw [hbatch'] at he
    rw [hc, hd.noted e (hsub e he) v hv]
    simp
  · rw [hstore, holds_snoc_silent rfl, holds_done, hd.store]

/-- One round of `reset`. -/
theorem InDispatch.reset (hd : InDispatch now s l done t) (h : Inv [] t) {clock : Timestamp}
    (he : Effect t t' (.resetEntry clock)) :
    ∃ e, InDispatch now s (l ++ [.resetEntry clock]) (done ++ [e]) t' := by
  obtain ⟨now', e₀, rest, hp, u, hu, hcase⟩ := he
  obtain rfl : now' = now := by
    rcases hd.progress with ⟨_, _, _, hp', -⟩ | ⟨_, hp', -⟩ <;> rw [hp] at hp' <;> cases hp'
    rfl
  have hmem : e₀ ∈ batch t.phase := by rw [hp]; exact List.mem_cons_self
  have hstored : ∀ e ∈ t.timers, e.timer ≠ e₀.timer := fun e he hee =>
    h.disjoint.2.2.2.2 _ ⟨e, he, rfl⟩ ⟨e₀, hmem, hee.symm⟩
  refine ⟨e₀, ?_⟩
  rcases hcase with ⟨hrep, hno, rfl⟩ | ⟨hnot, rfl⟩
  · have hheap : ∀ b, b ≠ e₀.timer →
        Function.update t.heap e₀.timer (some (u.restart now')) b = t.heap b :=
      fun b hb => Function.update_of_ne hb _ _
    have hexpire : (u.restart now').expiration = now'.addTime u.interval := by
      rw [Timer.restart_of_repeated hrep]
    have hseq : (u.restart now').sequence = u.sequence := by rw [Timer.restart_of_repeated hrep]
    refine hd.next h hp rfl rfl rfl hheap fun e q => ?_
    rw [hd.rearmed_iff hmem hu]
    show (e ∈ t.timers.insert ⟨(u.restart now').expiration, e₀.timer⟩ ∧
      ∃ v, Function.update t.heap e₀.timer (some (u.restart now')) e.timer = some v ∧
        v.sequence = q) ↔ _
    rw [OrdSet.mem_insert, hexpire]
    constructor
    · rintro ⟨rfl | he, v, hv, hvq⟩
      · rw [Function.update_self] at hv
        cases hv
        exact Or.inr ⟨⟨hrep, hno⟩, rfl, hseq.symm.trans hvq⟩
      · rw [hheap _ (hstored e he)] at hv
        exact Or.inl ⟨he, v, hv, hvq⟩
    · rintro (⟨he, v, hv, hvq⟩ | ⟨-, rfl, rfl⟩)
      · exact ⟨Or.inr he, v, (hheap _ (hstored e he)).trans hv, hvq⟩
      · exact ⟨Or.inl rfl, _, Function.update_self _ _ _, hseq⟩
  · have hheap : ∀ b, b ≠ e₀.timer → Function.update t.heap e₀.timer none b = t.heap b :=
      fun b hb => Function.update_of_ne hb _ _
    refine hd.next h hp rfl rfl rfl hheap fun e q => ?_
    rw [hd.rearmed_iff hmem hu]
    show (e ∈ t.timers ∧ ∃ v, Function.update t.heap e₀.timer none e.timer = some v ∧
      v.sequence = q) ↔ _
    constructor
    · rintro ⟨he, v, hv, hvq⟩
      rw [hheap _ (hstored e he)] at hv
      exact Or.inl ⟨he, v, hv, hvq⟩
    · rintro (⟨he, v, hv, hvq⟩ | ⟨hyes, -⟩)
      · exact ⟨he, v, (hheap _ (hstored e he)).trans hv, hvq⟩
      · exact absurd hyes hnot

/-- The callback of the next entry is started. -/
theorem InDispatch.call (hd : InDispatch now s l done t) (h : Inv [] t) (he : Effect t t' .run) :
    InDispatch now s (l ++ [.run]) done t' := by
  obtain ⟨now', called, e, rest, u, hp, hu, rfl⟩ := he
  refine hd.frame h rfl (by rw [hp]; simp [batch]) ?_ rfl rfl fun _ _ => rfl
  have hu₀ : s.heap e.timer = some u :=
    (hd.heap e (by rw [hp]; simp [batch])).symm.trans hu
  rcases hd.progress with ⟨called', rest', running, hp', hdone, hi⟩ | ⟨rest', hp', -⟩
  · rw [hp] at hp'
    cases hp'
    refine Or.inl ⟨called ++ [e], rest, true, rfl, hdone, ?_⟩
    rw [hi, List.append_assoc, List.map_append, List.map_singleton, invocation_eq hu₀]
  · rw [hp] at hp'; cases hp'

theorem InDispatch.callsDone (hd : InDispatch now s l done t) (h : Inv [] t)
    (he : Effect t t' .callsDone) : InDispatch now s (l ++ [.callsDone]) done t' := by
  obtain ⟨now', called, hp, rfl⟩ := he
  refine hd.frame h rfl (by rw [hp]; simp [batch]) ?_ rfl rfl fun _ _ => rfl
  have hexp := hd.expired
  rcases hd.progress with ⟨called', rest', running, hp', hdone, hi⟩ | ⟨rest', hp', -⟩
  · rw [hp] at hp'
    cases hp'
    refine Or.inr ⟨called, rfl, ?_⟩
    rw [hexp, hdone, hp, hi]
    simp [batch]
  · rw [hp] at hp'; cases hp'

/-- **Every action** but the last extends the description of the dispatch. -/
theorem dispatch_step (hd : InDispatch now s l done t) (h : Inv [] t) (he : Effect t t' a)
    (ha : ∀ clock, a ≠ .resetDone clock) : ∃ done', InDispatch now s (l ++ [a]) done' t' := by
  cases a with
  | addTimer timerId request clock => exact ⟨done, hd.add h he⟩
  | cancel timerId => exact ⟨done, hd.cancel h he⟩
  | run => exact ⟨done, hd.call h he⟩
  | callsDone => exact ⟨done, hd.callsDone h he⟩
  | resetEntry clock =>
    obtain ⟨e, hd'⟩ := hd.reset h he
    exact ⟨_, hd'⟩
  | runDone =>
    obtain ⟨now', called, rest, hp, rfl⟩ := he
    refine ⟨done, hd.frame h rfl (by rw [hp]; rfl) ?_ rfl rfl fun _ _ => rfl⟩
    rcases hd.progress with ⟨called', rest', running, hp', hdone, hi⟩ | ⟨rest', hp', -⟩
    · rw [hp] at hp'
      cases hp'
      exact Or.inl ⟨called, rest, false, rfl, hdone, hi⟩
    · rw [hp] at hp'; cases hp'
  | handleEvent | swapFunctors => exact absurd he.1 hd.progress.not_idle
  | resetDone clock => exact absurd rfl (ha clock)
  | runFunctor clock =>
    obtain ⟨f, fs, hp, -⟩ := he
    exact absurd hp (hd.progress.not_draining _)
  | functorsDone => exact absurd he.1 (hd.progress.not_draining _)
  | clientNew c timer request =>
    obtain ⟨-, hfree, rfl⟩ := he
    refine ⟨done, hd.frame h rfl rfl (hd.progress.congr rfl rfl) rfl rfl fun b hb => ?_⟩
    exact Function.update_of_ne (fun hbt => hb (by rw [hbt, hfree])) _ _
  | clientPush c =>
    obtain ⟨_, _, -, rfl⟩ := he
    exact ⟨done, hd.frame h rfl rfl (hd.progress.congr rfl rfl) rfl rfl fun _ _ => rfl⟩
  | clientReturn c timerId =>
    obtain ⟨_, -, -, rfl⟩ := he
    exact ⟨done, hd.frame h rfl rfl (hd.progress.congr rfl rfl) rfl rfl fun _ _ => rfl⟩
  | clientCancel c timerId =>
    obtain ⟨-, rfl⟩ := he
    exact ⟨done, hd.frame h rfl rfl (hd.progress.congr rfl rfl) rfl rfl fun _ _ => rfl⟩
  | expire clock =>
    obtain ⟨_, -, -, rfl⟩ := he
    exact ⟨done, hd.frame h rfl rfl (hd.progress.congr rfl rfl) rfl rfl fun _ _ => rfl⟩
  | otherNew =>
    have hs : t' = { t with numCreated := t.numCreated + 1 } := he
    subst hs
    exact ⟨done, hd.frame h rfl rfl (hd.progress.congr rfl rfl) rfl rfl fun _ _ => rfl⟩

/-- **A dispatch**, from `handleEvent` to the end of `reset`. -/
theorem dispatch_run (h : Inv [] s) (hl : ∀ clock, .resetDone clock ∉ l) {clock : Timestamp}
    (hr : Run exec s (.handleEvent now :: l ++ [.resetDone clock]) t') :
    t'.invoked = s.invoked ++ (expiredAt now s).map (invocation s.heap) ∧
      ∀ e q, Stored t' e q ↔ Holds now s l (expiredAt now s) e q := by
  obtain ⟨t, hr, hlast⟩ := run_snoc.mp hr
  obtain ⟨s₁, hfirst, hr⟩ := run_cons.mp hr
  obtain ⟨⟨-, rfl⟩, h₁⟩ := exec_effect h hfirst
  obtain ⟨ht, done, hd⟩ : Inv [] t ∧ ∃ done, InDispatch now s l done t := by
    refine Run.induction (P := fun l t => (∀ clock, .resetDone clock ∉ l) →
      Inv [] t ∧ ∃ done, InDispatch now s l done t) (fun _ => ⟨h₁, [], dispatch_start h⟩) ?_ hr hl
    intro l t a t' _ ih ha hno
    obtain ⟨hinv, done, hd⟩ := ih fun clock hm => hno clock (List.mem_append_left _ hm)
    obtain ⟨heff, hinv'⟩ := exec_effect hinv ha
    refine ⟨hinv', dispatch_step hd hinv heff fun clock hx => ?_⟩
    exact hno clock (List.mem_append_right _ (by rw [hx]; exact List.mem_singleton.mpr rfl))
  obtain ⟨⟨now', hp, hrearm⟩, -⟩ := exec_effect ht hlast
  have hdone : expiredAt now s = done := by
    have hexp := hd.expired
    rw [hp] at hexp
    rw [hexp]
    exact List.append_nil _
  have hinvoked : t.invoked = s.invoked ++ (expiredAt now s).map (invocation s.heap) := by
    rcases hd.progress with ⟨_, _, _, hp', -⟩ | ⟨_, -, hi⟩
    · rw [hp] at hp'; cases hp'
    · exact hi
  rw [hdone] at hinvoked ⊢
  rcases hrearm with ⟨e₀, -, -, rfl⟩ | ⟨-, rfl⟩
  · exact ⟨hinvoked, hd.store⟩
  · exact ⟨hinvoked, hd.store⟩

end

/-! ### One-shot timers -/

/-- No one-shot timer has been started twice. -/
def OneShotOnce (s : State) : Prop :=
  ((s.invoked.filter fun i => !i.repeated).map Invocation.sequence).Nodup

/-- A one-shot timer that has been started is settled. -/
theorem settled_run {s s' : State} (h : Inv [] s) (he : Effect s s' .run) :
    ∃ i, s'.invoked = s.invoked ++ [i] ∧ Unstarted i.sequence s ∧
      (i.repeated = false → Settled i.sequence s') := by
  obtain ⟨now, called, e, rest, t, hp, ht, rfl⟩ := he
  have hmem : e ∈ batch s.phase := by rw [hp]; simp [batch]
  refine ⟨⟨e, t.sequence, t.repeated⟩, rfl, ⟨e, by rw [hp]; exact List.mem_cons_self, t, ht, rfl⟩,
    fun hrep => ⟨⟨h.seq_le _ t ht, fun a u hu huq => ?_⟩, ?_⟩⟩
  · obtain rfl := h.seq_inj a e.timer u t hu ht huq
    have hu : s.heap e.timer = some u := hu
    rw [ht] at hu
    exact ⟨⟨e, by simp [batch], rfl⟩, Or.inl (by rw [← Option.some.inj hu]; exact hrep)⟩
  · rintro ⟨e', he', u, hu, huq⟩
    have hsame : e'.timer = e.timer := h.seq_inj _ _ u t hu ht huq
    have hnodup := h.disjoint.2.1
    rw [hp] at hnodup
    simp only [batch, List.map_append, List.map_cons] at hnodup
    have htail := (List.nodup_cons.mp (List.nodup_append.mp hnodup).2.1).1
    exact htail (List.mem_map.mpr ⟨e', he', hsame⟩)

theorem reachable_oneShotOnce {l : List Act} {s : State} (hr : Run exec initial l s) :
    OneShotOnce s := by
  refine (run_invariant (P := fun s => (∀ i ∈ s.invoked, i.repeated = false →
    Settled i.sequence s) ∧ OneShotOnce s) ?_ hr inv_initial ⟨by simp [initial], ?_⟩).2.2
  · rintro s s' a h ⟨hset, honce⟩ he -
    have hold : ∀ i ∈ s.invoked, i.repeated = false → Settled i.sequence s' :=
      fun i hi hrep => (hset i hi hrep).step he
    by_cases ha : a = .run
    · subst ha
      obtain ⟨i, hi, hun, hsi⟩ := settled_run h he
      refine ⟨fun j hj hrep => ?_, ?_⟩
      · rw [hi] at hj
        rcases List.mem_append.mp hj with hj | hj
        · exact hold j hj hrep
        · rw [List.mem_singleton.mp hj] at hrep ⊢
          exact hsi hrep
      · unfold OneShotOnce
        rw [hi, List.filter_append, List.map_append, List.nodup_append]
        refine ⟨honce, ((List.nodup_singleton i).filter _).map_on ?_, ?_⟩
        · intro x hx y hy _
          rw [List.mem_singleton.mp (List.mem_filter.mp hx).1,
            List.mem_singleton.mp (List.mem_filter.mp hy).1]
        · intro q hq q' hq' hqq
          obtain ⟨j, hj, rfl⟩ := List.mem_map.mp hq
          obtain ⟨j', hj', rfl⟩ := List.mem_map.mp hq'
          obtain ⟨hj, hrep⟩ := List.mem_filter.mp hj
          rw [List.mem_singleton.mp (List.mem_filter.mp hj').1] at hqq
          refine (hset j hj (by simpa using hrep)).2 ?_
          rw [hqq]
          exact hun
    · have hsame := effect_invoked he ha
      unfold OneShotOnce
      rw [hsame]
      exact ⟨hold, honce⟩
  · simp [OneShotOnce, initial]

/-! ### The specification -/

/-- **What a dispatch does** to the callbacks and to the store. -/
structure Dispatches (now : Timestamp) (s : State) (l : List Act) (s' : State) : Prop where
  /-- each expired timer is started once, in the order of the expirations, and no other timer is -/
  invoked : ∃ new : List Invocation, s'.invoked = s.invoked ++ new ∧
    (new.map Invocation.sequence).Nodup ∧
    new.Pairwise (fun i j => i.entry.expiration ≤ j.entry.expiration) ∧
    ∀ e q, (∃ i ∈ new, i.entry = e ∧ i.sequence = q) ↔ Stored s e q ∧ e.expiration ≤ now
  /-- the store has what it had, what was added and the repeating timers, without the cancelled
  ones -/
  stored : ∀ e q, Stored s' e q ↔
    Kept now s l e q ∨ Added l e q ∨
    ∃ e₀ t, e₀ ∈ s.timers ∧ e₀.expiration ≤ now ∧ s.heap e₀.timer = some t ∧ t.sequence = q ∧
      t.repeated = true ∧ e = ⟨now + Timestamp.microseconds t.interval, e₀.timer⟩ ∧
      .cancel ⟨e.timer, q⟩ ∉ l

section
variable {now : Timestamp} {s : State} (h : Inv [] s)
include h

theorem mem_batch {e : TimerEntry} {q : ℕ} :
    (∃ i ∈ (expiredAt now s).map (invocation s.heap), i.entry = e ∧ i.sequence = q) ↔
      Stored s e q ∧ e.expiration ≤ now := by
  constructor
  · rintro ⟨i, hi, rfl, rfl⟩
    obtain ⟨e, he, rfl⟩ := List.mem_map.mp hi
    obtain ⟨hes, hle⟩ := (mem_expiredAt h).mp he
    obtain ⟨t, ht, -⟩ := h.timers e hes
    rw [invocation_eq ht]
    exact ⟨⟨hes, t, ht, rfl⟩, hle⟩
  · rintro ⟨⟨he, t, ht, htq⟩, hle⟩
    refine ⟨_, List.mem_map_of_mem ((mem_expiredAt h).mpr ⟨he, hle⟩), ?_⟩
    rw [invocation_eq ht]
    exact ⟨rfl, htq⟩

theorem batch_nodup :
    (((expiredAt now s).map (invocation s.heap)).map Invocation.sequence).Nodup := by
  rw [List.map_map]
  refine List.Nodup.map_on ?_ ((OrdSet.below_sorted _ s.timers).imp fun hlt => hlt.ne)
  intro e he e' he' hq
  obtain ⟨hes, -⟩ := (mem_expiredAt h).mp he
  obtain ⟨hes', -⟩ := (mem_expiredAt h).mp he'
  obtain ⟨t, ht, hte⟩ := h.timers e hes
  obtain ⟨t', ht', hte'⟩ := h.timers e' hes'
  have hseq : t.sequence = t'.sequence := by
    have hx : (invocation s.heap e).sequence = (invocation s.heap e').sequence := hq
    rwa [invocation_eq ht, invocation_eq ht'] at hx
  have hsame := h.seq_inj _ _ t t' ht ht' hseq
  rw [h.entry_eq hes ht, h.entry_eq hes' ht', hsame]
  rw [hsame, ht'] at ht
  rw [Option.some.inj ht]

omit h in
theorem batch_sorted : ((expiredAt now s).map (invocation s.heap)).Pairwise
    fun i j => i.entry.expiration ≤ j.entry.expiration := by
  refine List.pairwise_map.mpr ((OrdSet.below_sorted _ s.timers).imp fun {e e'} hlt => ?_)
  rcases TimerEntry.lt_iff.mp hlt with hlt | ⟨heq, -⟩
  · exact hlt.le
  · exact heq.le

/-- **The specification of `handle_event`**, for every behaviour of the callbacks: it ends, and what
it has done then; and no one-shot timer is started twice by any run. -/
theorem dispatch_spec (hidle : s.phase = .idle)
    (hfits : ∀ e ∈ s.timers, e.expiration ≤ now → ∀ t, s.heap e.timer = some t →
      t.repeated = true → Timestamp.SumFits now t.interval) :
    Ends now s ∧
    (∀ l clock s', (∀ clock, .resetDone clock ∉ l) →
      Run exec s (.handleEvent now :: l ++ [.resetDone clock]) s' → Dispatches now s l s') ∧
    ∀ l s, Run exec initial l s → OneShotOnce s := by
  refine ⟨ends_of_idle h hidle, fun l clock s' hl hr => ?_, fun l s hr => reachable_oneShotOnce hr⟩
  obtain ⟨hinvoked, hstore⟩ := dispatch_run h hl hr
  refine ⟨⟨_, hinvoked, batch_nodup h, batch_sorted, fun e q => mem_batch h⟩, fun e q => ?_⟩
  rw [hstore]
  refine or_congr_right (or_congr_right ?_)
  constructor
  · rintro ⟨e₀, he₀, t, ht, htq, hrep, rfl, hno⟩
    obtain ⟨hes, hle⟩ := (mem_expiredAt h).mp he₀
    rw [Timestamp.addTime_of_fits (hfits e₀ hes hle t ht hrep)] at hno ⊢
    exact ⟨e₀, t, hes, hle, ht, htq, hrep, rfl, hno⟩
  · rintro ⟨e₀, t, hes, hle, ht, htq, hrep, rfl, hno⟩
    refine ⟨e₀, (mem_expiredAt h).mpr ⟨hes, hle⟩, t, ht, htq, hrep, ?_, hno⟩
    rw [Timestamp.addTime_of_fits (hfits e₀ hes hle t ht hrep)]

end

/-- A one-shot timer and a repeating one. -/
def both : List Act :=
  [.addTimer ⟨16, 1⟩ (.runEvery 0 1) 500, .addTimer ⟨32, 2⟩ (.runAt 1000) 500]

/-- Both have expired, and the callback of the first adds a timer. -/
def bothExpired : List Act :=
  [.run, .addTimer ⟨48, 3⟩ (.runAt 900) 1000000, .runDone, .run, .runDone, .callsDone,
    .resetEntry 1000000, .resetEntry 1000000]

theorem dispatch_spec_both :
    Ends 1000000 (after exec initial both) ∧
    Dispatches 1000000 (after exec initial both) bothExpired (after exec (after exec initial both)
      (.handleEvent 1000000 :: bothExpired ++ [.resetDone 1000000])) ∧
    ∀ l s, Run exec initial l s → OneShotOnce s := by
  have hinv : Inv [] (after exec initial both) :=
    reachable_inv (l := both) (run_after (by decide +kernel))
  have hidle : (after exec initial both).phase = .idle := by decide +kernel
  have hfits : ∀ e ∈ (after exec initial both).timers, e.expiration ≤ 1000000 → ∀ t,
      (after exec initial both).heap e.timer = some t → t.repeated = true →
        Timestamp.SumFits 1000000 t.interval := by
    intro e he _ t ht hrep
    have hlist : (after exec initial both).timers.toList = [⟨1000, 32⟩, ⟨1000000, 16⟩] := by
      decide +kernel
    have hone : ((after exec initial both).heap 16).map Timer.interval = some 1 := by
      decide +kernel
    have hzero : ((after exec initial both).heap 32).map Timer.repeated = some false := by
      decide +kernel
    rw [OrdSet.mem_def, hlist, List.mem_cons, List.mem_singleton] at he
    rcases he with rfl | rfl
    · rw [show (after exec initial both).heap 32 = some t from ht] at hzero
      rw [Option.map_some, hrep] at hzero
      cases hzero
    · rw [show (after exec initial both).heap 16 = some t from ht] at hone
      rw [Option.some.inj hone]
      decide +kernel
  obtain ⟨hends, hdispatches, honce⟩ := dispatch_spec hinv hidle hfits
  exact ⟨hends, hdispatches bothExpired 1000000 _ (by simp [bothExpired])
    (run_after (by decide +kernel)), honce⟩

end ToolsCxx.TimerScheduler.Dispatch
