import ToolsCxx.TimerScheduler.Ownership

/-! # `TimerScheduler`: what each action does

`Effect s s' a` says everything an action `a` does: its guard, and the state `s'` it leaves. In a
state with the invariant an action that is enabled does not fault, has its effect and keeps the
invariant (`exec_spec`); so every state of a run has the invariant (`reachable_inv`) and every
action of a run its effect (`exec_effect`). The other properties of the scheduler are read off the
effects. -/

namespace ToolsCxx.TimerScheduler.Effects

open ToolsCxx.Base ToolsCxx.Lib.Machine ToolsCxx.Lib.OrderedSet
open ToolsCxx.TimerScheduler.Model ToolsCxx.TimerScheduler.Ownership

/-! ### `get_expired` -/

/-- The batch: the entries before the sentry. -/
def expiredAt (now : Timestamp) (s : State) : List TimerEntry :=
  s.timers.below ⟨now, uintptrMax⟩

/-- The entries that stay. -/
def unexpiredAt (now : Timestamp) (s : State) : TimerSet := s.timers.above ⟨now, uintptrMax⟩

/-- The sequence of the timer at an address. -/
def sequenceAt (heap : Addr → Option Timer) (timer : Addr) : ℕ :=
  ((heap timer).map Timer.sequence).getD 0

theorem sequenceAt_eq {heap : Addr → Option Timer} {timer : Addr} {t : Timer}
    (h : heap timer = some t) : sequenceAt heap timer = t.sequence := by
  unfold sequenceAt; rw [h]; rfl

/-- The entry of `m_activeTimers` for an entry of `m_timers`. -/
def activeEntry (heap : Addr → Option Timer) (e : TimerEntry) : ActiveTimerEntry :=
  ⟨e.timer, sequenceAt heap e.timer⟩

/-- The state `handle_event` enters its loop with. -/
def dispatched (now : Timestamp) (s : State) : State :=
  { s with
    timerfd := readTimerfd s.timerfd
    timers := unexpiredAt now s
    activeTimers := s.activeTimers.eraseList ((expiredAt now s).map (activeEntry s.heap))
    callingExpiredTimer := true
    cancelingTimers := ∅
    phase := .calling now [] (expiredAt now s) false }

theorem eraseActive_eq : ∀ (l : List TimerEntry) (s : State),
    (∀ e ∈ l, ∃ t, s.heap e.timer = some t) →
    eraseActive l s =
      .ok { s with activeTimers := s.activeTimers.eraseList (l.map (activeEntry s.heap)) }
  | [], _, _ => rfl
  | e :: l, s, h => by
    obtain ⟨t, ht⟩ := h e List.mem_cons_self
    have hkey : activeEntry s.heap e = ⟨e.timer, t.sequence⟩ := by
      unfold activeEntry; rw [sequenceAt_eq ht]
    unfold eraseActive
    rw [List.foldlM_cons, deref_bind ht, ← hkey]
    exact eraseActive_eq l _ fun e' he' => h e' (List.mem_cons_of_mem _ he')

section
variable {hand : List Addr} {s : State} (h : Inv hand s)
include h

theorem mem_expiredAt {now : Timestamp} {e : TimerEntry} :
    e ∈ expiredAt now s ↔ e ∈ s.timers ∧ e.expiration ≤ now := by
  unfold expiredAt
  rw [OrdSet.mem_below, TimerEntry.lt_iff]
  refine and_congr_right fun he => ?_
  obtain ⟨t, ht, -⟩ := h.timers e he
  have hmax := h.addr e.timer t ht
  constructor
  · rintro (hlt | ⟨heq, -⟩)
    · exact hlt.le
    · exact heq.le
  · intro hle
    rcases lt_or_eq_of_le hle with hlt | heq
    · exact Or.inl hlt
    · exact Or.inr ⟨heq, hmax⟩

theorem mem_unexpiredAt {now : Timestamp} {e : TimerEntry} :
    e ∈ unexpiredAt now s ↔ e ∈ s.timers ∧ now < e.expiration := by
  unfold unexpiredAt
  rw [OrdSet.mem_above]
  refine and_congr_right fun he => ?_
  have hexp : e ∈ expiredAt now s ↔ e ∈ s.timers ∧ e.expiration ≤ now := mem_expiredAt h
  unfold expiredAt at hexp
  rw [OrdSet.mem_below] at hexp
  simp only [he, true_and] at hexp
  rw [← not_lt, hexp, not_le]

theorem expired_live {now : Timestamp} : ∀ e ∈ expiredAt now s, ∃ t, s.heap e.timer = some t :=
  fun e he => by
    obtain ⟨t, ht, -⟩ := h.timers e ((mem_expiredAt h).mp he).1
    exact ⟨t, ht⟩

theorem nodup_timers : (s.timers.toList.map TimerEntry.timer).Nodup := by
  have h1 := List.nodup_append.mp h.nodup
  have h2 := List.nodup_append.mp h1.2.1
  exact (List.nodup_append.mp h2.2.1).1

theorem inv_dispatched {now : Timestamp} (hphase : s.phase = .idle) :
    Inv hand (dispatched now s) := by
  have hsplit : expiredAt now s ++ (unexpiredAt now s).toList = s.timers.toList :=
    OrdSet.below_append_above _ _
  have hkey : ∀ e ∈ s.timers, ∀ t, s.heap e.timer = some t →
      activeEntry s.heap e = ⟨e.timer, t.sequence⟩ := by
    intro e _ t ht
    unfold activeEntry; rw [sequenceAt_eq ht]
  have hperm : (owned hand (dispatched now s)).Perm (owned hand s) := by
    unfold owned queue
    rw [hphase]
    show (hand ++ (s.pendingFunctors.filterMap timerOf ++ ((unexpiredAt now s).toList.map _ ++
      (expiredAt now s).map _))).Perm (hand ++ (s.pendingFunctors.filterMap timerOf ++
        (s.timers.toList.map _ ++ [])))
    rw [← hsplit, List.map_append, List.append_nil]
    exact (List.perm_append_comm.append_left _).append_left hand
  have hnd : ((expiredAt now s).map (activeEntry s.heap)).Nodup := by
    have h1 : ((expiredAt now s).map TimerEntry.timer).Nodup := by
      have := nodup_timers h
      rw [← hsplit, List.map_append] at this
      exact (List.nodup_append.mp this).1
    have h2 : (expiredAt now s).map TimerEntry.timer =
        ((expiredAt now s).map (activeEntry s.heap)).map TimerId.timer := by
      rw [List.map_map]; rfl
    rw [h2] at h1
    exact h1.of_map _
  refine ⟨?_, fun e he => h.timers e ((mem_unexpiredAt h).mp he).1, fun i => ?_,
    hperm.nodup_iff.mpr h.nodup, fun a => ?_, fun c a q hc => ?_, h.addr, h.seq_le, h.seq_inj, ?_⟩
  · have h1 := OrdSet.size_below_above ⟨now, uintptrMax⟩ s.timers
    have h2 := OrdSet.size_eraseList hnd (s := s.activeTimers) fun i hi => by
      obtain ⟨e, he, rfl⟩ := List.mem_map.mp hi
      obtain ⟨t, ht⟩ := expired_live h e he
      have hes := ((mem_expiredAt h).mp he).1
      exact (h.active _).mpr ⟨e, hes, t, ht, hkey e hes t ht⟩
    have h3 := h.size
    rw [List.length_map] at h2
    show (s.timers.above ⟨now, uintptrMax⟩).size = _
    show _ = (s.activeTimers.eraseList ((expiredAt now s).map (activeEntry s.heap))).size
    unfold expiredAt at h2 ⊢
    omega
  · show i ∈ s.activeTimers.eraseList _ ↔ ∃ e ∈ unexpiredAt now s, _
    rw [OrdSet.mem_eraseList, h.active i]
    constructor
    · rintro ⟨hni, e, he, t, ht, rfl⟩
      refine ⟨e, (mem_unexpiredAt h).mpr ⟨he, ?_⟩, t, ht, rfl⟩
      by_contra hle
      exact hni (List.mem_map.mpr ⟨e, (mem_expiredAt h).mpr ⟨he, not_lt.mp hle⟩, hkey e he t ht⟩)
    · rintro ⟨e, he, t, ht, rfl⟩
      obtain ⟨hes, hlt⟩ := (mem_unexpiredAt h).mp he
      refine ⟨fun hi => ?_, e, hes, t, ht, rfl⟩
      obtain ⟨e', he', hee⟩ := List.mem_map.mp hi
      obtain ⟨hes', hle⟩ := (mem_expiredAt h).mp he'
      have htt : e'.timer = e.timer := congrArg TimerId.timer hee
      have h1 := h.entry_eq hes ht
      have h2 := h.entry_eq hes' (htt ▸ ht)
      have hexp : e'.expiration = e.expiration := by rw [h1, h2]
      exact absurd hlt (by rw [← hexp]; exact not_lt.mpr hle)
  · rw [hperm.mem_iff]; exact h.live a
  · rw [hperm.mem_iff]; exact h.created c a q hc
  · exact ⟨fun _ => ⟨_, _, _, _, rfl⟩, fun _ => rfl⟩

/-- **`handle_event`**, up to its loop, does not fault. -/
theorem handleEvent_spec (now : Timestamp) (hphase : s.phase = .idle) :
    handleEvent now s = .ok (dispatched now s) ∧
      Inv hand (dispatched now s) := by
  have hinv : Inv hand (dispatched now s) := inv_dispatched h hphase
  refine ⟨?_, hinv⟩
  have hearly : isEarliest now (s.timers.above ⟨now, uintptrMax⟩) = true := by
    unfold isEarliest
    cases hb : (s.timers.above ⟨now, uintptrMax⟩).begin? with
    | none => rfl
    | some e => exact decide_eq_true ((mem_unexpiredAt h).mp (OrdSet.begin?_eq_some hb).1).2
  have herase := eraseActive_eq (expiredAt now s)
    { s with timerfd := readTimerfd s.timerfd, timers := s.timers.above ⟨now, uintptrMax⟩ }
    (expired_live h)
  have hget : getExpired now { s with timerfd := readTimerfd s.timerfd } =
      .ok (expiredAt now s, { s with
        timerfd := readTimerfd s.timerfd
        timers := unexpiredAt now s
        activeTimers :=
          s.activeTimers.eraseList ((expiredAt now s).map (activeEntry s.heap)) }) := by
    refine (check_bind_of h.size).trans ((check_bind_of hearly).trans ?_)
    show (eraseActive (expiredAt now s) _ >>= _) = _
    rw [herase]
    exact check_bind_of hinv.size
  refine (enable_bind_of hphase).trans ?_
  dsimp only
  rw [hget]
  rfl

end

/-! ### The effects -/

/-- What `cancel_timer` does. -/
def Cancels (timerId : TimerId) (s s' : State) : Prop :=
  (∃ t, s.heap timerId.timer = some t ∧ t.sequence = timerId.sequence ∧
    (⟨t.expiration, timerId.timer⟩ : TimerEntry) ∈ s.timers ∧ s' = removed timerId t s) ∨
  (timerId ∉ s.activeTimers ∧ s' = noted timerId s)

/-- What one round of `reset` does. -/
def Resets (now : Timestamp) (e : TimerEntry) (clock : Timestamp) (s s' : State) : Prop :=
  ∃ t, s.heap e.timer = some t ∧
    ((t.repeated = true ∧ (⟨e.timer, t.sequence⟩ : ActiveTimerEntry) ∉ s.cancelingTimers ∧
        s' = inserted e.timer (t.restart now) clock (restarted e.timer (t.restart now) s)) ∨
      (¬ (t.repeated = true ∧ (⟨e.timer, t.sequence⟩ : ActiveTimerEntry) ∉ s.cancelingTimers) ∧
        s' = deleted e.timer s))

/-- What the end of `reset` does: the timerfd is armed for the first timer if its expiration is
valid. -/
def Rearms (clock : Timestamp) (s s' : State) : Prop :=
  (∃ e, s.timers.begin? = some e ∧ e.expiration.isValid = true ∧
    s' = resetTimerfd e.expiration clock s) ∨
  ((∀ e, s.timers.begin? = some e → e.expiration.isValid = false) ∧ s' = s)

/-- What a functor does. -/
def Executes : Functor → Timestamp → State → State → Prop
  | .insert timer, clock, s, s' => ∃ t, s.heap timer = some t ∧ s' = inserted timer t clock s
  | .cancelTimer timerId, _, s, s' => Cancels timerId s s'

/-- **What an action does**: its guard, and the state it leaves. -/
def Effect (s s' : State) : Act → Prop
  | .addTimer timerId request clock =>
    s.phase.userCode = true ∧ timerId.sequence = s.numCreated + 1 ∧ s.heap timerId.timer = none ∧
      s' = { inserted timerId.timer (Timer.new request.when request.interval (s.numCreated + 1))
          clock (allocated timerId.timer request s) with
        returned := (timerId, timerId.sequence) :: s.returned }
  | .cancel timerId => s.phase.userCode = true ∧ Cancels timerId s s'
  | .handleEvent now => s.phase = .idle ∧ s' = dispatched now s
  | .run => ∃ now called e rest t, s.phase = .calling now called (e :: rest) false ∧
      s.heap e.timer = some t ∧
      s' = { s with
        phase := .calling now (called ++ [e]) rest true
        invoked := s.invoked ++ [⟨e, t.sequence, t.repeated⟩] }
  | .runDone => ∃ now called rest, s.phase = .calling now called rest true ∧
      s' = { s with phase := .calling now called rest false }
  | .callsDone => ∃ now called, s.phase = .calling now called [] false ∧
      s' = { s with callingExpiredTimer := false, phase := .resetting now called }
  | .resetEntry clock => ∃ now e rest, s.phase = .resetting now (e :: rest) ∧
      Resets now e clock { s with phase := .resetting now rest } s'
  | .resetDone clock => ∃ now, s.phase = .resetting now [] ∧
      Rearms clock { s with phase := .idle } s'
  | .swapFunctors => s.phase = .idle ∧
      s' = { s with phase := .draining s.pendingFunctors, pendingFunctors := [] }
  | .runFunctor clock => ∃ f fs, s.phase = .draining (f :: fs) ∧
      Executes f clock { s with phase := .draining fs, executed := s.executed + 1 } s'
  | .functorsDone => s.phase = .draining [] ∧ s' = { s with phase := .idle }
  | .clientNew c timer request => s.calls c = .none ∧ s.heap timer = none ∧
      s' = { allocated timer request s with
        calls := Function.update s.calls c (.created timer (s.numCreated + 1)) }
  | .clientPush c => ∃ timer q, s.calls c = .created timer q ∧
      s' = { pushFunctor (.insert timer) s with
        calls := Function.update s.calls c (.pushed timer q) }
  | .clientReturn c timerId => ∃ q, s.calls c = .pushed timerId.timer q ∧
      (∀ t, s.heap timerId.timer = some t → timerId.sequence = t.sequence) ∧
      s' = { s with
        calls := Function.update s.calls c .none
        returned := (timerId, q) :: s.returned }
  | .clientCancel c timerId => s.calls c = .none ∧ s' = pushFunctor (.cancelTimer timerId) s
  | .expire clock => ∃ d, s.timerfd = .armed d ∧ d ≤ clock ∧ s' = { s with timerfd := .readable d }
  | .otherNew => s' = { s with numCreated := s.numCreated + 1 }

/-- The action is not enabled, or it has its effect and keeps the invariant. -/
def Sound (r : Result State) (effect : State → Prop) : Prop :=
  r = .error .disabled ∨ ∃ s', r = .ok s' ∧ effect s' ∧ Inv [] s'

section
variable {s : State} (h : Inv [] s)
include h

theorem addTimer_sound (timerId : TimerId) (request : Request) (clock : Timestamp) :
    Sound (addTimer timerId request clock s)
      fun s' => Effect s s' (.addTimer timerId request clock) := by
  unfold addTimer
  by_cases hu : s.phase.userCode = true ∧ timerId.sequence = s.numCreated + 1
  swap; · left; unfold enable; rw [if_neg hu]; rfl
  rw [enable_bind_of hu]
  by_cases hn : s.heap timerId.timer = none ∧ timerId.timer ≠ nullptr ∧ timerId.timer < uintptrMax
  swap; · left; unfold newTimer enable; rw [if_neg hn]; rfl
  right
  have h1 := h.allocated request hn.1 hn.2.2
  obtain ⟨t, ht, hins, h2⟩ := insertTimer_spec h1 clock
  have htn : t = Timer.new request.when request.interval (s.numCreated + 1) :=
    (Option.some.inj ((Function.update_self timerId.timer _ s.heap).symm.trans ht)).symm
  rw [newTimer_eq_ok.mpr ⟨hn, rfl⟩]
  refine ⟨_, ?_, ⟨hu.1, hu.2, hn.1, rfl⟩, ?_⟩
  · show (insertTimer timerId.timer clock (allocated timerId.timer request s) >>= _) = _
    rw [hins, htn]; rfl
  · rw [htn] at h2
    exact h2.move rfl rfl rfl le_rfl (fun _ _ _ => Iff.rfl) (List.Perm.refl _) h2.calling

theorem cancelTimer_sound (timerId : TimerId) :
    ∃ s', cancelTimer timerId s = .ok s' ∧ Cancels timerId s s' ∧ Inv [] s' := by
  rcases cancelTimer_spec h timerId with ⟨t, ht, hq, he, hok, hinv⟩ | ⟨hi, hok, hinv⟩
  · exact ⟨_, hok, Or.inl ⟨t, ht, hq, he, rfl⟩, hinv⟩
  · exact ⟨_, hok, Or.inr ⟨hi, rfl⟩, hinv⟩

theorem cancel_sound (timerId : TimerId) :
    Sound (cancel timerId s) fun s' => Effect s s' (.cancel timerId) := by
  unfold cancel
  by_cases hu : s.phase.userCode = true
  · obtain ⟨s', hok, heff, hinv⟩ := cancelTimer_sound h timerId
    exact Or.inr ⟨s', by rw [enable_bind_of hu, hok], ⟨hu, heff⟩, hinv⟩
  · left; unfold enable; rw [if_neg hu]; rfl

theorem handleEvent_sound (now : Timestamp) :
    Sound (handleEvent now s) fun s' => Effect s s' (.handleEvent now) := by
  by_cases hi : s.phase = .idle
  · obtain ⟨hok, hinv⟩ := handleEvent_spec h now hi
    exact Or.inr ⟨_, hok, ⟨hi, rfl⟩, hinv⟩
  · left; unfold handleEvent enable; rw [if_neg hi]; rfl

theorem run_sound : Sound (run s) fun s' => Effect s s' .run := by
  unfold run
  split
  · rename_i now called e rest hp
    have he : e.timer ∈ owned [] s :=
      mem_owned.mpr (Or.inr (Or.inr (Or.inr ⟨e, by rw [hp]; simp [batch], rfl⟩)))
    obtain ⟨t, ht⟩ := h.live_of_mem he
    rw [deref_bind ht]
    refine Or.inr ⟨_, rfl, ⟨now, called, e, rest, t, hp, ht, rfl⟩, h.phase ?_ ?_ ?_⟩
    · rw [hp]; rfl
    · rw [hp]; simp [batch]
    · rw [h.calling, hp]; simp
  · exact Or.inl rfl

theorem runDone_sound : Sound (runDone s) fun s' => Effect s s' .runDone := by
  unfold runDone
  split
  · rename_i now called rest hp
    refine Or.inr ⟨_, rfl, ⟨now, called, rest, hp, rfl⟩, h.phase ?_ ?_ ?_⟩
    · rw [hp]; rfl
    · rw [hp]; rfl
    · rw [h.calling, hp]; simp
  · exact Or.inl rfl

theorem callsDone_sound : Sound (callsDone s) fun s' => Effect s s' .callsDone := by
  unfold callsDone
  split
  · rename_i now called hp
    refine Or.inr ⟨_, rfl, ⟨now, called, hp, rfl⟩, h.phase ?_ ?_ (by simp)⟩
    · rw [hp]; rfl
    · rw [hp]; simp [batch]
  · exact Or.inl rfl

theorem resetEntry_sound (clock : Timestamp) :
    Sound (resetEntry clock s) fun s' => Effect s s' (.resetEntry clock) := by
  unfold resetEntry
  split
  · rename_i now e rest hp
    -- the timer moves from the batch into the hand
    have h1 : Inv [e.timer] { s with phase := .resetting now rest } := by
      refine h.move rfl rfl rfl le_rfl (fun _ _ _ => Iff.rfl) ?_ (by rw [h.calling, hp]; simp)
      unfold owned queue
      simp only [hp, draining, batch, List.map_cons, List.singleton_append, List.nil_append]
      exact ((List.perm_middle.append_left _).trans List.perm_middle).symm
    obtain ⟨t, ht⟩ := h1.head_live
    simp only [deref_bind ht]
    by_cases hc : t.repeated = true ∧
        (⟨e.timer, t.sequence⟩ : ActiveTimerEntry) ∉ s.cancelingTimers
    · rw [if_pos hc]
      have hseq : (t.restart now).sequence = t.sequence := by rw [Timer.restart_of_repeated hc.1]
      have h2 := h1.restarted ht hseq
      obtain ⟨t', ht', hok, h3⟩ := insertTimer_spec h2 clock
      have htt : t' = t.restart now :=
        (Option.some.inj ((Function.update_self e.timer _ s.heap).symm.trans ht')).symm
      rw [htt] at hok h3
      exact Or.inr ⟨_, hok, ⟨now, e, rest, hp, t, ht, Or.inl ⟨hc.1, hc.2, rfl⟩⟩, h3⟩
    · rw [if_neg hc]
      exact Or.inr ⟨_, delete_eq ht, ⟨now, e, rest, hp, t, ht, Or.inr ⟨hc, rfl⟩⟩, h1.deleted⟩
  · exact Or.inl rfl

theorem resetDone_sound (clock : Timestamp) :
    Sound (resetDone clock s) fun s' => Effect s s' (.resetDone clock) := by
  unfold resetDone
  split
  · rename_i now hp
    have h1 : Inv [] { s with phase := .idle } :=
      h.phase (by rw [hp]; rfl) (by rw [hp]; rfl) (by rw [h.calling, hp]; simp)
    have hnew : newExpire { s with phase := .idle } =
        .ok ((s.timers.begin?.map TimerEntry.expiration).getD Timestamp.invalid) := by
      unfold newExpire
      cases hb : s.timers.begin? with
      | none => rfl
      | some e =>
        obtain ⟨t, ht, hte⟩ := h.timers e (OrdSet.begin?_eq_some hb).1
        exact (deref_bind ht).trans (by rw [hte]; rfl)
    simp only [hnew]
    refine Or.inr ⟨_, rfl, ⟨now, hp, ?_⟩, ?_⟩
    · cases hb : s.timers.begin? with
      | none => exact Or.inr ⟨fun e he => absurd (hb.symm.trans he) (by simp), rfl⟩
      | some e =>
        by_cases hv : e.expiration.isValid = true
        · exact Or.inl ⟨e, hb, hv, if_pos hv⟩
        · refine Or.inr ⟨fun e' he' => ?_, if_neg hv⟩
          rw [hb] at he'
          rw [← Option.some.inj he']
          exact Bool.eq_false_iff.mpr hv
    · split_ifs
      · exact h1.move rfl rfl rfl le_rfl (fun _ _ _ => Iff.rfl) (List.Perm.refl _) h1.calling
      · exact h1
  · exact Or.inl rfl

theorem swapFunctors_sound : Sound (swapFunctors s) fun s' => Effect s s' .swapFunctors := by
  by_cases hp : s.phase = .idle
  · refine Or.inr ⟨_, enable_bind_of hp, ⟨hp, rfl⟩, ?_⟩
    refine h.move rfl rfl rfl le_rfl (fun _ _ _ => Iff.rfl) (List.Perm.of_eq ?_) ?_
    · unfold owned queue; simp [hp, draining, batch]
    · rw [h.calling, hp]; simp
  · left; unfold swapFunctors enable; rw [if_neg hp]; rfl

/-- The first of the queued functors is taken out, with its timer. -/
theorem Inv.popped {f : Functor} {fs : List Functor} (hp : s.phase = .draining (f :: fs)) :
    Inv (timerOf f).toList { s with phase := .draining fs, executed := s.executed + 1 } := by
  refine h.move rfl rfl rfl le_rfl (fun _ _ _ => Iff.rfl) (List.Perm.of_eq ?_) ?_
  · unfold owned queue
    cases f <;> simp [hp, draining, batch, timerOf]
  · rw [h.calling, hp]; simp

theorem runFunctor_sound (clock : Timestamp) :
    Sound (runFunctor clock s) fun s' => Effect s s' (.runFunctor clock) := by
  unfold runFunctor
  split
  · rename_i f fs hp
    have h1 := Inv.popped h hp
    cases f with
    | insert timer =>
      obtain ⟨t, ht, hok, h2⟩ := insertTimer_spec h1 clock
      exact Or.inr ⟨_, hok, ⟨_, fs, hp, t, ht, rfl⟩, h2⟩
    | cancelTimer timerId =>
      obtain ⟨s', hok, heff, h2⟩ := cancelTimer_sound h1 timerId
      exact Or.inr ⟨s', hok, ⟨_, fs, hp, heff⟩, h2⟩
  · exact Or.inl rfl

theorem functorsDone_sound : Sound (functorsDone s) fun s' => Effect s s' .functorsDone := by
  unfold functorsDone
  split
  · rename_i hp
    refine Or.inr ⟨_, rfl, ⟨hp, rfl⟩, h.phase ?_ ?_ ?_⟩
    · rw [hp]; rfl
    · rw [hp]; rfl
    · rw [h.calling, hp]; simp
  · exact Or.inl rfl

theorem clientNew_sound (c : ℕ) (timer : Addr) (request : Request) :
    Sound (clientNew c timer request s) fun s' => Effect s s' (.clientNew c timer request) := by
  unfold clientNew
  by_cases hc : s.calls c = .none
  swap; · left; unfold enable; rw [if_neg hc]; rfl
  rw [enable_bind_of hc]
  by_cases hn : s.heap timer = none ∧ timer ≠ nullptr ∧ timer < uintptrMax
  swap; · left; unfold newTimer enable; rw [if_neg hn]; rfl
  rw [newTimer_eq_ok.mpr ⟨hn, rfl⟩]
  refine Or.inr ⟨_, rfl, ⟨hc, hn.1, rfl⟩, ?_⟩
  exact (h.allocated request hn.1 hn.2.2).entrust hc (Function.update_self _ _ _) rfl

theorem clientPush_sound (c : ℕ) :
    Sound (clientPush c s) fun s' => Effect s s' (.clientPush c) := by
  unfold clientPush
  split
  · rename_i timer q hc
    refine Or.inr ⟨_, rfl, ⟨timer, q, hc, rfl⟩, ?_⟩
    have h1 := h.reclaim hc (fun a q' => (by simp : AddCall.pushed timer q ≠ .created a q'))
    refine h1.move rfl rfl rfl le_rfl (fun _ _ _ => Iff.rfl) ?_ h.calling
    unfold owned queue
    simp only [pushFunctor, ← List.append_assoc, List.filterMap_append]
    simp only [List.filterMap_cons, timerOf, List.filterMap_nil, List.append_assoc,
      List.nil_append, List.singleton_append]
    exact (List.perm_middle.append_left _).trans List.perm_middle
  · exact Or.inl rfl

theorem clientReturn_sound (c : ℕ) (timerId : TimerId) :
    Sound (clientReturn c timerId s) fun s' => Effect s s' (.clientReturn c timerId) := by
  unfold clientReturn
  split
  · rename_i timer q hc
    by_cases hr : timerId.timer = timer ∧ ∀ t ∈ s.heap timer, timerId.sequence = t.sequence
    swap; · left; unfold enable; rw [if_neg hr]; rfl
    rw [enable_bind_of hr]
    refine Or.inr ⟨_, rfl, ⟨q, by rw [hr.1]; exact hc, by rw [hr.1]; exact hr.2, rfl⟩, ?_⟩
    refine h.move rfl rfl rfl le_rfl (fun c' a q' => ?_) (List.Perm.refl _) h.calling
    by_cases hcc : c' = c
    · subst hcc; simp [hc]
    · simp [Function.update_of_ne hcc]
  · exact Or.inl rfl

theorem clientCancel_sound (c : ℕ) (timerId : TimerId) :
    Sound (clientCancel c timerId s) fun s' => Effect s s' (.clientCancel c timerId) := by
  unfold clientCancel
  by_cases hc : s.calls c = .none
  swap; · left; unfold enable; rw [if_neg hc]; rfl
  refine Or.inr ⟨_, enable_bind_of hc, ⟨hc, rfl⟩, ?_⟩
  refine h.move rfl rfl rfl le_rfl (fun _ _ _ => Iff.rfl) (List.Perm.of_eq ?_) h.calling
  unfold owned queue
  simp [pushFunctor, timerOf]

theorem expire_sound (clock : Timestamp) :
    Sound (expire clock s) fun s' => Effect s s' (.expire clock) := by
  unfold expire
  split
  · rename_i d hd
    by_cases hc : d ≤ clock
    swap; · left; unfold enable; rw [if_neg hc]; rfl
    refine Or.inr ⟨_, enable_bind_of hc, ⟨d, hd, hc, rfl⟩, ?_⟩
    exact h.move rfl rfl rfl le_rfl (fun _ _ _ => Iff.rfl) (List.Perm.refl _) h.calling
  · exact Or.inl rfl

theorem otherNew_sound : Sound (otherNew s) fun s' => Effect s s' .otherNew :=
  Or.inr ⟨_, rfl, rfl,
    h.move rfl rfl rfl (Nat.le_succ _) (fun _ _ _ => Iff.rfl) (List.Perm.refl _) h.calling⟩

/-- **Every action** is disabled, or it does not fault, has its effect and keeps the invariant. -/
theorem exec_spec (a : Act) : Sound (exec s a) fun s' => Effect s s' a := by
  cases a with
  | addTimer timerId request clock => exact addTimer_sound h timerId request clock
  | cancel timerId => exact cancel_sound h timerId
  | handleEvent now => exact handleEvent_sound h now
  | run => exact run_sound h
  | runDone => exact runDone_sound h
  | callsDone => exact callsDone_sound h
  | resetEntry clock => exact resetEntry_sound h clock
  | resetDone clock => exact resetDone_sound h clock
  | swapFunctors => exact swapFunctors_sound h
  | runFunctor clock => exact runFunctor_sound h clock
  | functorsDone => exact functorsDone_sound h
  | clientNew c timer request => exact clientNew_sound h c timer request
  | clientPush c => exact clientPush_sound h c
  | clientReturn c timerId => exact clientReturn_sound h c timerId
  | clientCancel c timerId => exact clientCancel_sound h c timerId
  | expire clock => exact expire_sound h clock
  | otherNew => exact otherNew_sound h

theorem exec_effect {s' : State} {a : Act} (ha : exec s a = .ok s') :
    Effect s s' a ∧ Inv [] s' := by
  rcases exec_spec h a with hd | ⟨s'', hok, heff, hinv⟩
  · rw [hd] at ha; cases ha
  · rw [ha] at hok
    cases hok
    exact ⟨heff, hinv⟩

theorem exec_no_fault (a : Act) (f : Fault) : exec s a ≠ .error (.fault f) := by
  rcases exec_spec h a with hd | ⟨s', hok, -⟩
  · rw [hd]; simp
  · rw [hok]; simp

end

/-- **The invariant rule**, for runs whose actions are all of a kind `A`. -/
theorem run_invariant_of {P : State → Prop} {A : Act → Prop}
    (hstep : ∀ t t' a, A a → Inv [] t → P t → Effect t t' a → Inv [] t' → P t') {s s' : State}
    {l : List Act} (hr : Run exec s l s') (hl : ∀ a ∈ l, A a) (h : Inv [] s) (h0 : P s) :
    Inv [] s' ∧ P s' :=
  hr.invariant_step (I := Inv [])
    (fun t a t' hinv (ha : exec t a = .ok t') => exec_effect hinv ha)
    (fun t a t' hA hinv hP heff hinv' => hstep t t' a hA hinv hP heff hinv') h h0 hl

/-- **The invariant rule**: what the effects keep is kept by a run. -/
theorem run_invariant {P : State → Prop}
    (hstep : ∀ t t' a, Inv [] t → P t → Effect t t' a → Inv [] t' → P t') {s s' : State}
    {l : List Act} (hr : Run exec s l s') (h : Inv [] s) (h0 : P s) : Inv [] s' ∧ P s' :=
  run_invariant_of (A := fun _ => True) (fun t t' a _ => hstep t t' a) hr (fun _ _ => trivial) h h0

/-- Every state of a run has the invariant. -/
theorem run_inv {s s' : State} {l : List Act} (hr : Run exec s l s') (h : Inv [] s) : Inv [] s' :=
  (run_invariant (P := fun _ => True) (fun _ _ _ _ _ _ _ => trivial) hr h trivial).1

theorem reachable_inv {s : State} {l : List Act} (hr : Run exec initial l s) : Inv [] s :=
  run_inv hr inv_initial

end ToolsCxx.TimerScheduler.Effects
