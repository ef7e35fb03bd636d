import ToolsCxx.Lib.Alarms
import ToolsCxx.TimerScheduler.Store

/-! # `TimerScheduler` is a service of alarms

The alarm of a timer is its sequence, which no other timer has. Seen so, a run of the scheduler is
a path of the service of `Lib.Alarms`: the two sets, the batch, the queued insertions, the ids noted
in `m_cancelingTimers` and the addresses that are used again do not show.

* `Abs`: how a state of the scheduler stands for one of the service.
* `effect_refines`: what an action does is what its labels do.
* `refines_alarms`: the trace of every run is a path of the service.
* `timers_keep_pace`: the callback of a timer is called at times that keep its pace.
* `called_in_order`: of two timers in the store the one that expires first is called first. -/

namespace ToolsCxx.TimerScheduler.Service

open ToolsCxx.Base ToolsCxx.Lib ToolsCxx.Lib.Machine ToolsCxx.Lib.OrderedSet
open ToolsCxx.TimerScheduler.Model ToolsCxx.TimerScheduler.Ownership
open ToolsCxx.TimerScheduler.Effects ToolsCxx.TimerScheduler.Store

abbrev AlarmService := Alarms.State ℕ Timestamp ℚ

abbrev Label := Alarms.Label ℕ Timestamp ℚ

/-- The deadline of a timer after a dispatch at `now`. -/
def nextDeadline (interval : ℚ) (now : Timestamp) : Option Timestamp :=
  if 0 < interval then some (now.addTime interval) else none

/-! ### The labels of an action -/

/-- A `cancel_timer` is seen if its id names a timer. -/
def cancelLabels (timerId : TimerId) (s : State) : List Label :=
  if (s.heap timerId.timer).map Timer.sequence = some timerId.sequence then
    [.cancel timerId.sequence]
  else []

/-- What is seen of an action. -/
def labels (s : State) : Act → List Label
  | .addTimer timerId request _ =>
    [.make (s.numCreated + 1) request.when request.interval, .arm timerId.sequence]
  | .cancel timerId => cancelLabels timerId s
  | .handleEvent now => [.dispatch now]
  | .run =>
    match s.phase with
    | .calling now _ (e :: _) _ => [.fire (sequenceAt s.heap e.timer) now]
    | _ => []
  | .callsDone => [.finish]
  | .resetEntry _ =>
    match s.phase with
    | .resetting _ (e :: _) => [.settle (sequenceAt s.heap e.timer)]
    | _ => []
  | .resetDone _ => [.done]
  | .runFunctor _ =>
    match s.phase with
    | .draining (.insert timer :: _) => [.arm (sequenceAt s.heap timer)]
    | .draining (.cancelTimer timerId :: _) => cancelLabels timerId s
    | _ => []
  | .clientNew _ _ request => [.make (s.numCreated + 1) request.when request.interval]
  | _ => []

/-! ### The abstraction -/

/-- The timer at an address has not been inserted yet. -/
def Waits (s : State) (a : Addr) : Prop := .insert a ∈ queue s ∨ ∃ c q, s.calls c = .created a q

/-- The entries whose callbacks are still to be called. -/
def due : Phase → List TimerEntry
  | .calling _ _ rest _ => rest
  | _ => []

/-- The entries whose callbacks have been called. -/
def fired : Phase → List TimerEntry
  | .calling _ called _ _ => called
  | .resetting _ rest => rest
  | _ => []

def roundOf : Phase → Alarms.Round Timestamp
  | .calling now _ _ _ => .calling now
  | .resetting now _ => .settling now
  | _ => .rest

/-- The id of the timer is in `m_cancelingTimers`. -/
def noticed (s : State) (a : Addr) (t : Timer) : Bool :=
  decide ((⟨a, t.sequence⟩ : ActiveTimerEntry) ∈ s.cancelingTimers)

/-- The place `p` of the alarm of the timer `t` at the address `a`. -/
structure Spot (s : State) (a : Addr) (t : Timer) (p : Alarms.Place Timestamp) : Prop where
  waits : Waits s a → p = .waiting
  stored : ∀ e ∈ s.timers, e.timer = a → p = .armed e.expiration
  due : ∀ e ∈ due s.phase, e.timer = a → p = .due e.expiration (noticed s a t)
  fired : ∀ e ∈ fired s.phase, e.timer = a → p = .fired (noticed s a t)

/-- What the service knows of the timer `t` at the address `a`. -/
structure Known (s : State) (σ : AlarmService) (a : Addr) (t : Timer) : Prop where
  spot : Spot s a t (σ.place t.sequence)
  repeated : t.repeated = decide (0 < t.interval)
  made : ∃ d, σ.made t.sequence = some (d, t.interval)
  waits : Waits s a → σ.made t.sequence = some (t.expiration, t.interval)

/-- **The state `s` stands for `σ`.** -/
structure Abs (s : State) (σ : AlarmService) : Prop where
  known : ∀ a t, s.heap a = some t → Known s σ a t
  dead : ∀ q, (∀ a t, s.heap a = some t → t.sequence ≠ q) → σ.place q = .out
  fresh : ∀ q, s.numCreated < q → σ.made q = none
  round : σ.round = roundOf s.phase
  sorted : (due s.phase).Pairwise (·.expiration ≤ ·.expiration)

theorem abs_initial : Abs initial Alarms.initial where
  known _ _ h := by cases h
  dead _ _ := rfl
  fresh _ _ := rfl
  round := rfl
  sorted := .nil

/-! ### A change at one address -/

/-- The address `a` is as it was. -/
structure Same (s s' : State) (a : Addr) : Prop where
  heap : s'.heap a = s.heap a
  waits : Waits s' a → Waits s a
  stored : ∀ e ∈ s'.timers, e.timer = a → e ∈ s.timers
  due : ∀ e ∈ due s'.phase, e.timer = a → e ∈ due s.phase
  fired : ∀ e ∈ fired s'.phase, e.timer = a → e ∈ fired s.phase
  noticed : ∀ t, s.heap a = some t → noticed s' a t = noticed s a t

section
variable {s s' : State} {σ σ' : AlarmService} {a : Addr} {q : ℕ}

theorem Same.known (h : Same s s' a) {t : Timer} (ht : s.heap a = some t) (hk : Known s σ a t)
    (hplace : σ'.place t.sequence = σ.place t.sequence)
    (hmade : σ'.made t.sequence = σ.made t.sequence) : Known s' σ' a t where
  spot := by
    rw [hplace]
    refine ⟨fun hw => hk.spot.waits (h.waits hw),
      fun e he hea => hk.spot.stored e (h.stored e he hea) hea, fun e he hea => ?_,
      fun e he hea => ?_⟩
    · rw [h.noticed t ht]
      exact hk.spot.due e (h.due e he hea) hea
    · rw [h.noticed t ht]
      exact hk.spot.fired e (h.fired e he hea) hea
  repeated := hk.repeated
  made := by
    rw [hmade]
    exact hk.made
  waits hw := by
    rw [hmade]
    exact hk.waits (h.waits hw)

/-- No timer changes. -/
theorem Abs.same (h : Abs s σ) (hsame : ∀ a, Same s s' a) (hplace : σ'.place = σ.place)
    (hmade : σ'.made = σ.made) (hnum : s.numCreated ≤ s'.numCreated)
    (hround : σ'.round = roundOf s'.phase)
    (hsorted : (due s'.phase).Pairwise (·.expiration ≤ ·.expiration)) : Abs s' σ' where
  known a t ht := by
    rw [(hsame a).heap] at ht
    exact (hsame a).known ht (h.known a t ht) (by rw [hplace]) (by rw [hmade])
  dead q hq := by
    rw [hplace]
    exact h.dead q fun a t ht => hq a t (by rw [(hsame a).heap]; exact ht)
  fresh q hq := by
    rw [hmade]
    exact h.fresh q (hnum.trans_lt hq)
  round := hround
  sorted := hsorted

/-- Only the timer at the address `a` changes, whose sequence is `q`. -/
theorem Abs.change (h : Abs s σ) (hsame : ∀ b, b ≠ a → Same s s' b)
    (hplace : ∀ k, k ≠ q → σ'.place k = σ.place k) (hmade : ∀ k, k ≠ q → σ'.made k = σ.made k)
    (hold : ∀ t, s.heap a = some t → t.sequence = q)
    (hother : ∀ b t, b ≠ a → s.heap b = some t → t.sequence ≠ q)
    (hnew : ∀ t, s'.heap a = some t → t.sequence = q ∧ Known s' σ' a t)
    (hdead : s'.heap a = none → σ'.place q = .out)
    (hq : q ≤ s'.numCreated) (hnum : s.numCreated ≤ s'.numCreated)
    (hround : σ'.round = roundOf s'.phase)
    (hsorted : (due s'.phase).Pairwise (·.expiration ≤ ·.expiration)) : Abs s' σ' where
  known b t ht := by
    rcases eq_or_ne b a with rfl | hne
    · exact (hnew t ht).2
    · rw [(hsame b hne).heap] at ht
      have hk := hother b t hne ht
      exact (hsame b hne).known ht (h.known b t ht) (hplace _ hk) (hmade _ hk)
  dead k hk := by
    rcases eq_or_ne k q with rfl | hne
    · refine hdead ?_
      cases ha : s'.heap a with
      | none => rfl
      | some t => exact absurd (hnew t ha).1 (hk a t ha)
    · rw [hplace k hne]
      refine h.dead k fun b t ht => ?_
      rcases eq_or_ne b a with rfl | hba
      · exact fun heq => hne (heq.symm.trans (hold t ht))
      · exact hk b t (by rw [(hsame b hba).heap]; exact ht)
  fresh k hk := by
    have hne : k ≠ q := by omega
    rw [hmade k hne]
    exact h.fresh k (by omega)
  round := hround
  sorted := hsorted

end

/-! ### The spot of a timer -/

theorem batch_eq (p : Phase) : batch p = fired p ++ due p := by
  cases p with
  | idle | calling | draining => rfl
  | resetting now rest => exact (List.append_nil _).symm

section
variable {s : State} {a : Addr} {t : Timer} {e : TimerEntry}

theorem Waits.congr {s' : State} (hq : queue s' = queue s) (hc : s'.calls = s.calls)
    (h : Waits s' a) : Waits s a := by
  unfold Waits at h ⊢
  rwa [hq, hc] at h

theorem Waits.exists_at (h : Waits s a) :
    (∃ k, At s a (.queued k)) ∨ ∃ c, At s a (.adding c) := by
  rcases h with h | ⟨c, q, hc⟩
  · obtain ⟨k, hk⟩ := List.mem_iff_getElem?.mp h
    exact .inl ⟨k, hk⟩
  · exact .inr ⟨c, q, hc⟩

theorem exists_at_fired (he : e ∈ fired s.phase) :
    ∃ k < (fired s.phase).length, At s e.timer (.expired k) := by
  obtain ⟨k, hk⟩ := List.mem_iff_getElem?.mp he
  have hlt : k < (fired s.phase).length := (List.getElem?_eq_some_iff.mp hk).1
  refine ⟨k, hlt, e, ?_, rfl⟩
  rw [batch_eq, List.getElem?_append_left hlt]
  exact hk

theorem exists_at_due (he : e ∈ due s.phase) :
    ∃ k, (fired s.phase).length ≤ k ∧ At s e.timer (.expired k) := by
  obtain ⟨k, hk⟩ := List.mem_iff_getElem?.mp he
  refine ⟨(fired s.phase).length + k, Nat.le_add_right _ _, e, ?_, rfl⟩
  rw [batch_eq, List.getElem?_append_right (Nat.le_add_right _ _), Nat.add_sub_cancel_left]
  exact hk

variable (h : Inv [] s)
include h

theorem not_waits_of_at {p : Place} (hp : At s a p) (hk : ∀ k, p ≠ .queued k)
    (hc : ∀ c, p ≠ .adding c) : ¬ Waits s a := fun hw => by
  rcases hw.exists_at with ⟨k, hat⟩ | ⟨c, hat⟩
  · exact hk k (place_unique h hp hat)
  · exact hc c (place_unique h hp hat)

theorem Spot.of_waits (hw : Waits s a) : Spot s a t .waiting where
  waits _ := rfl
  stored e he hea := absurd hw (not_waits_of_at h (p := .stored) ⟨e, he, hea⟩ nofun nofun)
  due e he hea := by
    subst hea
    obtain ⟨k, -, hat⟩ := exists_at_due he
    exact absurd hw (not_waits_of_at h hat nofun nofun)
  fired e he hea := by
    subst hea
    obtain ⟨k, -, hat⟩ := exists_at_fired he
    exact absurd hw (not_waits_of_at h hat nofun nofun)

theorem Spot.of_stored (he : e ∈ s.timers) : Spot s e.timer t (.armed e.expiration) where
  waits hw := absurd hw (not_waits_of_at h (p := .stored) ⟨e, he, rfl⟩ nofun nofun)
  stored e' he' hee := by
    obtain ⟨u, hu, -⟩ := h.timers e he
    rw [h.entry_eq he hu, h.entry_eq he' (hee ▸ hu)]
  due e' he' hee := by
    obtain ⟨k, -, hat⟩ := exists_at_due he'
    cases place_unique h (p := .stored) ⟨e, he, hee.symm⟩ hat
  fired e' he' hee := by
    obtain ⟨k, -, hat⟩ := exists_at_fired he'
    cases place_unique h (p := .stored) ⟨e, he, hee.symm⟩ hat

theorem entry_unique {e' : TimerEntry} (he : e ∈ batch s.phase) (he' : e' ∈ batch s.phase)
    (hee : e'.timer = e.timer) : e' = e := by
  obtain ⟨-, hb, -⟩ := h.disjoint
  exact List.inj_on_of_nodup_map hb he' he hee

theorem not_due_of_fired {e' : TimerEntry} (he : e ∈ fired s.phase) (he' : e' ∈ due s.phase) :
    e'.timer ≠ e.timer := fun hee => by
  obtain ⟨k, hlt, hat⟩ := exists_at_fired he
  obtain ⟨k', hle, hat'⟩ := exists_at_due he'
  cases place_unique h hat (hee ▸ hat')
  omega

theorem Spot.of_due (he : e ∈ Service.due s.phase) :
    Spot s e.timer t (.due e.expiration (noticed s e.timer t)) where
  waits hw := by
    obtain ⟨k, -, hat⟩ := exists_at_due he
    exact absurd hw (not_waits_of_at h hat nofun nofun)
  stored e' he' hee := by
    obtain ⟨k, -, hat⟩ := exists_at_due he
    cases place_unique h (p := .stored) ⟨e', he', hee⟩ hat
  due e' he' hee := by
    have hmem : e ∈ batch s.phase := by
      rw [batch_eq]
      exact List.mem_append_right _ he
    have hmem' : e' ∈ batch s.phase := by
      rw [batch_eq]
      exact List.mem_append_right _ he'
    rw [entry_unique h hmem hmem' hee]
  fired e' he' hee := absurd hee.symm (not_due_of_fired h he' he)

theorem Spot.of_fired (he : e ∈ Service.fired s.phase) :
    Spot s e.timer t (.fired (noticed s e.timer t)) where
  waits hw := by
    obtain ⟨k, -, hat⟩ := exists_at_fired he
    exact absurd hw (not_waits_of_at h hat nofun nofun)
  stored e' he' hee := by
    obtain ⟨k, -, hat⟩ := exists_at_fired he
    cases place_unique h (p := .stored) ⟨e', he', hee⟩ hat
  due e' he' hee := absurd hee (not_due_of_fired h he he')
  fired _ _ _ := rfl

/-- A timer waits, or it is stored, due or fired. -/
theorem exists_spot (ha : s.heap a ≠ none) : Waits s a ∨ (∃ e ∈ s.timers, e.timer = a) ∨
    (∃ e ∈ due s.phase, e.timer = a) ∨ ∃ e ∈ fired s.phase, e.timer = a := by
  obtain ⟨p, hp⟩ := exists_place h ha
  cases p with
  | adding c =>
    obtain ⟨q, hc⟩ := hp
    exact .inl (.inr ⟨c, q, hc⟩)
  | queued k => exact .inl (.inl (List.mem_of_getElem? hp))
  | stored => exact .inr (.inl hp)
  | expired k =>
    obtain ⟨e, he, hea⟩ := hp
    have hmem := List.mem_of_getElem? he
    rw [batch_eq] at hmem
    rcases List.mem_append.mp hmem with hf | hd
    · exact .inr (.inr (.inr ⟨e, hf, hea⟩))
    · exact .inr (.inr (.inl ⟨e, hd, hea⟩))

end

/-! ### What is due or fired in the service -/

section
variable {s : State} {σ : AlarmService} (hinv : Inv [] s) (h : Abs s σ)
include hinv h

/-- The alarms of the service that are not out are those of the timers, in the place of these. -/
theorem Abs.place_cases {q : ℕ} (hq : σ.place q ≠ .out) :
    σ.place q = .waiting ∨ (∃ e ∈ s.timers, σ.place q = .armed e.expiration) ∨
      (∃ e ∈ due s.phase, ∃ c, σ.place q = .due e.expiration c) ∨
        ∃ e ∈ fired s.phase, ∃ c, σ.place q = .fired c := by
  have htimer : ∃ a t, s.heap a = some t ∧ t.sequence = q := by
    by_contra hno
    exact hq (h.dead q fun a t ht htq => hno ⟨a, t, ht, htq⟩)
  obtain ⟨a, t, ht, rfl⟩ := htimer
  have hspot := (h.known a t ht).spot
  rcases exists_spot hinv (by rw [ht]; nofun) with hw | ⟨e, he, hea⟩ | ⟨e, he, hea⟩ | ⟨e, he, hea⟩
  · exact .inl (hspot.waits hw)
  · exact .inr (.inl ⟨e, he, hspot.stored e he hea⟩)
  · exact .inr (.inr (.inl ⟨e, he, _, hspot.due e he hea⟩))
  · exact .inr (.inr (.inr ⟨e, he, _, hspot.fired e he hea⟩))

theorem Abs.due_inv {q : ℕ} {d : Timestamp} {cancelled : Bool}
    (hq : σ.place q = .due d cancelled) : ∃ e ∈ due s.phase, e.expiration = d := by
  have hcases := h.place_cases hinv (q := q)
  rw [hq] at hcases
  rcases hcases nofun with hw | ⟨e, -, he⟩ | ⟨e, he, c, hd⟩ | ⟨e, -, c, he⟩
  · cases hw
  · cases he
  · cases hd
    exact ⟨e, he, rfl⟩
  · cases he

theorem Abs.fired_inv {q : ℕ} {cancelled : Bool} (hq : σ.place q = .fired cancelled) :
    fired s.phase ≠ [] := by
  have hcases := h.place_cases hinv (q := q)
  rw [hq] at hcases
  rcases hcases nofun with hw | ⟨e, -, he⟩ | ⟨e, -, c, he⟩ | ⟨e, he, -⟩
  · cases hw
  · cases he
  · cases he
  · exact List.ne_nil_of_mem he

end

/-! ### The actions -/

/-- The step of the service for the timers of the scheduler. -/
abbrev Step := Alarms.Step (K := ℕ) nextDeadline

section
variable {s s' : State} {σ : AlarmService} {timerId : TimerId}

/-- The place an alarm is moved to. -/
theorem move_place_self (σ : AlarmService) (q : ℕ) (p : Alarms.Place Timestamp) :
    (σ.move q p).place q = p := Function.update_self _ _ _

theorem move_place_of_ne (σ : AlarmService) {q k : ℕ} (p : Alarms.Place Timestamp) (hk : k ≠ q) :
    (σ.move q p).place k = σ.place k := Function.update_of_ne hk _ _

/-- A timer is put into another place; its alarm is moved there. -/
theorem Abs.move (h : Abs s σ) (hinv : Inv [] s) {a : Addr} {t : Timer} {p : Alarms.Place Timestamp}
    (ht : s.heap a = some t) (hsame : ∀ b, b ≠ a → Same s s' b)
    (hnew : ∀ t', s'.heap a = some t' → t'.sequence = t.sequence ∧ t'.interval = t.interval ∧
      t'.repeated = t.repeated ∧ Spot s' a t' p ∧
        (Waits s' a → Waits s a ∧ t'.expiration = t.expiration))
    (hdead : s'.heap a = none → p = .out) (hnum : s'.numCreated = s.numCreated)
    (hround : roundOf s'.phase = roundOf s.phase)
    (hsorted : (due s'.phase).Pairwise (·.expiration ≤ ·.expiration)) :
    Abs s' (σ.move t.sequence p) := by
  have hk := h.known a t ht
  refine h.change (a := a) (q := t.sequence) hsame (fun k hne => move_place_of_ne σ p hne)
    (fun k hne => rfl) (fun u hu => ?_) (fun b u hba hu huq => ?_) (fun t' ht' => ?_)
    (fun hnone => ?_) ?_ hnum.ge (h.round.trans hround.symm) hsorted
  · rw [Option.some.inj (hu.symm.trans ht)]
  · exact hba (hinv.seq_inj b a u t hu ht huq)
  · obtain ⟨hseq, hint, hrep, hspot, hwaits⟩ := hnew t' ht'
    refine ⟨hseq, ?_, ?_, ?_, fun hw => ?_⟩
    · rw [hseq, move_place_self]
      exact hspot
    · rw [hrep, hint]
      exact hk.repeated
    · obtain ⟨d, hd⟩ := hk.made
      exact ⟨d, by rw [hseq, hint]; exact hd⟩
    · obtain ⟨hw', hexp⟩ := hwaits hw
      rw [hseq, hint, hexp]
      exact hk.waits hw'
  · rw [move_place_self]
    exact hdead hnone
  · rw [hnum]
    exact hinv.seq_le a t ht

theorem calling_eq (hinv : Inv [] s) : s.callingExpiredTimer =
    match roundOf s.phase with
    | .calling _ => true
    | _ => false := by
  rw [Bool.eq_iff_iff, hinv.calling]
  cases s.phase <;> simp [roundOf]

theorem cancel_due (hinv : Inv [] s) (d : Timestamp) (cancelled : Bool) :
    (Alarms.Place.due d cancelled).cancel (roundOf s.phase) =
      .due d (s.callingExpiredTimer || cancelled) := by
  rw [calling_eq hinv]
  cases roundOf s.phase <;> rfl

theorem cancel_fired (hinv : Inv [] s) (cancelled : Bool) :
    (Alarms.Place.fired (T := Timestamp) cancelled).cancel (roundOf s.phase) =
      .fired (s.callingExpiredTimer || cancelled) := by
  rw [calling_eq hinv]
  cases roundOf s.phase <;> rfl

theorem noticed_noted {t : Timer} (hq : t.sequence = timerId.sequence) :
    noticed (noted timerId s) timerId.timer t =
      (s.callingExpiredTimer || noticed s timerId.timer t) := by
  have hid : (⟨timerId.timer, t.sequence⟩ : ActiveTimerEntry) = timerId := by rw [hq]
  unfold noticed noted
  dsimp only
  rw [hid]
  cases s.callingExpiredTimer <;> simp

/-- **`cancel_timer`** cancels the alarm of the timer its id names, if it names one. -/
theorem cancels_refines (hinv : Inv [] s) (hinv' : Inv [] s') (h : Abs s σ)
    (hc : Cancels timerId s s') :
    ∃ σ', Path Step σ (cancelLabels timerId s) σ' ∧ Abs s' σ' := by
  by_cases hlive : (s.heap timerId.timer).map Timer.sequence = some timerId.sequence
  · obtain ⟨t, ht, hq⟩ := Option.map_eq_some_iff.mp hlive
    have hspot := (h.known _ t ht).spot
    unfold cancelLabels
    rw [if_pos hlive, ← hq]
    refine ⟨_, .single .cancel, ?_⟩
    rcases hc with ⟨u, hu, -, he, rfl⟩ | ⟨hi, rfl⟩
    · cases Option.some.inj (hu.symm.trans ht)
      rw [hspot.stored _ he rfl]
      refine h.move hinv ht (fun b hb => ?_) (fun t' ht' => ?_) (fun _ => rfl) rfl rfl h.sorted
      · exact ⟨Function.update_of_ne hb _ _, id, fun e he _ => (OrdSet.mem_erase.mp he).2,
          fun _ he _ => he, fun _ he _ => he, fun _ _ => rfl⟩
      · cases ht'.symm.trans (Function.update_self _ _ _)
    · refine h.move hinv ht (fun b hb => ?_) (fun t' ht' => ?_) (fun hnone => ?_) rfl rfl h.sorted
      · refine ⟨rfl, id, fun e he _ => he, fun _ he _ => he, fun _ he _ => he, fun u _ => ?_⟩
        unfold noticed noted
        dsimp only
        split_ifs
        · have hne : (⟨b, u.sequence⟩ : ActiveTimerEntry) ≠ timerId := fun heq =>
            hb (congrArg TimerId.timer heq)
          simp [hne]
        · rfl
      · cases Option.some.inj (ht'.symm.trans ht)
        refine ⟨rfl, rfl, rfl, ?_, fun hw => ⟨hw, rfl⟩⟩
        rcases exists_spot hinv (by rw [ht]; nofun) with hw | ⟨e, he, hea⟩ | ⟨e, he, hea⟩ |
          ⟨e, he, hea⟩
        · rw [hspot.waits hw]
          exact .of_waits hinv' hw
        · have hexp := hinv.entry_eq he (hea ▸ ht)
          rw [hea] at hexp
          exact absurd (hinv.active_iff.mpr ⟨t, ht, hq, hexp ▸ he⟩) hi
        · rw [hspot.due e he hea, h.round, cancel_due hinv, ← noticed_noted hq, ← hea]
          exact .of_due hinv' he
        · rw [hspot.fired e he hea, h.round, cancel_fired hinv, ← noticed_noted hq, ← hea]
          exact .of_fired hinv' he
      · cases hnone.symm.trans ht
  · unfold cancelLabels
    rw [if_neg hlive]
    refine ⟨σ, .nil σ, ?_⟩
    rcases hc with ⟨t, ht, hq, -⟩ | ⟨-, rfl⟩
    · exact absurd (by rw [ht, ← hq]; rfl) hlive
    · refine h.same (fun b => ?_) rfl rfl le_rfl h.round h.sorted
      refine ⟨rfl, id, fun e he _ => he, fun _ he _ => he, fun _ he _ => he, fun u hu => ?_⟩
      unfold noticed noted
      dsimp only
      split_ifs
      · have hne : (⟨b, u.sequence⟩ : ActiveTimerEntry) ≠ timerId := by
          rintro rfl
          exact hlive (by rw [hu]; rfl)
        simp [hne]
      · rfl

/-- **`new Timer`** makes an alarm. -/
theorem Abs.make (h : Abs s σ) (hinv : Inv [] s) {a : Addr} {request : Request}
    (ha : s.heap a = none) (hsame : ∀ b, b ≠ a → Same s s' b)
    {σ' : AlarmService} {t : Timer}
    (ht : t = Timer.new request.when request.interval (s.numCreated + 1))
    (hheap : s'.heap a = some t) (hnum : s'.numCreated = s.numCreated + 1)
    (hphase : s'.phase = s.phase)
    (hround : σ'.round = σ.round) (hmade : σ'.made = Function.update σ.made (s.numCreated + 1)
      (some (request.when, request.interval)))
    (hplace : ∀ k, k ≠ s.numCreated + 1 → σ'.place k = σ.place k)
    (hspot : Spot s' a t (σ'.place (s.numCreated + 1))) : Abs s' σ' := by
  refine h.change (a := a) (q := s.numCreated + 1) hsame hplace (fun k hne => ?_) (fun u hu => ?_)
    (fun b u _ hu => ?_) (fun t' ht' => ?_) (fun hnone => ?_) hnum.ge (by omega) ?_ ?_
  · rw [hmade, Function.update_of_ne hne]
  · cases hu.symm.trans ha
  · have := hinv.seq_le b u hu
    omega
  · cases Option.some.inj (ht'.symm.trans hheap)
    subst ht
    have hself : σ'.made (s.numCreated + 1) = some (request.when, request.interval) := by
      rw [hmade, Function.update_self]
    exact ⟨rfl, hspot, rfl, ⟨_, hself⟩, fun _ => hself⟩
  · cases hnone.symm.trans hheap
  · rw [hround, hphase]
    exact h.round
  · rw [hphase]
    exact h.sorted

theorem addTimer_refines (hinv : Inv [] s) (hinv' : Inv [] s') (h : Abs s σ) {request : Request}
    {clock : Timestamp} (he : Effect s s' (.addTimer timerId request clock)) :
    ∃ σ', Path Step σ (labels s (.addTimer timerId request clock)) σ' ∧ Abs s' σ' := by
  obtain ⟨-, hq, hfree, rfl⟩ := he
  have hfresh := h.fresh (s.numCreated + 1) (Nat.lt_succ_self _)
  have hmake : Step σ (.make (s.numCreated + 1) request.when request.interval)
      (σ.make (s.numCreated + 1) request.when request.interval) := .make hfresh
  have harm : Step (σ.make (s.numCreated + 1) request.when request.interval)
      (.arm timerId.sequence)
      ((σ.make (s.numCreated + 1) request.when request.interval).move (s.numCreated + 1)
        (.armed request.when)) := by
    rw [hq]
    exact .arm (Function.update_self _ _ _) (Function.update_self _ _ _)
  refine ⟨_, .snoc (.single hmake) harm, ?_⟩
  refine h.make hinv hfree (fun b hb => ?_) rfl (Function.update_self _ _ _) rfl rfl rfl rfl
    (fun k hk => ?_) ?_
  · refine ⟨Function.update_of_ne hb _ _, id, fun e he hea => ?_, fun _ he _ => he,
      fun _ he _ => he, fun _ _ => rfl⟩
    rcases OrdSet.mem_insert.mp he with rfl | he
    · exact absurd hea.symm hb
    · exact he
  · rw [move_place_of_ne _ _ hk]
    exact Function.update_of_ne hk _ _
  · rw [move_place_self]
    exact .of_stored hinv' (e := ⟨request.when, timerId.timer⟩) (OrdSet.mem_insert.mpr (.inl rfl))

theorem clientNew_refines (hinv : Inv [] s) (hinv' : Inv [] s') (h : Abs s σ) {c : ℕ} {a : Addr}
    {request : Request} (he : Effect s s' (.clientNew c a request)) :
    ∃ σ', Path Step σ (labels s (.clientNew c a request)) σ' ∧ Abs s' σ' := by
  obtain ⟨hc, hfree, rfl⟩ := he
  refine ⟨_, .single (.make (h.fresh (s.numCreated + 1) (Nat.lt_succ_self _))), ?_⟩
  refine h.make hinv hfree (fun b hb => ?_) rfl (Function.update_self _ _ _) rfl rfl rfl rfl
    (fun k hk => Function.update_of_ne hk _ _) ?_
  · refine ⟨Function.update_of_ne hb _ _, ?_, fun _ he _ => he, fun _ he _ => he, fun _ he _ => he,
      fun _ _ => rfl⟩
    rintro (hw | ⟨c', q, hc'⟩)
    · exact .inl hw
    · refine .inr ⟨c', q, ?_⟩
      change Function.update s.calls c _ c' = _ at hc'
      rcases eq_or_ne c' c with rfl | hne
      · rw [Function.update_self] at hc'
        cases hc'
        exact absurd rfl hb
      · rwa [Function.update_of_ne hne] at hc'
  · show Spot _ _ _ (Function.update σ.place _ _ _)
    rw [Function.update_self]
    exact .of_waits hinv' (.inr ⟨c, _, Function.update_self _ _ _⟩)

/-- **`handle_event`** begins a round. -/
theorem handleEvent_refines (hinv : Inv [] s) (h : Abs s σ) {now : Timestamp}
    (he : Effect s s' (.handleEvent now)) :
    ∃ σ', Path Step σ (labels s (.handleEvent now)) σ' ∧ Abs s' σ' := by
  obtain ⟨hphase, rfl⟩ := he
  have hrest : σ.round = .rest := by
    rw [h.round, hphase]
    rfl
  refine ⟨_, .single (.dispatch hrest), ?_⟩
  have hinv' : Inv [] (dispatched now s) := inv_dispatched hinv hphase
  refine ⟨fun a t ht => ?_, fun q hq => ?_, h.fresh, rfl, ?_⟩
  · have hk := h.known a t ht
    have hwaits : Waits (dispatched now s) a → Waits s a :=
      Waits.congr (by unfold queue; rw [hphase]; rfl) rfl
    refine ⟨?_, hk.repeated, hk.made, fun hw => hk.waits (hwaits hw)⟩
    show Spot _ a t ((σ.place t.sequence).dispatch now)
    rcases exists_spot hinv' (by rw [ht]; nofun) with hw | ⟨e, he, rfl⟩ |
      ⟨e, he, rfl⟩ | ⟨e, he, rfl⟩
    · rw [hk.spot.waits (hwaits hw)]
      exact .of_waits hinv' hw
    · obtain ⟨hes, hlt⟩ := (mem_unexpiredAt hinv).mp he
      rw [hk.spot.stored e hes rfl]
      show Spot _ _ _ (if e.expiration ≤ now then _ else _)
      rw [if_neg (not_le.mpr hlt)]
      exact .of_stored hinv' he
    · obtain ⟨hes, hle⟩ := (mem_expiredAt hinv).mp he
      rw [hk.spot.stored e hes rfl]
      show Spot _ _ _ (if e.expiration ≤ now then _ else _)
      rw [if_pos hle]
      exact .of_due hinv' he
    · exact absurd he List.not_mem_nil
  · show (σ.place q).dispatch now = .out
    rw [h.dead q hq]
    rfl
  · refine (OrdSet.below_sorted _ _).imp fun hlt => ?_
    rcases TimerEntry.lt_iff.mp hlt with hlt | ⟨heq, -⟩
    · exact hlt.le
    · exact heq.le

/-- **A callback** is called: the alarm that is due first is fired. -/
theorem run_refines (hinv : Inv [] s) (hinv' : Inv [] s') (h : Abs s σ) (he : Effect s s' .run) :
    ∃ σ', Path Step σ (labels s .run) σ' ∧ Abs s' σ' := by
  obtain ⟨now, called, e, rest, t, hphase, ht, rfl⟩ := he
  have hdue : e ∈ due s.phase := by
    rw [hphase]
    exact List.mem_cons_self
  have hsorted : ((e :: rest).Pairwise (·.expiration ≤ ·.expiration)) := by
    have := h.sorted
    rwa [hphase] at this
  have hround : σ.round = .calling now := by
    rw [h.round, hphase]
    rfl
  have hfirst : ∀ k d c, σ.place k = .due d c → e.expiration ≤ d := fun k d c hk => by
    obtain ⟨e', he', rfl⟩ := h.due_inv hinv hk
    rw [hphase] at he'
    rcases List.mem_cons.mp he' with rfl | he'
    · exact le_rfl
    · exact List.rel_of_pairwise_cons hsorted he'
  unfold labels
  simp only [hphase]
  rw [sequenceAt_eq ht]
  refine ⟨_, .single (.fire hround ((h.known _ t ht).spot.due e hdue rfl) hfirst), ?_⟩
  have hfired : e ∈ fired (.calling now (called ++ [e]) rest true) :=
    List.mem_append_right _ (List.mem_singleton_self e)
  refine h.move hinv ht (fun b hb => ?_) (fun t' ht' => ?_) (fun hnone => ?_) rfl ?_ ?_
  · refine ⟨rfl, Waits.congr (by unfold queue; rw [hphase]; rfl) rfl, fun _ he _ => he,
      fun e' he' _ => ?_, fun e' he' hea => ?_, fun _ _ => rfl⟩
    · rw [hphase]
      exact List.mem_cons_of_mem _ he'
    · rw [hphase]
      rcases List.mem_append.mp he' with he' | he'
      · exact he'
      · cases List.mem_singleton.mp he'
        exact absurd hea.symm hb
  · cases Option.some.inj (ht'.symm.trans ht)
    refine ⟨rfl, rfl, rfl, .of_fired hinv' hfired, fun hw => ?_⟩
    obtain ⟨k, -, hat⟩ := exists_at_fired (s := { s with
      phase := .calling now (called ++ [e]) rest true
      invoked := s.invoked ++ [⟨e, t.sequence, t.repeated⟩] }) hfired
    exact absurd hw (not_waits_of_at hinv' hat nofun nofun)
  · cases hnone.symm.trans ht
  · rw [hphase]
    rfl
  · exact hsorted.of_cons

theorem callsDone_refines (hinv : Inv [] s) (h : Abs s σ) (he : Effect s s' .callsDone) :
    ∃ σ', Path Step σ (labels s .callsDone) σ' ∧ Abs s' σ' := by
  obtain ⟨now, called, hphase, rfl⟩ := he
  have hround : σ.round = .calling now := by
    rw [h.round, hphase]
    rfl
  refine ⟨_, .single (.finish hround fun k d c hk => ?_), ?_⟩
  · obtain ⟨e, he, -⟩ := h.due_inv hinv hk
    rw [hphase] at he
    exact List.not_mem_nil he
  · refine h.same (fun b => ?_) rfl rfl le_rfl rfl .nil
    refine ⟨rfl, Waits.congr (by unfold queue; rw [hphase]; rfl) rfl, fun _ he _ => he,
      fun e he _ => absurd he List.not_mem_nil, fun e he _ => ?_, fun _ _ => rfl⟩
    rwa [hphase]

/-- What becomes of an alarm after the round. -/
theorem settle_eq {t : Timer} (hrep : t.repeated = decide (0 < t.interval)) (cancelled : Bool)
    (now : Timestamp) : (Alarms.Place.fired cancelled).settle (nextDeadline t.interval now) =
      if t.repeated = true ∧ cancelled = false then .armed (t.restart now).expiration
      else .out := by
  unfold nextDeadline Timer.restart
  cases cancelled with
  | true => exact (if_neg fun hc => absurd hc.2 Bool.true_eq_false.mp).symm
  | false =>
    by_cases hpos : 0 < t.interval
    · simp [hrep, hpos, Alarms.Place.settle]
    · simp [hrep, hpos, Alarms.Place.settle]

/-- **One round of `reset`** settles one alarm. -/
theorem resetEntry_refines (hinv : Inv [] s) (hinv' : Inv [] s') (h : Abs s σ) {clock : Timestamp}
    (he : Effect s s' (.resetEntry clock)) :
    ∃ σ', Path Step σ (labels s (.resetEntry clock)) σ' ∧ Abs s' σ' := by
  obtain ⟨now, e, rest, hphase, t, ht, hcase⟩ := he
  have hround : σ.round = .settling now := by
    rw [h.round, hphase]
    rfl
  have hfired : e ∈ fired s.phase := by
    rw [hphase]
    exact List.mem_cons_self
  have hk := h.known _ t ht
  obtain ⟨d, hd⟩ := hk.made
  unfold labels
  simp only [hphase]
  rw [sequenceAt_eq ht]
  refine ⟨_, .single (.settle hround (hk.spot.fired e hfired rfl) hd), ?_⟩
  have hsame : ∀ {u : State}, u.calls = s.calls → queue u = queue s →
      u.phase = .resetting now rest → u.cancelingTimers = s.cancelingTimers →
      (∀ b, b ≠ e.timer → u.heap b = s.heap b) →
      (∀ e' ∈ u.timers, e'.timer ≠ e.timer → e' ∈ s.timers) →
      ∀ b, b ≠ e.timer → Same s u b := by
    intro u hcalls hqueue hu hcanc hheap htimers b hb
    refine ⟨hheap b hb, Waits.congr hqueue hcalls, fun e' he' hea => htimers e' he' (hea ▸ hb),
      fun e' he' _ => ?_, fun e' he' _ => ?_, fun t' _ => ?_⟩
    · rw [hu] at he'
      exact absurd he' List.not_mem_nil
    · rw [hu] at he'
      rw [hphase]
      exact List.mem_cons_of_mem _ he'
    · unfold noticed
      rw [hcanc]
  have hqueue : ∀ {u : State}, u.pendingFunctors = s.pendingFunctors →
      u.phase = .resetting now rest → queue u = queue s := by
    intro u hpend hu
    unfold queue
    rw [hpend, hu, hphase]
    rfl
  rw [settle_eq hk.repeated]
  rcases hcase with ⟨hrep, hno, rfl⟩ | ⟨hno, rfl⟩
  · have hnot : noticed s e.timer t = false := decide_eq_false hno
    rw [if_pos ⟨hrep, hnot⟩]
    refine h.move hinv ht (hsame rfl (hqueue rfl rfl) rfl rfl (fun b hb => ?_) fun e' he' hne => ?_)
      (fun t' ht' => ?_) (fun hnone => ?_) rfl ?_ .nil
    · exact Function.update_of_ne hb _ _
    · rcases OrdSet.mem_insert.mp he' with rfl | he'
      · exact absurd rfl hne
      · exact he'
    · cases Option.some.inj (ht'.symm.trans (Function.update_self _ _ _))
      have hstored := Spot.of_stored hinv' (t := t.restart now)
        (e := ⟨(t.restart now).expiration, e.timer⟩) (OrdSet.mem_insert.mpr (.inl rfl))
      rw [Timer.restart_of_repeated hrep] at hstored ⊢
      refine ⟨rfl, rfl, rfl, hstored, fun hw => ?_⟩
      exact absurd (hstored.waits hw) nofun
    · cases hnone.symm.trans (Function.update_self _ _ _)
    · rw [hphase]
      rfl
  · have hcond : ¬ (t.repeated = true ∧ noticed s e.timer t = false) := fun hc =>
      hno ⟨hc.1, of_decide_eq_false hc.2⟩
    rw [if_neg hcond]
    refine h.move hinv ht (hsame rfl (hqueue rfl rfl) rfl rfl (fun b hb => ?_) fun e' he' _ => he')
      (fun t' ht' => ?_) (fun _ => rfl) rfl ?_ .nil
    · exact Function.update_of_ne hb _ _
    · cases ht'.symm.trans (Function.update_self _ _ _)
    · rw [hphase]
      rfl

theorem resetDone_refines (hinv : Inv [] s) (h : Abs s σ) {clock : Timestamp}
    (he : Effect s s' (.resetDone clock)) :
    ∃ σ', Path Step σ (labels s (.resetDone clock)) σ' ∧ Abs s' σ' := by
  obtain ⟨now, hphase, hcase⟩ := he
  have hround : σ.round = .settling now := by
    rw [h.round, hphase]
    rfl
  refine ⟨_, .single (.done hround fun k c hk => h.fired_inv hinv hk (by rw [hphase]; rfl)), ?_⟩
  have hidle : Abs { s with phase := .idle } { σ with round := .rest } := by
    refine h.same (fun b => ?_) rfl rfl le_rfl rfl .nil
    exact ⟨rfl, Waits.congr (by unfold queue; rw [hphase]; rfl) rfl, fun _ he _ => he,
      fun e he _ => absurd he List.not_mem_nil, fun e he _ => absurd he List.not_mem_nil,
      fun _ _ => rfl⟩
  rcases hcase with ⟨e, -, -, rfl⟩ | ⟨-, rfl⟩
  · exact hidle.same (fun b => ⟨rfl, id, fun _ he _ => he, fun _ he _ => he, fun _ he _ => he,
      fun _ _ => rfl⟩) rfl rfl le_rfl rfl .nil
  · exact hidle

/-- **A queued call** is executed. -/
theorem runFunctor_refines (hinv : Inv [] s) (hinv' : Inv [] s') (h : Abs s σ) {clock : Timestamp}
    (he : Effect s s' (.runFunctor clock)) :
    ∃ σ', Path Step σ (labels s (.runFunctor clock)) σ' ∧ Abs s' σ' := by
  obtain ⟨f, fs, hphase, hcase⟩ := he
  have hqueue : queue s = f :: (fs ++ s.pendingFunctors) := by
    unfold queue
    rw [hphase]
    rfl
  have hwaits : ∀ b, .insert b ∈ fs ++ s.pendingFunctors ∨ (∃ c q, s.calls c = .created b q) →
      Waits s b := by
    rintro b (hw | hw)
    · refine .inl ?_
      rw [hqueue]
      exact List.mem_cons_of_mem _ hw
    · exact .inr hw
  have hround : roundOf (.draining fs) = roundOf s.phase := by
    rw [hphase]
    rfl
  unfold labels
  simp only [hphase]
  cases f with
  | insert a =>
    obtain ⟨t, ht, rfl⟩ := hcase
    have ht' : s.heap a = some t := ht
    have hk := h.known a t ht'
    have hw : Waits s a := .inl (by rw [hqueue]; exact List.mem_cons_self)
    dsimp only
    rw [sequenceAt_eq ht']
    refine ⟨_, .single (.arm (hk.spot.waits hw) (hk.waits hw)), ?_⟩
    refine h.move hinv ht' (fun b hb => ?_) (fun u hu => ?_) (fun hnone => ?_) rfl hround .nil
    · refine ⟨rfl, hwaits b, fun e he hea => ?_,
        fun e he _ => absurd he List.not_mem_nil, fun e he _ => absurd he List.not_mem_nil,
        fun _ _ => rfl⟩
      rcases OrdSet.mem_insert.mp he with rfl | he
      · exact absurd hea.symm hb
      · exact he
    · cases Option.some.inj (hu.symm.trans ht')
      have hstored := Spot.of_stored hinv' (t := t) (e := ⟨t.expiration, a⟩)
        (OrdSet.mem_insert.mpr (.inl rfl))
      exact ⟨rfl, rfl, rfl, hstored, fun hw => absurd (hstored.waits hw) nofun⟩
    · cases hnone.symm.trans ht'
  | cancelTimer timerId =>
    have hpopped : Abs { s with phase := .draining fs, executed := s.executed + 1 } σ := by
      refine h.same (fun b => ?_) rfl rfl le_rfl (h.round.trans hround.symm) .nil
      exact ⟨rfl, hwaits b, fun _ he _ => he,
        fun e he _ => absurd he List.not_mem_nil, fun e he _ => absurd he List.not_mem_nil,
        fun _ _ => rfl⟩
    have hinv₁ : Inv [] { s with phase := .draining fs, executed := s.executed + 1 } :=
      Inv.popped hinv hphase
    obtain ⟨σ', hpath, h'⟩ := cancels_refines hinv₁ hinv' hpopped hcase
    exact ⟨σ', hpath, h'⟩

/-- The service does not see an action of the phase or of the queue of functors. -/
theorem Abs.silent (h : Abs s σ) (hheap : s'.heap = s.heap) (hwaits : ∀ b, Waits s' b → Waits s b)
    (htimers : s'.timers = s.timers) (hcanc : s'.cancelingTimers = s.cancelingTimers)
    (hdue : due s'.phase = due s.phase) (hfired : fired s'.phase = fired s.phase)
    (hround : roundOf s'.phase = roundOf s.phase) (hnum : s.numCreated ≤ s'.numCreated) :
    Abs s' σ := by
  refine h.same (fun b => ⟨by rw [hheap], hwaits b, fun e he _ => htimers ▸ he,
    fun e he _ => hdue ▸ he, fun e he _ => hfired ▸ he, fun t _ => ?_⟩) rfl rfl hnum
    (h.round.trans hround.symm) (hdue ▸ h.sorted)
  unfold noticed
  rw [hcanc]

/-- **What an action does is what its labels do.** -/
theorem effect_refines (hinv : Inv [] s) (hinv' : Inv [] s') (h : Abs s σ) {a : Act}
    (he : Effect s s' a) : ∃ σ', Path Step σ (labels s a) σ' ∧ Abs s' σ' := by
  cases a with
  | addTimer timerId request clock => exact addTimer_refines hinv hinv' h he
  | cancel timerId => exact cancels_refines hinv hinv' h he.2
  | handleEvent now => exact handleEvent_refines hinv h he
  | run => exact run_refines hinv hinv' h he
  | callsDone => exact callsDone_refines hinv h he
  | resetEntry clock => exact resetEntry_refines hinv hinv' h he
  | resetDone clock => exact resetDone_refines hinv h he
  | runFunctor clock => exact runFunctor_refines hinv hinv' h he
  | clientNew c a request => exact clientNew_refines hinv hinv' h he
  | runDone =>
    obtain ⟨now, called, rest, hphase, rfl⟩ := he
    refine ⟨σ, .nil σ, h.silent rfl (fun b => Waits.congr ?_ rfl) rfl rfl ?_ ?_ ?_ le_rfl⟩
    · unfold queue
      rw [hphase]
      rfl
    all_goals rw [hphase]; rfl
  | swapFunctors =>
    obtain ⟨hphase, rfl⟩ := he
    refine ⟨σ, .nil σ, h.silent rfl (fun b => Waits.congr ?_ rfl) rfl rfl ?_ ?_ ?_ le_rfl⟩
    · unfold queue
      rw [hphase]
      exact List.append_nil _
    all_goals rw [hphase]; rfl
  | functorsDone =>
    obtain ⟨hphase, rfl⟩ := he
    refine ⟨σ, .nil σ, h.silent rfl (fun b => Waits.congr ?_ rfl) rfl rfl ?_ ?_ ?_ le_rfl⟩
    · unfold queue
      rw [hphase]
      rfl
    all_goals rw [hphase]; rfl
  | clientPush c =>
    obtain ⟨a, q, hc, rfl⟩ := he
    refine ⟨σ, .nil σ, h.silent rfl ?_ rfl rfl rfl rfl rfl le_rfl⟩
    rintro b (hw | ⟨c', q', hc'⟩)
    · unfold queue pushFunctor at hw
      dsimp only at hw
      rw [← List.append_assoc] at hw
      rcases List.mem_append.mp hw with hw | hw
      · exact .inl hw
      · cases List.mem_singleton.mp hw
        exact .inr ⟨c, q, hc⟩
    · change Function.update s.calls c _ c' = _ at hc'
      rcases eq_or_ne c' c with rfl | hne
      · rw [Function.update_self] at hc'
        cases hc'
      · rw [Function.update_of_ne hne] at hc'
        exact .inr ⟨c', q', hc'⟩
  | clientReturn c timerId =>
    obtain ⟨q, hc, -, rfl⟩ := he
    refine ⟨σ, .nil σ, h.silent rfl ?_ rfl rfl rfl rfl rfl le_rfl⟩
    rintro b (hw | ⟨c', q', hc'⟩)
    · exact .inl hw
    · change Function.update s.calls c _ c' = _ at hc'
      rcases eq_or_ne c' c with rfl | hne
      · rw [Function.update_self] at hc'
        cases hc'
      · rw [Function.update_of_ne hne] at hc'
        exact .inr ⟨c', q', hc'⟩
  | clientCancel c timerId =>
    obtain ⟨-, rfl⟩ := he
    refine ⟨σ, .nil σ, h.silent rfl ?_ rfl rfl rfl rfl rfl le_rfl⟩
    rintro b (hw | hw)
    · unfold queue pushFunctor at hw
      dsimp only at hw
      rw [← List.append_assoc] at hw
      rcases List.mem_append.mp hw with hw | hw
      · exact .inl hw
      · cases List.mem_singleton.mp hw
    · exact .inr hw
  | expire clock =>
    obtain ⟨d, -, -, rfl⟩ := he
    exact ⟨σ, .nil σ, h.silent rfl (fun _ hw => hw) rfl rfl rfl rfl rfl le_rfl⟩
  | otherNew =>
    subst he
    exact ⟨σ, .nil σ, h.silent rfl (fun _ hw => hw) rfl rfl rfl rfl rfl (Nat.le_succ _)⟩

end

/-! ### The runs -/

theorem path_of_run {l : List Act} {s s' : State} {σ : AlarmService} (hinv : Inv [] s)
    (h : Abs s σ) (hr : Run exec s l s') :
    ∃ σ', Path Step σ (trace exec labels s l) σ' ∧ Inv [] s' ∧ Abs s' σ' :=
  hr.refinement (R := fun s σ => Inv [] s ∧ Abs s σ)
    (fun s a s' σ ⟨hinv, h⟩ ha => by
      obtain ⟨heff, hinv'⟩ := exec_effect hinv ha
      obtain ⟨σ', hpath, h'⟩ := effect_refines hinv hinv' h heff
      exact ⟨σ', hpath, hinv', h'⟩)
    ⟨hinv, h⟩

theorem run_path {l : List Act} {s : State} (hr : Run exec initial l s) :
    ∃ σ, Path Step Alarms.initial (trace exec labels initial l) σ ∧ Inv [] s ∧ Abs s σ :=
  path_of_run inv_initial abs_initial hr

/-- **The scheduler refines the service of alarms**: the trace of every run is one of its paths, to
a state that the scheduler's stands for. -/
theorem refines_alarms {l : List Act} {s : State} (hr : Run exec initial l s) :
    ∃ σ, Path Step Alarms.initial (trace exec labels initial l) σ ∧ Abs s σ := by
  obtain ⟨σ, hpath, -, h⟩ := run_path hr
  exact ⟨σ, hpath, h⟩

theorem refines_alarms_reuse : ∃ σ,
    Path Step Alarms.initial (trace exec labels initial reuse) σ ∧
      Abs (after exec initial reuse) σ :=
  refines_alarms (run_after (l := reuse) rfl)

/-- **The callback of a timer keeps its pace**: it is called for the first time not before `when`,
and after it has been called in a dispatch at `now` not before the deadline that `add_time` computes
from `now` and the interval; it is called once if the interval is not positive. -/
theorem timers_keep_pace {l : List Act} {s : State} (hr : Run exec initial l s) {q : ℕ}
    {when : Timestamp} {interval : ℚ} (hq : .make q when interval ∈ trace exec labels initial l) :
    Alarms.Paced (nextDeadline interval) (some when)
      (Alarms.firings q (trace exec labels initial l)) := by
  obtain ⟨σ, hpath, -⟩ := run_path hr
  exact Alarms.paced_of_path hpath hq

/-- A timer of one second, in two dispatches, the first of them late. -/
def twice : List Act :=
  [.addTimer ⟨16, 1⟩ (.runEvery 1000 1) 1000, .handleEvent 1500000, .run, .runDone, .callsDone,
    .resetEntry 1500000, .resetDone 1500000, .handleEvent 2500000, .run]

theorem timers_keep_pace_twice :
    Alarms.Paced (nextDeadline 1) (some (Timestamp.addTime 1000 1))
      (Alarms.firings 1 (trace exec labels initial twice)) :=
  timers_keep_pace (run_after (l := twice) (by decide +kernel))
    (List.mem_append_left _ List.mem_cons_self)

/-- The alarm of a timer in the store is armed. -/
theorem Abs.armed {s : State} {σ : AlarmService} (h : Abs s σ) (hinv : Inv [] s) {e : TimerEntry}
    (he : e ∈ s.timers) : σ.place (sequenceAt s.heap e.timer) = .armed e.expiration ∧
      σ.made (sequenceAt s.heap e.timer) ≠ none := by
  obtain ⟨t, ht, -⟩ := hinv.timers e he
  have hknown := h.known e.timer t ht
  obtain ⟨d, hmade⟩ := hknown.made
  rw [sequenceAt_eq ht, hmade]
  exact ⟨hknown.spot.stored e he rfl, nofun⟩

/-- **Callbacks are called in the order of the expirations**: of two timers in the store the one
that expires first is called first, in whatever dispatches, unless it is cancelled before the other
one is called. -/
theorem called_in_order {l l' : List Act} {s t u : State} (hr : Run exec initial l s)
    (hr' : Run exec s l' t) {e e' : TimerEntry} (he : e ∈ s.timers) (he' : e' ∈ s.timers)
    (hlt : e.expiration < e'.expiration) (hrun : Run exec t [.run] u) {now : Timestamp}
    (hfire : labels t .run = [.fire (sequenceAt s.heap e'.timer) now]) :
    (∃ now', .fire (sequenceAt s.heap e.timer) now' ∈ trace exec labels s l') ∨
      .cancel (sequenceAt s.heap e.timer) ∈ trace exec labels s l' := by
  obtain ⟨σ, -, hinv, h⟩ := run_path hr
  obtain ⟨τ, hpath, hinv', h'⟩ := path_of_run hinv h hr'
  obtain ⟨υ, hlast, -⟩ := path_of_run hinv' h' hrun
  rw [show trace exec labels t [.run] = [_] from (List.append_nil _).trans hfire] at hlast
  obtain ⟨hplace, hmade⟩ := h.armed hinv he
  obtain ⟨hplace', hmade'⟩ := h.armed hinv he'
  exact Alarms.fired_in_order hlt ⟨hmade, hmade', .inl hplace, .inr (.inl hplace')⟩ hpath
    hlast.of_single

/-- Two timers, the later one added first. -/
def laterFirst : List Act :=
  [.addTimer ⟨16, 1⟩ (.runAt 3000000) 1000, .addTimer ⟨32, 2⟩ (.runAt 2000000) 1000]

theorem called_in_order_laterFirst :
    let s := after exec initial laterFirst
    (∃ now', .fire (sequenceAt s.heap 32) now' ∈
      trace exec labels s [.handleEvent 3500000, .run, .runDone]) ∨
      .cancel (sequenceAt s.heap 32) ∈
        trace exec labels s [.handleEvent 3500000, .run, .runDone] := by
  have h₁ : Run exec initial laterFirst (after exec initial laterFirst) :=
    run_after (by decide +kernel)
  have h₂ : Run exec (after exec initial laterFirst) [.handleEvent 3500000, .run, .runDone] _ :=
    run_after (by decide +kernel)
  have hrun : Run exec (after exec (after exec initial laterFirst)
      [.handleEvent 3500000, .run, .runDone]) [.run] _ := run_after (by decide +kernel)
  have he : (⟨2000000, 32⟩ : TimerEntry) ∈ (after exec initial laterFirst).timers := by
    decide +kernel
  have he' : (⟨3000000, 16⟩ : TimerEntry) ∈ (after exec initial laterFirst).timers := by
    decide +kernel
  have hfire : labels (after exec (after exec initial laterFirst)
      [.handleEvent 3500000, .run, .runDone]) .run =
        [.fire (sequenceAt (after exec initial laterFirst).heap 16) 3500000] := by decide +kernel
  exact called_in_order h₁ h₂ he he' (by decide) hrun hfire

end ToolsCxx.TimerScheduler.Service
