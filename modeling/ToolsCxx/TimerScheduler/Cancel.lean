import ToolsCxx.TimerScheduler.Spent

/-! # `TimerScheduler`: what a cancel achieves

An id that was returned for the timer of sequence `q` `Names` it. After `cancel_timer` has been
executed with it the timer is doomed (`cancels_doomed`), unless its insertion was still queued: then
the cancel finds nothing and the insertion follows. That does not keep the callback from being
started by the dispatch that is under way, which runs the whole batch.

* `cancel_effective`: on the scheduler's thread a cancelled timer is never started again if and only
  if it is not in the rest of the batch; `not_cancel_effective` is the other case.
* `cancel_not_overtaken`: across threads a cancelled timer is never seen again once the dispatch has
  ended, if its insertion is not queued or the cancel is queued too; `cancel_overtaken` is the other
  case. -/

namespace ToolsCxx.TimerScheduler.Cancel

open ToolsCxx.Base ToolsCxx.Lib.Machine ToolsCxx.Lib.OrderedSet
open ToolsCxx.TimerScheduler.Model ToolsCxx.TimerScheduler.Ownership
open ToolsCxx.TimerScheduler.Effects ToolsCxx.TimerScheduler.Frames
open ToolsCxx.TimerScheduler.Spent

/-! ### The ids -/

/-- The timer of sequence `q` is one that was created, is at the address `a` if it is anywhere, and
is not in an `add_timer` call any more. -/
def Issued (s : State) (a : Addr) (q : ℕ) : Prop :=
  q ≤ s.numCreated ∧ (∀ b t, s.heap b = some t → t.sequence = q → b = a) ∧
    ∀ c b, s.calls c ≠ .created b q

/-- What holds of an id returned for the timer of sequence `q`: it names that timer. The sequence in
it is the right one unless the timer has been deleted. -/
def Names (s : State) (timerId : TimerId) (q : ℕ) : Prop :=
  Issued s timerId.timer q ∧
    ∀ t, s.heap timerId.timer = some t → t.sequence = q → timerId.sequence = q

/-- The ids that were returned, and those still to be returned. -/
structure Ids (s : State) : Prop where
  returned : ∀ p ∈ s.returned, Names s p.1 p.2
  pushed : ∀ c a q, s.calls c = .pushed a q → Issued s a q

theorem ids_initial : Ids initial where
  returned p hp := absurd hp List.not_mem_nil
  pushed c a q hc := by cases hc

section
variable {s s' : State} {a : Act} {b : Addr} {q : ℕ} {timerId : TimerId}

theorem Issued.step (hi : Issued s b q) (he : Effect s s' a) : Issued s' b q := by
  obtain ⟨hq, hb, hc⟩ := hi
  obtain ⟨hn, hk⟩ := effect_keeps he
  refine ⟨hq.trans hn, fun b' t' ht' htq => ?_, fun c b' hc' => ?_⟩
  · rcases hk b' t' ht' with hlt | ⟨t, ht, hseq, -⟩
    · omega
    · exact hb b' t ht (hseq.trans htq)
  · rcases effect_created he hc' with h | h
    · exact hc c b' h
    · omega

theorem Names.step (hn : Names s timerId q) (he : Effect s s' a) : Names s' timerId q := by
  refine ⟨hn.1.step he, fun t' ht' htq => ?_⟩
  rcases (effect_keeps he).2 _ t' ht' with hlt | ⟨t, ht, hseq, -⟩
  · have := hn.1.1; omega
  · exact hn.2 t ht (hseq.trans htq)

theorem Issued.of_live (h : Inv [] s) {t : Timer} (ht : s.heap b = some t) (hq : t.sequence = q)
    (hc : ∀ c b', s.calls c ≠ .created b' q) : Issued s b q :=
  ⟨hq ▸ h.seq_le b t ht, fun b' u hu huq => h.seq_inj b' b u t hu ht (huq.trans hq.symm), hc⟩

/-- What an action does to the ids: `addTimer` and `clientReturn` return one, `clientPush` starts
to. -/
theorem Ids.step (hi : Ids s) (h : Inv [] s) (he : Effect s s' a) (h' : Inv [] s') : Ids s' := by
  have hret : ∀ p ∈ s.returned, Names s' p.1 p.2 := fun p hp => (hi.returned p hp).step he
  have hpush : ∀ c b q, s.calls c = .pushed b q → Issued s' b q :=
    fun c b q hc => (hi.pushed c b q hc).step he
  have hcalls : ∀ {c c' call b q}, Function.update s.calls c' call c = .pushed b q →
      (c = c' ∧ call = .pushed b q) ∨ s.calls c = .pushed b q := by
    intro c c' call b q hc
    by_cases hcc : c = c'
    · subst hcc
      exact Or.inl ⟨rfl, (Function.update_self c _ s.calls).symm.trans hc⟩
    · exact Or.inr ((Function.update_of_ne hcc _ s.calls).symm.trans hc)
  by_cases hf : foreign a = false
  · obtain ⟨hlocal, -, hnew⟩ := effect_local he hf
    refine ⟨fun p hp => ?_, fun c b q hc => hpush c b q (by rw [← hlocal]; exact hc)⟩
    rcases hnew p hp with hp | ⟨request, clock, rfl, hq⟩
    · exact hret p hp
    · obtain ⟨-, hseq, -, rfl⟩ := he
      rw [← hq] at hseq
      refine ⟨Issued.of_live h' (Function.update_self _ _ _) hq.symm fun c b hc => ?_,
        fun _ _ _ => hseq⟩
      -- a timer of a call has a sequence that was given before
      obtain ⟨-, ⟨t, ht, htq⟩, -⟩ := h.created c b p.2 hc
      have := h.seq_le b t ht
      omega
  · cases a with
    | clientNew c timer request =>
      obtain ⟨-, -, rfl⟩ := he
      refine ⟨hret, fun c' b q hc => ?_⟩
      rcases hcalls hc with ⟨-, hc⟩ | hc
      · cases hc
      · exact hpush c' b q hc
    | clientPush c =>
      obtain ⟨timer, q, hcq, rfl⟩ := he
      refine ⟨hret, fun c' b q' hc => ?_⟩
      rcases hcalls hc with ⟨rfl, hcall⟩ | hc
      · cases hcall
        obtain ⟨-, ⟨t, ht, htq⟩, huniq⟩ := h.created _ _ _ hcq
        refine Issued.of_live h' ht htq fun d b' hd => ?_
        by_cases hdc : d = c'
        · subst hdc
          have h1 : AddCall.pushed timer q = .created b' q :=
            (Function.update_self d _ s.calls).symm.trans hd
          cases h1
        · have hd' : s.calls d = .created b' q :=
            (Function.update_of_ne hdc _ s.calls).symm.trans hd
          obtain ⟨-, ⟨u, hu, huq⟩, -⟩ := h.created d b' q hd'
          obtain rfl := h.seq_inj b' timer u t hu ht (huq.trans htq.symm)
          exact hdc (huniq d q hd')
      · exact hpush c' b q' hc
    | clientReturn c timerId =>
      obtain ⟨q, hcq, hseq, rfl⟩ := he
      refine ⟨fun p hp => ?_, fun c' b q' hc => ?_⟩
      · rcases List.mem_cons.mp hp with rfl | hp
        · exact ⟨hpush c _ _ hcq, fun t ht htq => (hseq t ht).trans htq⟩
        · exact hret p hp
      · rcases hcalls hc with ⟨-, hc⟩ | hc
        · cases hc
        · exact hpush c' b q' hc
    | clientCancel c timerId =>
      obtain ⟨-, rfl⟩ := he
      exact ⟨hret, hpush⟩
    | _ => exact absurd rfl hf

theorem reachable_ids {l : List Act} (hr : Run exec initial l s) : Ids s :=
  (run_invariant (fun _ _ _ hinv hids heff hinv' => hids.step hinv heff hinv') hr inv_initial
    ids_initial).2

end

/-! ### A cancelled timer -/

/-- The insertion of the timer of sequence `q` is queued. -/
def Queued (q : ℕ) (s : State) : Prop :=
  ∃ a t, .insert a ∈ queue s ∧ s.heap a = some t ∧ t.sequence = q

section
variable {s s' : State} {a : Act} {q : ℕ} {timerId : TimerId}

/-- A batch that user code sees is being called. -/
theorem calling_of_userCode (h : Inv [] s) (hu : s.phase.userCode = true)
    (hb : batch s.phase ≠ []) : s.callingExpiredTimer = true := by
  cases hp : s.phase with
  | calling now called rest running => exact h.calling.mpr ⟨_, _, _, _, hp⟩
  | idle => rw [hp] at hb; exact absurd rfl hb
  | _ => rw [hp] at hu; cases hu

/-- **`cancel_timer`** dooms a timer whose insertion is not queued. -/
theorem cancels_doomed (h : Inv [] s) (hn : Names s timerId q) (hq : ¬ Queued q s)
    (hb : batch s.phase ≠ [] → s.callingExpiredTimer = true) (hc : Cancels timerId s s') :
    Doomed q s' := by
  obtain ⟨⟨hle, haddr, hcalls⟩, hid⟩ := hn
  rcases hc with ⟨t, ht, htq, -, rfl⟩ | ⟨hi, rfl⟩
  · refine ⟨hle, fun a u hu huq => ?_⟩
    have hu : Function.update s.heap timerId.timer none a = some u := hu
    by_cases hat : a = timerId.timer
    · rw [hat, Function.update_self] at hu; cases hu
    · rw [Function.update_of_ne hat] at hu
      exact absurd (haddr a u hu huq) hat
  · refine ⟨hle, fun a u hu huq => ?_⟩
    have hu : s.heap a = some u := hu
    obtain rfl := haddr a u hu huq
    have hseq := hid u hu huq
    rcases (h.live _).mp (by rw [hu]; simp) with hm | ⟨c, q', hc⟩
    · rcases mem_owned.mp hm with hm | hm | ⟨e, he, hea⟩ | ⟨e, he, hea⟩
      · exact absurd hm List.not_mem_nil
      · exact absurd ⟨_, u, hm, hu, huq⟩ hq
      · refine absurd (h.active_iff.mpr ⟨u, hu, huq.trans hseq.symm, ?_⟩) hi
        rw [← hea] at hu ⊢
        exact h.entry_eq he hu ▸ he
      · refine ⟨⟨e, he, hea⟩, Or.inr ?_⟩
        have hcalling := hb (List.ne_nil_of_mem he)
        show _ ∈ (noted timerId s).cancelingTimers
        unfold noted
        rw [if_pos hcalling, OrdSet.mem_insert, ← hseq]
        exact Or.inl rfl
    · obtain ⟨-, ⟨v, hv, hvq⟩, -⟩ := h.created c _ q' hc
      rw [hu] at hv
      rw [← hvq, ← Option.some.inj hv, huq] at hc
      exact absurd hc (hcalls c _)

/-- The timers of the functors that are queued are queued. -/
theorem queued_index (hf : Fifo s) {q : ℕ} (hq : Queued q s) : ∃ j b t, s.executed ≤ j ∧
    s.pushed[j]? = some (.insert b) ∧ s.heap b = some t ∧ t.sequence = q := by
  obtain ⟨b, t, hb, ht, htq⟩ := hq
  rw [← hf.2] at hb
  obtain ⟨j, hj⟩ := List.mem_iff_getElem?.mp hb
  rw [List.getElem?_drop] at hj
  exact ⟨s.executed + j, b, t, Nat.le_add_right _ _, hj, ht, htq⟩

end

/-! ### Cancelling on the scheduler's thread -/

/-- Without foreign threads nothing is queued. -/
theorem local_not_queued {l : List Act} {s : State} (hr : Run exec initial l s)
    (hl : ∀ a ∈ l, foreign a = false) (q : ℕ) : ¬ Queued q s := by
  have hpushed : s.pushed = [] :=
    (run_invariant_of (P := fun s => s.pushed = []) (fun _ _ _ hf _ hp heff _ =>
      (effect_local heff hf).2.1.trans hp) hr hl inv_initial rfl).2
  intro hq
  obtain ⟨j, b, t, -, hj, -⟩ := queued_index (reachable_fifo hr) hq
  rw [hpushed] at hj
  cases hj

/-- A timer whose callback has not been started by the dispatch will be started by it. -/
theorem exists_started {e : TimerEntry} {t : Timer} {now : Timestamp} :
    ∀ (rest called : List TimerEntry) (s : State), Inv [] s →
      s.phase = .calling now called rest false → e ∈ rest → s.heap e.timer = some t →
      ∃ l s' new, (∀ a ∈ l, foreign a = false) ∧ Run exec s l s' ∧
        s'.invoked = s.invoked ++ new ∧ ∃ i ∈ new, i.sequence = t.sequence
  | [], _, _, _, _, he, _ => absurd he List.not_mem_nil
  | e' :: rest, called, s, h, hp, he, ht => by
    obtain ⟨t', ht'⟩ := h.live_of_mem (a := e'.timer)
      (mem_owned.mpr (Or.inr (Or.inr (Or.inr ⟨e', by rw [hp]; simp [batch], rfl⟩))))
    let s₁ : State := { s with
      phase := .calling now (called ++ [e']) rest true
      invoked := s.invoked ++ [⟨e', t'.sequence, t'.repeated⟩] }
    have hrun : exec s .run = .ok s₁ := by
      show run s = _
      unfold run
      rw [hp]
      exact deref_bind ht'
    by_cases hq : t'.sequence = t.sequence
    · exact ⟨[.run], s₁, _, by simp [foreign], by simpa using hrun, rfl, _,
        List.mem_singleton.mpr rfl, hq⟩
    · let s₂ : State := { s₁ with phase := .calling now (called ++ [e']) rest false }
      have hdone : exec s₁ .runDone = .ok s₂ := rfl
      have he : e ∈ rest := (List.mem_cons.mp he).resolve_left fun hee => by
        rw [hee, ht'] at ht
        exact hq (by rw [Option.some.inj ht])
      obtain ⟨l, s', new, hl, hr, hnew, i, hi, hiq⟩ := exists_started rest (called ++ [e']) s₂
        (exec_effect (exec_effect h hrun).2 hdone).2 rfl he ht
      refine ⟨.run :: .runDone :: l, s', ⟨e', t'.sequence, t'.repeated⟩ :: new, ?_,
        run_cons.mpr ⟨s₁, hrun, run_cons.mpr ⟨s₂, hdone, hr⟩⟩, ?_, i, List.mem_cons_of_mem _ hi,
        hiq⟩
      · simpa [foreign] using hl
      · rw [hnew]
        exact List.append_assoc _ _ _

section
variable {l₁ l₂ : List Act} {s s₁ s₂ : State} {timerId : TimerId} {q : ℕ}

/-- A timer that user code finds in the rest of the batch will be started. -/
theorem exists_started_of_userCode (hun : Unstarted q s) (h : Inv [] s)
    (huser : s.phase.userCode = true) :
    ∃ l s', (∀ a ∈ l, foreign a = false) ∧ Run exec s l s' ∧ ¬ Quiet q s s' := by
  obtain ⟨e, he, t, ht, rfl⟩ := hun
  cases hp : s.phase with
  | calling now called rest running =>
    rw [hp] at huser he
    have hrun : running = true := huser
    subst hrun
    let s' : State := { s with phase := .calling now called rest false }
    have hdone : exec s .runDone = .ok s' := by
      show runDone s = _
      unfold runDone
      rw [hp]
    obtain ⟨l, s'', new, hl, hr, hnew, i, hi, hiq⟩ :=
      exists_started rest called s' (exec_effect h hdone).2 rfl he ht
    refine ⟨.runDone :: l, s'', by simpa [foreign] using hl, run_cons.mpr ⟨s', hdone, hr⟩, ?_⟩
    rintro ⟨new', hnew', hne⟩
    rw [hnew] at hnew'
    rw [← List.append_cancel_left hnew'] at hne
    exact hne i hi hiq
  | _ => rw [hp] at he; exact absurd he List.not_mem_nil

/-- `cancel_timer` leaves the batch and the timers in it. -/
theorem unstarted_cancel (hun : Unstarted q s₁) (h₂ : Inv [] s₂)
    (heff : Effect s₁ s₂ (.cancel timerId)) : Unstarted q s₂ := by
  obtain ⟨e, he, t, ht, rfl⟩ := hun
  have hphase : s₂.phase = s₁.phase := (effect_frame heff rfl).1
  have hbatch : e ∈ batch s₂.phase := by
    rw [hphase]
    cases hp : s₁.phase with
    | calling now called rest running =>
      rw [hp] at he
      exact List.mem_append_right _ he
    | _ => rw [hp] at he; exact absurd he List.not_mem_nil
  -- the entry is still in the batch, so its timer is the same
  obtain ⟨t', ht'⟩ := h₂.live_of_mem (a := e.timer)
    (mem_owned.mpr (Or.inr (Or.inr (Or.inr ⟨e, hbatch, rfl⟩))))
  refine ⟨e, by rw [hphase]; exact he, t', ht', ?_⟩
  rcases (effect_keeps heff).2 _ t' ht' with hlt | ⟨u, hu, huseq, -⟩
  · have hle := h₂.seq_le _ t' ht'
    rw [(cancels_frame heff.2).numCreated] at hle
    omega
  · rw [ht] at hu
    rw [← huseq, Option.some.inj hu]

/-- **A cancelled timer is never started again** by a run on the scheduler's thread, if and only if
it is not in the rest of the batch when it is cancelled. -/
theorem cancel_effective (h₁ : Run exec initial l₁ s₁) (hl₁ : ∀ a ∈ l₁, foreign a = false)
    (hret : (timerId, q) ∈ s₁.returned) (hc : exec s₁ (.cancel timerId) = .ok s₂) :
    (∀ l s, (∀ a ∈ l, foreign a = false) → Run exec s₂ l s → Quiet q s₂ s) ↔ ¬ Unstarted q s₁ := by
  have h := reachable_inv h₁
  obtain ⟨heff, h₂⟩ := exec_effect h hc
  have hphase : s₂.phase = s₁.phase := (effect_frame heff rfl).1
  constructor
  · intro hquiet hun
    obtain ⟨l, s', hl, hr, hno⟩ :=
      exists_started_of_userCode (unstarted_cancel hun h₂ heff) h₂ (by rw [hphase]; exact heff.1)
    exact hno (hquiet l s' hl hr)
  · intro hu l s hl hr
    have hnames := (reachable_ids h₁).returned _ hret
    have hdoomed := cancels_doomed h hnames (local_not_queued h₁ hl₁ q)
      (calling_of_userCode h heff.1) heff.2
    refine Settled.quiet ⟨hdoomed, ?_⟩ h₂ hr
    rintro ⟨e, he, t', ht', htq⟩
    rcases (effect_keeps heff).2 _ t' ht' with hlt | ⟨t, ht, hseq, -⟩
    · have := hnames.1.1; omega
    · exact hu ⟨e, by rw [← hphase]; exact he, t, ht, hseq.trans htq⟩

/-- Two timers expire together, and the callback of the first is running. -/
def together : List Act :=
  [.addTimer ⟨16, 1⟩ (.runAt 1000) 500, .addTimer ⟨32, 2⟩ (.runAt 1000) 500, .expire 1000,
    .handleEvent 1000, .run]

/-- If the first one cancels itself, it is not started again. -/
theorem cancel_effective_self :
    Quiet 1 (after exec initial (together ++ [.cancel ⟨16, 1⟩]))
      (after exec (after exec initial (together ++ [.cancel ⟨16, 1⟩])) [.runDone, .run]) := by
  have hexec : exec (after exec initial together) (.cancel ⟨16, 1⟩) =
      .ok (after exec initial (together ++ [.cancel ⟨16, 1⟩])) := rfl
  refine (cancel_effective (run_after (l := together) rfl) (by decide)
    (List.mem_cons_of_mem _ List.mem_cons_self) hexec).mpr ?_ [.runDone, .run] _ (by decide)
    (run_after rfl)
  rintro ⟨e, he, t, ht, htq⟩
  obtain rfl := List.mem_singleton.mp he
  cases ht
  cases htq

/-- If the first one cancels the second, the second is started all the same. -/
theorem not_cancel_effective :
    ¬ ∀ (l₁ : List Act) (s₁ s₂ : State) (timerId : TimerId) (q : ℕ), Run exec initial l₁ s₁ →
      (∀ a ∈ l₁, foreign a = false) → (timerId, q) ∈ s₁.returned →
      exec s₁ (.cancel timerId) = .ok s₂ →
      ∀ l s, (∀ a ∈ l, foreign a = false) → Run exec s₂ l s → Quiet q s₂ s := by
  intro hall
  let s₂ := after exec initial (together ++ [.cancel ⟨32, 2⟩])
  have hrun : Run exec s₂ [.runDone, .run] (after exec s₂ [.runDone, .run]) := run_after rfl
  obtain ⟨new, hnew, hne⟩ := hall together (after exec initial together) s₂ ⟨32, 2⟩ 2
    (run_after rfl) (by decide) List.mem_cons_self rfl _ _ (by decide) hrun
  have hseq : [1, 2] = [1] ++ new.map Invocation.sequence :=
    congrArg (List.map Invocation.sequence) hnew
  rw [List.singleton_append, List.cons_inj_right] at hseq
  obtain ⟨i, hi, hiq⟩ := List.mem_map.mp (hseq ▸ List.mem_singleton.mpr rfl)
  exact hne i hi hiq

end

/-! ### Cancelling across threads -/

/-- The timer of sequence `q` is in none of the sets. -/
def Absent (q : ℕ) (s : State) : Prop :=
  (∀ e ∈ s.timers, ∀ t, s.heap e.timer = some t → t.sequence ≠ q) ∧
    ∀ i ∈ s.activeTimers, i.sequence ≠ q

theorem absent_of_gone {q : ℕ} {s : State} (hg : Gone q s) (h : Inv [] s) : Absent q s := by
  refine ⟨fun e _ t ht => hg.2 _ t ht, fun i hi => ?_⟩
  obtain ⟨e, -, t, ht, rfl⟩ := (h.active i).mp hi
  exact hg.2 _ t ht

/-- The cancel of the timer of sequence `q` is the functor of index `k`, and no functor behind it
inserts that timer. -/
structure Awaits (timerId : TimerId) (q k : ℕ) (s : State) : Prop where
  names : Names s timerId q
  functor : s.pushed[k]? = some (.cancelTimer timerId)
  before : ∀ j b t, k < j → s.pushed[j]? = some (.insert b) → s.heap b = some t → t.sequence ≠ q
  done : k < s.executed → Doomed q s

section
variable {s s' : State} {a : Act} {timerId : TimerId} {q k : ℕ}

theorem Awaits.step (hw : Awaits timerId q k s) (h : Inv [] s) (hf : Fifo s) (he : Effect s s' a) :
    Awaits timerId q k s' := by
  have hnum := hw.names.1.1
  have hbefore : ∀ j b t', k < j → s.pushed[j]? = some (.insert b) → s'.heap b = some t' →
      t'.sequence ≠ q := by
    intro j b t' hj hb ht' htq
    rcases (effect_keeps he).2 _ t' ht' with hlt | ⟨t, ht, hseq, -⟩
    · omega
    · exact hw.before j b t hj hb ht (hseq.trans htq)
  have hdoomed : k < s.executed → Doomed q s' := fun hk => (hw.done hk).step he
  rcases effect_queue he with ⟨h1, h2, -⟩ | ⟨f, h1, h2, -, hf'⟩ | ⟨f, fs, clock, hp, h1, h2, h3, hx⟩
  · refine ⟨hw.names.step he, by rw [h1]; exact hw.functor, ?_, ?_⟩
    · rw [h1]; exact hbefore
    · rw [h2]; exact hdoomed
  · have hlen : k < s.pushed.length := (List.getElem?_eq_some_iff.mp hw.functor).1
    refine ⟨hw.names.step he, by rw [h1, List.getElem?_append_left hlen]; exact hw.functor, ?_, ?_⟩
    · intro j b t' hj hb ht' htq
      rw [h1] at hb
      by_cases hjl : j < s.pushed.length
      · rw [List.getElem?_append_left hjl] at hb
        exact hbefore j b t' hj hb ht' htq
      · -- the functor that is queued inserts a timer of a call, and the id has been returned
        rw [List.getElem?_append_right (not_lt.mp hjl)] at hb
        have hfb : f = .insert b := by
          obtain ⟨_, hget⟩ := List.getElem?_eq_some_iff.mp hb
          rw [← hget, List.getElem_singleton]
        obtain ⟨c, q', hc⟩ := hf' b hfb
        obtain ⟨-, ⟨t, ht, htq'⟩, -⟩ := h.created c b q' hc
        rcases (effect_keeps he).2 _ t' ht' with hlt | ⟨u, hu, hseq, -⟩
        · omega
        · rw [ht] at hu
          rw [← htq', Option.some.inj hu, hseq, htq] at hc
          exact hw.names.1.2.2 c b hc
    · rw [h2]; exact hdoomed
  · refine ⟨hw.names.step he, by rw [h1]; exact hw.functor, by rw [h1]; exact hbefore, fun hk => ?_⟩
    rw [h2] at hk
    rcases Nat.lt_succ_iff_lt_or_eq.mp hk with hk | rfl
    · exact hdoomed hk
    · have hfirst : f = .cancelTimer timerId := by
        have hget : s.pushed[s.executed]? = some f := by
          rw [← Nat.add_zero s.executed, ← List.getElem?_drop, hf.2, h3, List.getElem?_cons_zero]
        rw [hw.functor] at hget
        exact (Option.some.inj hget).symm
      subst hfirst
      have hmid : Fifo { s with phase := .draining fs, executed := s.executed + 1 } := by
        have hnext := hf.step he
        unfold Fifo at hnext
        rw [h1, h2] at hnext
        refine ⟨hnext.1, hnext.2.trans ?_⟩
        unfold queue at h3
        rw [hp] at h3
        exact (List.cons.inj h3).2.symm
      refine cancels_doomed (Inv.popped h hp) hw.names ?_ ?_ hx
      · intro hq
        obtain ⟨j, b, t, hj, hb, ht, htq⟩ := queued_index hmid hq
        exact hw.before j b t hj hb ht htq
      · intro hb
        exact absurd rfl hb

theorem Awaits.run (hw : Awaits timerId q k s) (h : Inv [] s) (hf : Fifo s) {l : List Act}
    (hr : Run exec s l s') : Awaits timerId q k s' := by
  refine (run_invariant (P := fun s => Fifo s ∧ Awaits timerId q k s) ?_ hr h ⟨hf, hw⟩).2.2
  rintro t t' a hinv ⟨hfifo, hawaits⟩ heff -
  exact ⟨hfifo.step heff, hawaits.step hinv hfifo heff⟩

/-- A queued cancel awaits its execution. -/
theorem awaits_of_clientCancel {c : ℕ} (hn : Names s timerId q) (hf : Fifo s)
    (he : Effect s s' (.clientCancel c timerId)) : Awaits timerId q s.pushed.length s' := by
  have hnames := hn.step he
  obtain ⟨-, rfl⟩ := he
  refine ⟨hnames, ?_, fun j b t hj hb => ?_, fun hk => absurd hk (not_lt.mpr hf.1)⟩
  · show (s.pushed ++ [Functor.cancelTimer timerId])[s.pushed.length]? = _
    simp
  · have hlt : j < (s.pushed ++ [Functor.cancelTimer timerId]).length :=
      (List.getElem?_eq_some_iff.mp hb).1
    rw [List.length_append, List.length_singleton] at hlt
    omega

end

/-- The call of `cancel` the action makes in `s₁` has been executed in `s₃`. -/
def Executed (s₁ s₃ : State) : Act → Prop
  | .clientCancel .. => s₁.pushed.length < s₃.executed
  | _ => True

section
variable {l₁ l₃ l₄ : List Act} {s₁ s₂ s₃ s₄ : State} {timerId : TimerId} {q : ℕ} {a : Act}

/-- **A cancel is not overtaken** if it is queued, or the insertion is not. -/
theorem cancel_not_overtaken (h₁ : Run exec initial l₁ s₁) (hret : (timerId, q) ∈ s₁.returned)
    (ha : a = .cancel timerId ∧ ¬ Queued q s₁ ∨ ∃ c, a = .clientCancel c timerId)
    (h₂ : exec s₁ a = .ok s₂) (h₃ : Run exec s₂ l₃ s₃) (hexec : Executed s₁ s₃ a)
    (hend : dispatching s₃.phase = false) (h₄ : Run exec s₃ l₄ s₄) :
    Absent q s₄ ∧ Quiet q s₃ s₄ := by
  have hinv₁ := reachable_inv h₁
  have hnames := (reachable_ids h₁).returned _ hret
  obtain ⟨heff, hinv₂⟩ := exec_effect hinv₁ h₂
  have hinv₃ := run_inv h₃ hinv₂
  have hdoomed : Doomed q s₃ := by
    rcases ha with ⟨rfl, hq⟩ | ⟨c, rfl⟩
    · refine (cancels_doomed hinv₁ hnames hq ?_ heff.2).run hinv₂ h₃
      exact calling_of_userCode hinv₁ heff.1
    · have hf := reachable_fifo h₁
      exact ((awaits_of_clientCancel hnames hf heff).run hinv₂ (hf.step heff) h₃).done hexec
  have hgone := hdoomed.gone (batch_eq_nil hend)
  exact ⟨absent_of_gone (hgone.run hinv₃ h₄) (run_inv h₄ hinv₃),
    Settled.quiet ⟨hdoomed, hgone.not_unstarted⟩ hinv₃ h₄⟩

/-- A foreign thread adds a timer, and the insertion is queued. -/
def adding : List Act := [.clientNew 0 16 (.runAt 1000), .clientPush 0, .clientReturn 0 ⟨16, 1⟩]

/-- The queue is executed until the cancel has been. -/
def cancelled : List Act := [.swapFunctors, .runFunctor 500, .runFunctor 500]

/-- If it cancels the timer, the insertion is executed first, and then the cancel; the alarm has
been set, but the dispatch does not start the callback. -/
theorem cancel_not_overtaken_queued :
    let s₃ := after exec (after exec initial (adding ++ [.clientCancel 0 ⟨16, 1⟩])) cancelled
    let s₄ := after exec s₃
      [.functorsDone, .expire 1000, .handleEvent 1000, .callsDone, .resetDone 1000]
    s₃.timerfd = .armed 1000 ∧ Absent 1 s₄ ∧ Quiet 1 s₃ s₄ := by
  intro s₃ s₄
  have hexec : exec (after exec initial adding) (.clientCancel 0 ⟨16, 1⟩) =
      .ok (after exec initial (adding ++ [.clientCancel 0 ⟨16, 1⟩])) := rfl
  have h₄ : Run exec s₃
      [.functorsDone, .expire 1000, .handleEvent 1000, .callsDone, .resetDone 1000] s₄ :=
    run_after (by decide +kernel)
  exact ⟨by decide +kernel, cancel_not_overtaken (run_after rfl) List.mem_cons_self
    (Or.inr ⟨0, rfl⟩) hexec (run_after (l := cancelled) rfl) (show 1 < 2 by decide) rfl h₄⟩

/-- If the scheduler's thread cancels it at once, the insertion follows, and the callback is
started. -/
theorem cancel_overtaken :
    ¬ ∀ (l₁ l₃ l₄ : List Act) (s₁ s₂ s₃ s₄ : State) (timerId : TimerId) (q : ℕ) (a : Act),
      Run exec initial l₁ s₁ → (timerId, q) ∈ s₁.returned →
      (a = .cancel timerId ∨ ∃ c, a = .clientCancel c timerId) → exec s₁ a = .ok s₂ →
      Run exec s₂ l₃ s₃ → Executed s₁ s₃ a → dispatching s₃.phase = false → Run exec s₃ l₄ s₄ →
      Absent q s₄ ∧ Quiet q s₃ s₄ := by
  intro hall
  let s₂ := after exec initial (adding ++ [.cancel ⟨16, 1⟩])
  let l₄ : List Act :=
    [.swapFunctors, .runFunctor 500, .functorsDone, .expire 1000, .handleEvent 1000, .run]
  have hrun : Run exec s₂ l₄ (after exec s₂ l₄) := run_after (by decide +kernel)
  obtain ⟨-, new, hnew, hne⟩ := hall adding [] l₄ (after exec initial adding) s₂ s₂ _ ⟨16, 1⟩ 1
    (.cancel ⟨16, 1⟩) (run_after rfl) List.mem_cons_self (Or.inl rfl) rfl rfl trivial rfl hrun
  have hseq : (after exec s₂ l₄).invoked.map Invocation.sequence = [1] := by decide +kernel
  have hnone : s₂.invoked = [] := by decide +kernel
  rw [hnew, hnone, List.nil_append] at hseq
  obtain ⟨i, hi, hiq⟩ := List.mem_map.mp (hseq ▸ List.mem_singleton.mpr rfl)
  exact hne i hi hiq

end

end ToolsCxx.TimerScheduler.Cancel
