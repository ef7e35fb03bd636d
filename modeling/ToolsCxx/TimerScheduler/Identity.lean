import ToolsCxx.TimerScheduler.Lifetime

/-! # `TimerScheduler`: the id an `add_timer` call returns

On a foreign thread `add_timer` reads the sequence of its `Timer` after the insertion has been
queued. The scheduler's thread may have deleted the timer by then, and another one may be at the
address. `add_identifies`: the id names the timer the call has created, and the timer has not been
deleted when its sequence is read, if and only if what the scheduler's thread has executed until
then has not made the timer `Over`; `not_always_identifies` is the other case. -/

namespace ToolsCxx.TimerScheduler.Identity

open ToolsCxx.Base ToolsCxx.Lib.Machine ToolsCxx.Lib.OrderedSet
open ToolsCxx.TimerScheduler.Model ToolsCxx.TimerScheduler.Ownership
open ToolsCxx.TimerScheduler.Effects ToolsCxx.TimerScheduler.Frames
open ToolsCxx.TimerScheduler.Lifetime

/-! ### The property -/

/-- From `s` to `s'`, no timer is changed but the one of sequence `q`. -/
structure OnlyAffects (timerId : TimerId) (q : ℕ) (s s' : State) : Prop where
  heap : ∀ b t, s.heap b = some t → t.sequence ≠ q → s'.heap b = some t
  timers : ∀ e t, s.heap e.timer = some t → t.sequence ≠ q → (e ∈ s'.timers ↔ e ∈ s.timers)
  activeTimers : ∀ i, i ≠ timerId → (i ∈ s'.activeTimers ↔ i ∈ s.activeTimers)
  cancelingTimers : ∀ i, i ≠ timerId → (i ∈ s'.cancelingTimers ↔ i ∈ s.cancelingTimers)

/-- **The id identifies the timer** of sequence `q` at the address `a`: it names it, the sequence is
read in `s` before the timer is deleted, and a later cancel affects no other timer. -/
structure Identifies (a : Addr) (q : ℕ) (timerId : TimerId) (s s' : State) : Prop where
  names : timerId = ⟨a, q⟩
  alive : ∃ t, s.heap a = some t ∧ t.sequence = q
  cancel : ∀ l t u, Run exec s' l t → cancelTimer timerId t = .ok u → OnlyAffects timerId q t u

/-! ### The call -/

section
variable {s s' : State} {x : Act} {a : Addr} {q : ℕ} {timerId : TimerId}

/-- The call of `c` goes on only by its own actions. -/
theorem calls_step (he : Effect s s' x) {c : ℕ}
    (hc : s.calls c = .created a q ∨ s.calls c = .pushed a q)
    (hx : ∀ timerId, x ≠ .clientReturn c timerId) :
    s'.calls c = .created a q ∨ s'.calls c = .pushed a q := by
  have hother : ∀ {c' : ℕ} {call : AddCall}, c ≠ c' → s'.calls = Function.update s.calls c' call →
      s'.calls c = .created a q ∨ s'.calls c = .pushed a q := by
    intro c' call hne hcalls
    rw [hcalls, Function.update_of_ne hne]
    exact hc
  by_cases hf : foreign x = false
  · rw [(effect_local he hf).1]
    exact hc
  · cases x with
    | clientNew c' timer request =>
      obtain ⟨hnone, -, rfl⟩ := he
      refine hother (fun hcc => ?_) rfl
      rw [← hcc] at hnone
      rw [hnone] at hc
      rcases hc with hc | hc <;> cases hc
    | clientPush c' =>
      obtain ⟨timer, q', hcreated, rfl⟩ := he
      by_cases hcc : c = c'
      · subst hcc
        rw [hcreated] at hc
        rcases hc with hc | hc <;> cases hc
        exact Or.inr (Function.update_self _ _ _)
      · exact hother hcc rfl
    | clientReturn c' timerId =>
      obtain ⟨_, -, -, rfl⟩ := he
      exact hother (fun hcc => hx timerId (by rw [hcc])) rfl
    | clientCancel c' timerId =>
      obtain ⟨-, rfl⟩ := he
      exact hc
    | _ => exact absurd rfl hf

/-- A cancel with the id of the timer of sequence `q` affects no other. -/
theorem onlyAffects_of (h : Inv [] s) (hc : cancelTimer timerId s = .ok s') :
    OnlyAffects timerId timerId.sequence s s' := by
  obtain ⟨u, hok, heff, -⟩ := cancelTimer_sound h timerId
  obtain rfl : u = s' := Except.ok.inj (hok.symm.trans hc)
  rcases heff with ⟨t, ht, htq, hmem, rfl⟩ | ⟨-, rfl⟩
  · have hne : ∀ {b v}, s.heap b = some v → v.sequence ≠ timerId.sequence → b ≠ timerId.timer := by
      rintro b v hv hvq rfl
      rw [ht] at hv
      exact hvq (by rw [← Option.some.inj hv]; exact htq)
    refine ⟨fun b v hv hvq => ?_, fun e v hv hvq => ?_, fun i hi => ?_, fun i _ => Iff.rfl⟩
    · exact (Function.update_of_ne (hne hv hvq) _ _).trans hv
    · show e ∈ s.timers.erase _ ↔ _
      rw [OrdSet.mem_erase]
      exact and_iff_right fun hx => hne hv hvq (congrArg TimerEntry.timer hx)
    · show i ∈ s.activeTimers.erase _ ↔ _
      rw [OrdSet.mem_erase]
      exact and_iff_right hi
  · refine ⟨fun b v hv _ => hv, fun e v _ _ => Iff.rfl, fun i _ => Iff.rfl, fun i hi => ?_⟩
    show i ∈ (noted timerId s).cancelingTimers ↔ _
    unfold noted
    split_ifs
    · rw [OrdSet.mem_insert]
      exact or_iff_right hi
    · exact Iff.rfl

end

/-- The call of `c` goes on until it returns. -/
theorem calls_run {s t : State} {l : List Act} {a : Addr} {q c : ℕ} (h : Inv [] s)
    (hc : s.calls c = .created a q) (hl : ∀ timerId, .clientReturn c timerId ∉ l)
    (hr : Run exec s l t) : t.calls c = .created a q ∨ t.calls c = .pushed a q := by
  refine (run_invariant_of (A := fun x => ∀ timerId, x ≠ .clientReturn c timerId)
    (P := fun t => t.calls c = .created a q ∨ t.calls c = .pushed a q)
    (fun t t' x hx _ hcalls heff _ => calls_step heff hcalls hx) hr ?_ h (Or.inl hc)).2
  rintro x hx timerId rfl
  exact hl timerId hx

/-! ### The id -/

section
variable {l₀ l : List Act} {s₀ s₁ s₂ s₃ : State} {c : ℕ} {a : Addr} {request : Request}
  {timerId : TimerId}

/-- **The id of an `add_timer` call** on a foreign thread identifies the timer the call has created
if and only if the timer is not over when its sequence is read. -/
theorem add_identifies (h₀ : Run exec initial l₀ s₀)
    (hnew : exec s₀ (.clientNew c a request) = .ok s₁) (h : Run exec s₁ l s₂)
    (hl : ∀ i, .clientReturn c i ∉ l) (hret : exec s₂ (.clientReturn c timerId) = .ok s₃) :
    Identifies a (s₀.numCreated + 1) timerId s₂ s₃ ↔
      ¬ Over request.interval ⟨a, s₀.numCreated + 1⟩ s₁ l := by
  have hinv₀ := reachable_inv h₀
  obtain ⟨heff, hinv₁⟩ := exec_effect hinv₀ hnew
  have hinv₂ := run_inv h hinv₁
  obtain ⟨heff₃, hinv₃⟩ := exec_effect hinv₂ hret
  obtain ⟨-, hfree, hs₁⟩ := heff
  have hdead : a ∉ owned [] s₀ := hinv₀.not_mem_of_dead hfree
  have hheap : s₁.heap a =
      some (Timer.new request.when request.interval (s₀.numCreated + 1)) := by
    rw [hs₁]
    exact Function.update_self _ _ _
  have halive : (∃ t, s₂.heap a = some t ∧ t.sequence = s₀.numCreated + 1) ↔
      ¬ Over request.interval ⟨a, s₀.numCreated + 1⟩ s₁ l := by
    refine alive_iff hinv₁ hheap rfl rfl ⟨fun hstored => ?_, fun htaken => ?_⟩ h
    · rw [hs₁] at hstored
      exact hdead (mem_owned.mpr (Or.inr (Or.inr (Or.inl hstored))))
    · rw [hs₁] at htaken
      exact hdead (mem_owned.mpr (Or.inr (Or.inr (Or.inr htaken))))
  rw [← halive]
  refine ⟨Identifies.alive, fun ⟨t, ht, htq⟩ => ?_⟩
  have hcalls := calls_run hinv₁ (by rw [hs₁]; exact Function.update_self _ _ _) hl h
  obtain ⟨q, hpushed, hread, -⟩ := heff₃
  rw [hpushed] at hcalls
  have haddr : timerId.timer = a := by
    rcases hcalls with hc | hc <;> cases hc
    rfl
  have hseq : timerId.sequence = s₀.numCreated + 1 :=
    (hread t (by rw [haddr]; exact ht)).trans htq
  refine ⟨?_, ⟨t, ht, htq⟩, fun l' u v hu hc => ?_⟩
  · rw [← haddr, ← hseq]
  · rw [← hseq]
    exact onlyAffects_of (run_inv hu hinv₃) hc

end

/-- A foreign thread adds a timer, and the scheduler's thread inserts it. -/
def inserting : List Act := [.clientPush 0, .swapFunctors, .runFunctor 500, .functorsDone]

/-- The foreign thread reads the sequence when the insertion has been executed. -/
theorem add_identifies_inserted :
    let s₁ := after exec initial [.clientNew 0 16 (.runAt 1000)]
    let s₂ := after exec s₁ inserting
    Identifies 16 1 ⟨16, 1⟩ s₂ (after exec s₂ [.clientReturn 0 ⟨16, 1⟩]) := by
  intro s₁ s₂
  have hnew : exec initial (.clientNew 0 16 (.runAt 1000)) =
      .ok (after exec initial [.clientNew 0 16 (.runAt 1000)]) := rfl
  have hinserted : Run exec s₁ inserting s₂ := run_after rfl
  have hret : exec s₂ (.clientReturn 0 ⟨16, 1⟩) =
      .ok (after exec s₂ [.clientReturn 0 ⟨16, 1⟩]) := rfl
  have hnone : ∀ i, .clientReturn 0 i ∉ inserting := by simp [inserting]
  have hiff := add_identifies (run_nil.mpr rfl) hnew hinserted hnone hret
  refine hiff.mpr ?_
  rintro ⟨l₁, x, l₂, t, heq, hrun, -, hlast⟩
  match l₁ with
  | [] | [_] | [_, _, _] =>
    cases heq
    exact hlast.elim And.left And.left
  | [_, _] =>
    -- the functor that is executed is the insertion
    cases heq
    rw [← after_eq hrun] at hlast
    obtain ⟨⟨functors, hphase⟩, -⟩ | ⟨hreaches, -⟩ := hlast
    · cases hphase
    · exact hreaches
  | _ :: _ :: _ :: _ :: l₁ =>
    have hlen := congrArg List.length heq
    simp [inserting] at hlen

/-- The timer is inserted, expires and is deleted, and a callback's timer gets its address. -/
def replaced : List Act :=
  inserting ++ [.expire 1000, .handleEvent 1000, .run, .runDone, .callsDone, .resetEntry 1000,
    .resetDone 1000, .addTimer ⟨16, 2⟩ (.runAt 5000) 1000]

/-- The id that is returned then is that of the other timer. -/
theorem not_always_identifies :
    ¬ ∀ (l₀ l : List Act) (s₀ s₁ s₂ s₃ : State) (c : ℕ) (a : Addr) (request : Request)
      (timerId : TimerId), Run exec initial l₀ s₀ → exec s₀ (.clientNew c a request) = .ok s₁ →
      Run exec s₁ l s₂ → (∀ i, .clientReturn c i ∉ l) →
      exec s₂ (.clientReturn c timerId) = .ok s₃ →
      Identifies a (s₀.numCreated + 1) timerId s₂ s₃ := by
  intro hall
  let s₁ := after exec initial [.clientNew 0 16 (.runAt 1000)]
  let s₂ := after exec s₁ replaced
  have hreplaced : Run exec s₁ replaced s₂ := run_after (by decide +kernel)
  have hret : exec s₂ (.clientReturn 0 ⟨16, 2⟩) =
      .ok (after exec s₂ [.clientReturn 0 ⟨16, 2⟩]) := exec_eq_after (by decide +kernel)
  have hid := hall [] replaced initial s₁ s₂ _ 0 16 (.runAt 1000) ⟨16, 2⟩ (run_nil.mpr rfl) rfl
    hreplaced (by simp [replaced, inserting]) hret
  have hnames : (2 : ℕ) = 1 := congrArg TimerId.sequence hid.names
  cases hnames

end ToolsCxx.TimerScheduler.Identity
