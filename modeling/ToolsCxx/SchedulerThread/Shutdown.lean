import ToolsCxx.SchedulerThread.Steps

/-! # `TimerSchedulerThread` and `CoSchedulerThread`: the quit

The schedulers' `start` begins with `m_quit = false`, after the worker has published `m_scheduler`:
a `quit` of the owner or of a client can come before, and is then undone. `quit_kept`: a quit is
kept in every later state if and only if the worker has executed this assignment when it comes.

In the other case the owner can be in `join` while the loop goes on (`Lost`), and it stays there
unless a callback calls `quit` (`Lost.hang`). -/

namespace ToolsCxx.SchedulerThread.Shutdown

open ToolsCxx.Lib.Machine ToolsCxx.SchedulerThread.Model ToolsCxx.SchedulerThread.Steps

/-! ### The property -/

/-- The action `a` is the `m_quit = true` of a `quit`. -/
def SetsQuit (s : State) : Act → Prop
  | .owner => ∃ dtor, s.owner = .quitting .set dtor
  | .client c => s.clients c = .quitting .set
  | .callback => True
  | _ => False

instance (s : State) : DecidablePred (SetsQuit s)
  | .owner => inferInstanceAs (Decidable (∃ dtor, s.owner = .quitting .set dtor))
  | .client c => inferInstanceAs (Decidable (s.clients c = .quitting .set))
  | .callback => isTrue trivial
  | .call _ | .spurious | .worker | .share _ | .clientQuit _ => isFalse id

/-- The owner is in `join`, the worker's test of its loop succeeds, and no other thread can call
`quit`. -/
structure Lost (s : State) : Prop where
  owner : s.owner = .join
  worker : s.worker = .test
  quit : s.quit = false
  clients : ∀ c, s.clients c = .none

/-- **A quit is never lost**: no later step undoes it. -/
def NeverLost (k : Kind) : Prop :=
  ∀ l₁ a l₂ s₁ s s₂, Run (exec k) initial l₁ s₁ → SetsQuit s₁ a → exec k s₁ a = .ok s →
    Run (exec k) s l₂ s₂ → s₂.quit = true ∧ ¬ Lost s₂

/-- The worker has executed `m_quit = false`. -/
def Cleared : Worker → Prop
  | .test | .body | .destroy | .exited => True
  | _ => False

instance : DecidablePred Cleared
  | .test | .body | .destroy | .exited => isTrue trivial
  | .unborn | .construct | .lock | .publish | .unlock | .notify | .clear => isFalse id

/-! ### The quits that are kept -/

section
variable {k : Kind} {s s' : State} {a : Act}

/-- A quit sets `m_quit`, and the worker stays where it is. -/
theorem SetsQuit.step (h : SetsQuit s a) (hs : Step k s a s') :
    s'.quit = true ∧ s'.worker = s.worker := by
  cases hs with
  | move hpc =>
    cases a with
    | owner =>
      obtain ⟨dtor, ho⟩ := h
      rw [ho] at hpc
      cases hpc
    | callback => cases hpc
    | client => cases hpc
    | call | spurious | worker | share | clientQuit => exact absurd h id
  | create hpc | wait hpc | release hpc =>
    obtain ⟨dtor, ho⟩ := h
    rw [ho] at hpc
    cases hpc
  | acquire hpc =>
    obtain ⟨dtor, ho⟩ := h
    rw [ho] at hpc
    rcases hpc with hpc | hpc <;> cases hpc
  | quit hpc =>
    obtain ⟨dtor, ho⟩ := h
    rw [ho] at hpc
    cases hpc
    simp
  | clientQuit hc =>
    have hset : s.clients _ = _ := h
    rw [hset] at hc
    cases hc
    simp
  | callback => exact ⟨rfl, rfl⟩
  | construct | workerAcquire | publish | workerRelease | notify | clear | again | leave | body
  | destroy | share | clientCall => exact absurd h id

/-- A thread that can quit knows that the worker has released the mutex. -/
theorem SetsQuit.released (hi : Inv s) (h : SetsQuit s a) (hs : Step k s a s') :
    Released s.worker := by
  cases a with
  | owner =>
    obtain ⟨dtor, ho⟩ := h
    have hseen := hi.seen
    rw [ho] at hseen
    exact hseen
  | client c =>
    have hset : s.clients c = .quitting .set := h
    exact hi.clients c (by rw [hset]; exact nofun)
  | callback =>
    cases hs with
    | move hpc => cases hpc
    | callback hpc => rw [hpc]; trivial
  | call | spurious | worker | share | clientQuit => exact absurd h id

/-- The worker has executed `m_quit = false`, and `m_quit` has been set since. -/
def Quitted (s : State) : Prop := Cleared s.worker ∧ s.quit = true

/-- **Nothing undoes the quit any more.** -/
theorem quitted_step (hi : Inv s) (h : Quitted s) (hs : Step k s a s') : Quitted s' := by
  obtain ⟨hc, hq⟩ := h
  cases hs with
  | create hpc =>
    rw [unborn_of_create hi.seen hpc] at hc
    exact absurd hc id
  | construct hpc | workerAcquire hpc | publish hpc | workerRelease hpc | notify hpc | clear hpc =>
    rw [hpc] at hc
    exact absurd hc id
  | again hpc hf => rw [hq] at hf; cases hf
  | leave | body | destroy => exact ⟨trivial, hq⟩
  | callback => exact ⟨hc, rfl⟩
  | quit | clientQuit => exact ⟨hc, by simp [hq]⟩
  | move | acquire | wait | release | share | clientCall => exact ⟨hc, hq⟩

/-- The worker undoes a quit that comes too early. -/
theorem exists_undone (hr : Released s.worker) (hc : ¬ Cleared s.worker) :
    ∃ l s', Run (exec k) s l s' ∧ s'.quit = false := by
  have hclear : ∀ {t : State}, t.worker = .clear →
      exec k t .worker = .ok { t with quit := false, worker := .test } := by
    intro t ht
    show threadFunc t = _
    unfold threadFunc
    rw [ht]
  cases hw : s.worker with
  | clear => exact ⟨[.worker], _, run_cons.mpr ⟨_, hclear hw, run_nil.mpr rfl⟩, rfl⟩
  | notify =>
    let s₁ : State := { s with
      owner := if s.owner = .waiting then .woken else s.owner
      worker := .clear }
    have hnotify : exec k s .worker = .ok s₁ := by
      show threadFunc s = _
      unfold threadFunc
      rw [hw]
    exact ⟨[.worker, .worker], _,
      run_cons.mpr ⟨s₁, hnotify, run_cons.mpr ⟨_, hclear rfl, run_nil.mpr rfl⟩⟩, rfl⟩
  | unborn | construct | lock | publish | unlock => rw [hw] at hr; exact absurd hr id
  | test | body | destroy | exited => rw [hw] at hc; exact absurd trivial hc

end

/-- **A quit is kept** in every later state if and only if the worker has executed `m_quit = false`
when it comes. -/
theorem quit_kept (k : Kind) {l₁ : List Act} {s₁ s : State} {a : Act}
    (h₁ : Run (exec k) initial l₁ s₁) (hq : SetsQuit s₁ a) (ha : exec k s₁ a = .ok s) :
    (∀ l₂ s₂, Run (exec k) s l₂ s₂ → s₂.quit = true ∧ ¬ Lost s₂) ↔ Cleared s₁.worker := by
  have hi₁ := reachable_inv h₁
  have hstep := exec_step ha
  obtain ⟨hset, hworker⟩ := hq.step hstep
  constructor
  · intro hkept
    by_contra hc
    have hr := hq.released hi₁ hstep
    rw [← hworker] at hr hc
    obtain ⟨l₂, s₂, h₂, hfalse⟩ := exists_undone (k := k) hr hc
    have htrue := (hkept l₂ s₂ h₂).1
    rw [hfalse] at htrue
    cases htrue
  · intro hc l₂ s₂ h₂
    rw [← hworker] at hc
    have hquitted := (run_invariant (fun _ _ _ hi h hs => quitted_step hi h hs) h₂
      (inv_step hi₁ hstep) ⟨hc, hset⟩).2
    refine ⟨hquitted.2, fun hlost => ?_⟩
    have hfalse := hlost.quit
    rw [hquitted.2] at hfalse
    cases hfalse

/-- `start` has returned while the worker is at `notify_one`, and the owner is in the destructor's
`quit`. -/
def early : List Act :=
  [.call .start, .owner, .worker, .worker, .worker, .worker, .owner, .owner, .owner, .owner,
    .call .dtor, .owner]

/-- A quit that comes when the worker is at the test of its loop ends the loop. -/
theorem quit_kept_test :
    let s := after (exec .timer) initial (early ++ [.worker, .worker] ++ [.owner])
    (after (exec .timer) s [.owner, .owner, .worker]).quit = true ∧
      ¬ Lost (after (exec .timer) s [.owner, .owner, .worker]) := by
  have hrun : Run (exec .timer) initial (early ++ [.worker, .worker])
      (after (exec .timer) initial (early ++ [.worker, .worker])) := run_after (by decide)
  exact (quit_kept .timer hrun (a := .owner) ⟨true, by decide⟩ (exec_after (by decide))).mpr
    (by decide) _ _ (run_after (by decide))

/-! ### The quit that is lost -/

section
variable {k : Kind} {s s' : State} {a : Act}

/-- The owner is in `join`, the worker is in its loop, and only a callback can end it. -/
structure Hanging (s : State) : Prop where
  owner : s.owner = .join
  worker : s.worker = .test ∨ s.worker = .body
  quit : s.quit = false
  clients : ∀ c, s.clients c = .none

theorem Lost.hanging (h : Lost s) : Hanging s := ⟨h.owner, Or.inl h.worker, h.quit, h.clients⟩

theorem hanging_step (h : Hanging s) (hs : Step k s a s') (ha : a ≠ .callback) : Hanging s' := by
  obtain ⟨ho, hw, hq, hc⟩ := h
  cases hs with
  | move hpc =>
    rw [ho] at hpc
    cases hpc with
    | join hexit => rw [hexit] at hw; rcases hw with hw | hw <;> cases hw
  | create hpc | wait hpc | release hpc | quit hpc | share hpc => rw [ho] at hpc; cases hpc
  | acquire hpc => rw [ho] at hpc; rcases hpc with hpc | hpc <;> cases hpc
  | construct hpc | workerAcquire hpc | publish hpc | workerRelease hpc | notify hpc | clear hpc
  | destroy hpc => rw [hpc] at hw; rcases hw with hw | hw <;> cases hw
  | again => exact ⟨ho, Or.inr rfl, hq, hc⟩
  | leave _ ht => rw [hq] at ht; cases ht
  | body => exact ⟨ho, Or.inl rfl, hq, hc⟩
  | callback => exact absurd rfl ha
  | clientCall hcl | clientQuit hcl => rw [hc] at hcl; cases hcl

/-- **The owner stays in `join`** unless a callback calls `quit`. -/
theorem Lost.hang (h : Lost s) {l : List Act} (hl : ∀ a ∈ l, a ≠ .callback)
    (hr : Run (exec k) s l s') : s'.owner = .join :=
  (Run.invariant_of (P := Hanging)
    (fun t a t' h ha (hs : exec k t a = .ok t') => hanging_step h (exec_step hs) ha) h.hanging hl
    hr).owner

end

/-- The quit of the destructor comes before `m_quit = false`, in both classes. -/
theorem not_never_lost : ¬ NeverLost .timer ∧ ¬ NeverLost .co := by
  constructor
  · intro hall
    have hlost : Lost (after (exec .timer) (after (exec .timer) initial (early ++ [.owner]))
        [.owner, .owner, .worker, .worker]) :=
      ⟨by decide, by decide, by decide, fun _ => rfl⟩
    exact (hall early .owner _ _ _ _ (run_after (by decide)) ⟨true, by decide⟩
      (exec_after (by decide)) (run_after (by decide))).2 hlost
  · intro hall
    have hlost : Lost (after (exec .co) (after (exec .co) initial (early ++ [.owner]))
        [.worker, .worker]) :=
      ⟨by decide, by decide, by decide, fun _ => rfl⟩
    exact (hall early .owner _ _ _ _ (run_after (by decide)) ⟨true, by decide⟩
      (exec_after (by decide)) (run_after (by decide))).2 hlost

end ToolsCxx.SchedulerThread.Shutdown
