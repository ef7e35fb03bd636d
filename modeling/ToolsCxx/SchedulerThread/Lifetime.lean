import ToolsCxx.SchedulerThread.Shutdown
import Mathlib.Data.List.Infix

/-! # `TimerSchedulerThread` and `CoSchedulerThread`: the lifetime of the scheduler

The scheduler is a local variable of `thread_func`, and `m_scheduler` keeps its address when the
function returns. The worker is on its way out as soon as a `quit` is kept (`Quitted`), whoever has
called it. `scheduler_live`: `m_scheduler` designates a scheduler that exists, in every state and
however the worker goes on, if and only if no quit has come since the worker's `m_quit = false`;
`not_never_ended` is the destructor's `quit` after that of a callback. -/

namespace ToolsCxx.SchedulerThread.Lifetime

open ToolsCxx.Lib.Machine ToolsCxx.SchedulerThread.Model ToolsCxx.SchedulerThread.Steps
open ToolsCxx.SchedulerThread.Shutdown

/-! ### The property -/

/-- **The scheduler is live**: it exists if `m_scheduler` is not null, and no thread is about to use
one that does not exist. -/
structure Live (k : Kind) (s : State) : Prop where
  alive : s.scheduler = true → s.alive = true
  use : ∀ a, exec k s a ≠ .error (.fault .destroyed)

/-- The owner never uses a scheduler that has ended. -/
def NeverEnded (k : Kind) : Prop := ∀ l s, Run (exec k) initial l s → Live k s

/-- No quit comes after the worker has executed `m_quit = false`. -/
def Undisturbed (k : Kind) (l : List Act) : Prop :=
  ∀ l₁ a l₂ s, l = l₁ ++ a :: l₂ → Run (exec k) initial l₁ s → SetsQuit s a → ¬ Cleared s.worker

/-! ### The object -/

/-- The worker has constructed `s`, and has not destroyed it. -/
def Constructed : Worker → Prop
  | .unborn | .construct | .exited => False
  | _ => True

section
variable {k : Kind} {s s' : State} {a : Act} {l : List Act}

/-- The object exists while the worker is between its construction and its destruction. -/
theorem alive_step (hi : Inv s) (h : s.alive = true ↔ Constructed s.worker) (hs : Step k s a s') :
    s'.alive = true ↔ Constructed s'.worker := by
  cases hs with
  | create hpc =>
    rw [unborn_of_create hi.seen hpc] at h
    exact h
  | construct hpc => exact ⟨fun _ => trivial, fun _ => rfl⟩
  | destroy hpc => exact ⟨nofun, fun hc => absurd hc id⟩
  | workerAcquire hpc | publish hpc | workerRelease hpc | notify hpc | clear hpc | again hpc
  | leave hpc | body hpc =>
    rw [hpc] at h
    exact h
  | move | acquire | wait | release | quit | callback | share | clientCall | clientQuit => exact h

theorem reachable_alive (hr : Run (exec k) initial l s) :
    s.alive = true ↔ Constructed s.worker :=
  (run_invariant (P := fun s => s.alive = true ↔ Constructed s.worker)
    (fun _ _ _ hi h hs => alive_step hi h hs) hr inv_initial
    (by simp [initial, Constructed])).2

theorem constructed_of_released {w : Worker} (hr : Released w) (hw : w ≠ .exited) :
    Constructed w := by
  cases w with
  | exited => exact absurd rfl hw
  | unborn | construct | lock | publish | unlock => exact absurd hr id
  | notify | clear | test | body | destroy => trivial

/-- `quit` faults on a scheduler that does not exist only. -/
theorem alive_of_quit {pc : Quit} {f : State → Result State}
    (hf : ∀ t, f t ≠ .error (.fault .destroyed))
    (hq : (quitStep pc s >>= f) = .error (.fault .destroyed)) : s.alive = false := by
  by_contra halive
  rw [Bool.not_eq_false] at halive
  unfold quitStep at hq
  rw [check_bind_of halive] at hq
  exact hf _ hq

/-- A thread that uses the scheduler knows that the worker has released the mutex. -/
theorem destroyed_of_fault (hi : Inv s) (h : exec k s a = .error (.fault .destroyed)) :
    Released s.worker ∧ s.alive = false := by
  have hseen := hi.seen
  cases a with
  | owner =>
    have h : ownerStep k s = _ := h
    unfold ownerStep at h
    cases ho : s.owner with
    | quitting pc dtor =>
      rw [ho] at hseen
      simp only [ho] at h
      refine ⟨hseen, alive_of_quit (fun t => ?_) h⟩
      cases pc.next k <;> (intro ht; cases ht)
    | lock | woken | join =>
      simp only [ho] at h
      exact absurd h (enable_bind_ne_fault fun h => by cases h)
    | test =>
      simp only [ho] at h
      split_ifs at h
      cases k <;> cases h
    | unlock =>
      simp only [ho] at h
      cases k <;> cases h
    | create | wait | copy | read | dtor | idle | waiting | free | done =>
      simp only [ho] at h
      cases h
  | call c =>
    have h : ownerCall c s = _ := h
    unfold ownerCall at h
    cases ho : s.owner <;> cases c <;> simp only [ho] at h <;> try cases h
    rw [ho] at hseen
    refine ⟨hseen, ?_⟩
    by_contra halive
    rw [Bool.not_eq_false] at halive
    rw [check_bind_of halive] at h
    cases h
  | worker =>
    have h : threadFunc s = _ := h
    unfold threadFunc at h
    cases hw : s.worker with
    | lock =>
      simp only [hw] at h
      exact absurd h (enable_bind_ne_fault fun h => by cases h)
    | _ => simp only [hw] at h; cases h
  | client c =>
    unfold exec at h
    cases hc : s.clients c with
    | none | idle => simp only [hc] at h; cases h
    | quitting pc =>
      simp only [hc] at h
      refine ⟨hi.clients c (by rw [hc]; exact fun h => by cases h), alive_of_quit (fun t => ?_) h⟩
      cases pc.next k <;> (intro ht; cases ht)
  | share c => exact absurd h (enable_bind_ne_fault (enable_bind_ne_fault fun h => by cases h))
  | spurious | callback | clientQuit c => exact absurd h (enable_bind_ne_fault fun h => by cases h)

/-! ### Undisturbed runs -/

/-- The worker has not found `m_quit` set, and will not without another quit. -/
structure Calm (s : State) : Prop where
  worker : s.worker ≠ .destroy ∧ s.worker ≠ .exited
  quit : Cleared s.worker → s.quit = false

theorem Calm.live (hi : Inv s) (halive : s.alive = true ↔ Constructed s.worker) (h : Calm s) :
    Live k s where
  alive hpub := by
    have hw := hi.published.mp hpub
    refine halive.mpr ?_
    cases hpc : s.worker with
    | exited => exact absurd hpc h.worker.2
    | unborn | construct => rw [hpc] at hw; exact absurd hw id
    | _ => trivial
  use a hf := by
    obtain ⟨hr, hdead⟩ := destroyed_of_fault hi hf
    have := halive.mpr (constructed_of_released hr h.worker.2)
    rw [hdead] at this
    cases this

/-- A calm worker stays calm if no quit is kept. -/
theorem calm_step (h : Calm s) (hs : Step k s a s')
    (hq : SetsQuit s a → ¬ Cleared s.worker) : Calm s' := by
  obtain ⟨hw, hquit⟩ := h
  cases hs with
  | create | construct | workerAcquire | publish | workerRelease | notify =>
    exact ⟨⟨nofun, nofun⟩, nofun⟩
  | clear => exact ⟨⟨nofun, nofun⟩, fun _ => rfl⟩
  | again _ hf => exact ⟨⟨nofun, nofun⟩, fun _ => hf⟩
  | leave hpc ht =>
    rw [hpc] at hquit
    rw [hquit trivial] at ht
    cases ht
  | body hpc =>
    rw [hpc] at hquit
    exact ⟨⟨nofun, nofun⟩, hquit⟩
  | destroy hpc => exact absurd hpc hw.1
  | callback hpc => exact absurd (by rw [hpc]; trivial) (hq trivial)
  | @quit pc dtor hpc =>
    refine ⟨hw, fun hc => ?_⟩
    have hpcne : pc ≠ .set := by
      rintro rfl
      exact hq ⟨dtor, hpc⟩ hc
    simp [hquit hc, hpcne]
  | @clientQuit c pc hpc =>
    refine ⟨hw, fun hc => ?_⟩
    have hpcne : pc ≠ .set := by
      rintro rfl
      exact hq hpc hc
    simp [hquit hc, hpcne]
  | move | acquire | wait | release | share | clientCall => exact ⟨hw, hquit⟩

/-- **An undisturbed run** keeps the worker calm. -/
theorem Undisturbed.calm (hu : Undisturbed k l) (hr : Run (exec k) initial l s) : Calm s := by
  refine Run.induction (P := fun l s => Undisturbed k l → Calm s) (fun _ => ?_) ?_ hr hu
  · exact ⟨⟨nofun, nofun⟩, nofun⟩
  · intro l t a t' hl ih ha hua
    have hpre : Undisturbed k l := fun l₁ b l₂ u heq =>
      hua l₁ b (l₂ ++ [a]) u (by rw [heq, List.append_assoc]; rfl)
    exact calm_step (ih hpre) (exec_step ha) (hua l a [] t rfl hl)

/-- The worker's own steps set no `m_quit`. -/
theorem Undisturbed.append_worker (hu : Undisturbed k l) {l₂ : List Act}
    (hw : ∀ a ∈ l₂, a = .worker) : Undisturbed k (l ++ l₂) := by
  intro l₁ a l₃ t heq hr hset
  rcases List.append_eq_append_iff.mp heq with ⟨m, rfl, hm⟩ | ⟨m, rfl, hm⟩
  · have ha := hw a (by rw [hm]; simp)
    rw [ha] at hset
    exact absurd hset id
  · cases m with
    | nil =>
      have ha := hw a (by rw [List.nil_append] at hm; rw [← hm]; simp)
      rw [ha] at hset
      exact absurd hset id
    | cons b m =>
      rw [List.cons_append] at hm
      obtain ⟨rfl, -⟩ := List.cons.inj hm
      exact hu l₁ a m t rfl hr hset

/-- A quit that is kept makes the worker leave `thread_func`. -/
theorem exists_exited (h : Quitted s) :
    ∃ l s', (∀ a ∈ l, a = .worker) ∧ Run (exec k) s l s' ∧ s'.worker = .exited := by
  obtain ⟨hc, hq⟩ := h
  have hstep : ∀ {t : State}, exec k t .worker = threadFunc t := rfl
  have hdestroy : ∀ {t : State}, t.worker = .destroy →
      ∃ l s', (∀ a ∈ l, a = .worker) ∧ Run (exec k) t l s' ∧ s'.worker = .exited := by
    intro t ht
    refine ⟨[.worker], { t with alive := false, worker := .exited }, by simp, ?_, rfl⟩
    rw [run_cons]
    refine ⟨_, ?_, run_nil.mpr rfl⟩
    rw [hstep]
    unfold threadFunc
    rw [ht]
  have htest : ∀ {t : State}, t.worker = .test → t.quit = true →
      ∃ l s', (∀ a ∈ l, a = .worker) ∧ Run (exec k) t l s' ∧ s'.worker = .exited := by
    intro t ht hquit
    obtain ⟨l, s', hl, hr, hw⟩ := hdestroy (t := { t with worker := .destroy }) rfl
    refine ⟨.worker :: l, s', by simpa using hl, run_cons.mpr ⟨_, ?_, hr⟩, hw⟩
    rw [hstep]
    unfold threadFunc
    rw [ht, hquit]
    rfl
  cases hw : s.worker with
  | exited => exact ⟨[], s, by simp, run_nil.mpr rfl, hw⟩
  | destroy => exact hdestroy hw
  | test => exact htest hw hq
  | body =>
    obtain ⟨l, s', hl, hr, hx⟩ := htest (t := { s with worker := .test }) rfl hq
    refine ⟨.worker :: l, s', by simpa using hl, run_cons.mpr ⟨_, ?_, hr⟩, hx⟩
    rw [hstep]
    unfold threadFunc
    rw [hw]
  | _ => rw [hw] at hc; exact absurd hc id

end

/-! ### The lifetime -/

/-- **The scheduler is live**, in every state of a run and however the worker goes on, if and only
if no quit comes after the worker's `m_quit = false`. -/
theorem scheduler_live (k : Kind) {l : List Act} {s : State} (h : Run (exec k) initial l s) :
    (∀ l₂ s₂, (∀ a ∈ l₂, a = .worker) → Run (exec k) s l₂ s₂ → Live k s₂) ↔ Undisturbed k l := by
  constructor
  · intro hlive l₁ a l₂ s₁ heq h₁ hset hc
    rw [heq, run_append] at h
    obtain ⟨t, ht, h⟩ := h
    obtain rfl : s₁ = t := (after_eq h₁).symm.trans (after_eq ht)
    obtain ⟨t', ha, h₂⟩ := run_cons.mp h
    have hi₁ := reachable_inv h₁
    obtain ⟨hquit, hworker⟩ := hset.step (exec_step ha)
    have hquitted := (run_invariant (fun _ _ _ hi h hs => quitted_step hi h hs) h₂
      (inv_step hi₁ (exec_step ha)) ⟨by rw [hworker]; exact hc, hquit⟩).2
    obtain ⟨l₃, s₃, hl₃, h₃, hexit⟩ := exists_exited (k := k) hquitted
    have hr : Run (exec k) initial (l₁ ++ a :: (l₂ ++ l₃)) s₃ :=
      run_append.mpr ⟨s₁, h₁, run_cons.mpr ⟨t', ha, h₂.trans h₃⟩⟩
    have hpub : s₃.scheduler = true := (reachable_inv hr).published.mpr (by rw [hexit]; trivial)
    have hdead := (reachable_alive hr).mp ((hlive l₃ s₃ hl₃ h₃).alive hpub)
    rw [hexit] at hdead
    exact hdead
  · intro hu l₂ s₂ hw h₂
    have hr := h.trans h₂
    exact ((hu.append_worker hw).calm hr).live (reachable_inv hr) (reachable_alive hr)

/-- `start` has been called, and the worker has published the scheduler. -/
def started : List Act := [.call .start, .owner, .worker, .worker, .worker, .worker]

/-- The owner calls `quit` before the worker executes `m_quit = false`. -/
def undone : List Act :=
  started ++ [.owner, .owner, .owner, .owner, .call .quit, .owner, .owner, .owner, .worker, .worker]

/-- The quit is undone, and the scheduler stays live in the loop. -/
theorem scheduler_live_undone :
    (after (exec .timer) initial undone).worker = .test ∧
      Live .timer (after (exec .timer) initial (undone ++ [.worker, .worker])) := by
  have hr : Run (exec .timer) initial undone (after (exec .timer) initial undone) :=
    run_after (by decide)
  have hquits : ∀ l₁ ∈ undone.inits, ∀ a ∈ (undone.drop l₁.length).head?,
      SetsQuit (after (exec .timer) initial l₁) a →
        ¬ Cleared (after (exec .timer) initial l₁).worker := by decide
  have hundisturbed : Undisturbed .timer undone := by
    intro l₁ a l₂ s heq h₁
    rw [← after_eq h₁]
    refine hquits l₁ ((List.mem_inits _ _).mpr ⟨a :: l₂, heq.symm⟩) a ?_
    rw [heq, List.drop_left]
    rfl
  exact ⟨by decide, (scheduler_live .timer hr).mpr hundisturbed [.worker, .worker] _ (by simp)
    (run_after (by decide))⟩

/-- A callback calls `quit`, the worker leaves `thread_func`, and the owner runs the destructor. -/
def ended : List Act :=
  started ++ [.owner, .owner, .owner, .owner, .worker, .worker, .worker, .callback, .worker,
    .worker, .worker, .call .dtor, .owner]

/-- The destructor's `quit` is executed on a scheduler that has ended, in both classes. -/
theorem not_never_ended : ¬ NeverEnded .timer ∧ ¬ NeverEnded .co := by
  constructor
  · intro hall
    exact (hall ended _ (run_after (by decide))).use .owner rfl
  · intro hall
    exact (hall ended _ (run_after (by decide))).use .owner rfl

end ToolsCxx.SchedulerThread.Lifetime
