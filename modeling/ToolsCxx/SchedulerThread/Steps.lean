import ToolsCxx.SchedulerThread.Model
import ToolsCxx.Lib.Lock

/-! # `TimerSchedulerThread` and `CoSchedulerThread`: what each step does

`Step k s a s'` lists the steps of the threads with their guards; `exec_step` says that the actions
are these steps. `Inv` is what every reachable state satisfies: the mutex is held by the thread
inside its critical section, and a thread that has seen `m_scheduler` knows that the worker has
published it and released the mutex (`Released`). -/

namespace ToolsCxx.SchedulerThread.Steps

open ToolsCxx.Lib.Machine ToolsCxx.Lib.Lock ToolsCxx.SchedulerThread.Model

/-! ### The steps -/

/-- The owner goes on, and nothing else changes. -/
inductive Move (k : Kind) (s : State) : Act → Owner → Owner → Prop where
  | null (hnull : s.scheduler = false) : Move k s .owner .test .wait
  | seenTimer (hseen : s.scheduler = true) (hk : k = .timer) : Move k s .owner .test .unlock
  | seenCo (hseen : s.scheduler = true) (hk : k = .co) : Move k s .owner .test .copy
  | copy : Move k s .owner .copy .unlock
  | read : Move k s .owner .read .free
  | dtorQuit (hseen : s.scheduler = true) : Move k s .owner .dtor (.quitting .set true)
  | dtorNull (hnull : s.scheduler = false) : Move k s .owner .dtor .done
  | join (hexit : s.worker = .exited) : Move k s .owner .join .done
  | start : Move k s (.call .start) .idle .create
  | dtorIdle : Move k s (.call .dtor) .idle .dtor
  | dtorFree : Move k s (.call .dtor) .free .dtor
  | quit : Move k s (.call .quit) .free (.quitting .set false)
  | use (halive : s.alive = true) : Move k s (.call .use) .free .free
  | spurious : Move k s .spurious .waiting .woken

/-- Where a thread goes on after the step of `quit` at `pc`. -/
def afterQuit {β : Type} (k : Kind) (pc : Quit) (quitting : Quit → β) (idle : β) : β :=
  ((pc.next k).map quitting).getD idle

/-- The steps of the threads. -/
inductive Step (k : Kind) (s : State) : Act → State → Prop where
  | move {a : Act} {pc : Owner} (hpc : Move k s a s.owner pc) : Step k s a { s with owner := pc }
  | create (hpc : s.owner = .create) :
    Step k s .owner { s with owner := .lock, worker := .construct }
  | acquire (hpc : s.owner = .lock ∨ s.owner = .woken) (hm : s.mutex = none) :
    Step k s .owner { s with mutex := some .owner, owner := .test }
  | wait (hpc : s.owner = .wait) : Step k s .owner { s with mutex := none, owner := .waiting }
  | release {pc : Owner} (hpc : s.owner = .unlock) (hk : pc = .read ∨ pc = .free) :
    Step k s .owner { s with mutex := none, owner := pc }
  | quit {pc : Quit} {dtor : Bool} (hpc : s.owner = .quitting pc dtor) (halive : s.alive = true) :
    Step k s .owner { s with
      quit := s.quit || decide (pc = .set)
      owner := afterQuit k pc (.quitting · dtor) (if dtor then .join else .free) }
  | construct (hpc : s.worker = .construct) :
    Step k s .worker { s with alive := true, quit := false, worker := .lock }
  | workerAcquire (hpc : s.worker = .lock) (hm : s.mutex = none) :
    Step k s .worker { s with mutex := some .worker, worker := .publish }
  | publish (hpc : s.worker = .publish) :
    Step k s .worker { s with scheduler := true, worker := .unlock }
  | workerRelease (hpc : s.worker = .unlock) :
    Step k s .worker { s with mutex := none, worker := .notify }
  | notify (hpc : s.worker = .notify) :
    Step k s .worker { s with
      owner := if s.owner = .waiting then .woken else s.owner
      worker := .clear }
  | clear (hpc : s.worker = .clear) : Step k s .worker { s with quit := false, worker := .test }
  | again (hpc : s.worker = .test) (hq : s.quit = false) :
    Step k s .worker { s with worker := .body }
  | leave (hpc : s.worker = .test) (hq : s.quit = true) :
    Step k s .worker { s with worker := .destroy }
  | body (hpc : s.worker = .body) : Step k s .worker { s with worker := .test }
  | callback (hpc : s.worker = .body) : Step k s .callback { s with quit := true }
  | destroy (hpc : s.worker = .destroy) :
    Step k s .worker { s with alive := false, worker := .exited }
  | share {c : ℕ} (hpc : s.owner = .free) (hc : s.clients c = .none) :
    Step k s (.share c) { s with clients := Function.update s.clients c .idle }
  | clientCall {c : ℕ} (hc : s.clients c = .idle) :
    Step k s (.clientQuit c) { s with clients := Function.update s.clients c (.quitting .set) }
  | clientQuit {c : ℕ} {pc : Quit} (hc : s.clients c = .quitting pc) (halive : s.alive = true) :
    Step k s (.client c) { s with
      quit := s.quit || decide (pc = .set)
      clients := Function.update s.clients c (afterQuit k pc .quitting .idle) }

section
variable {k : Kind} {s s' : State}

/-- The step of `quit` sets `m_quit`, or changes nothing. -/
theorem quitStep_eq_ok {pc : Quit} : quitStep pc s = .ok s' ↔
    s.alive = true ∧ s' = { s with quit := s.quit || decide (pc = .set) } := by
  unfold quitStep
  rw [check_bind_eq_ok]
  refine and_congr_right fun _ => ?_
  cases pc with
  | set => simp [pure, Except.pure, eq_comm]
  | tid | write =>
    simp only [pure, Except.pure, Except.ok.injEq, reduceCtorEq, decide_false, Bool.or_false]
    exact eq_comm

theorem ownerStep_step (h : ownerStep k s = .ok s') : Step k s .owner s' := by
  have hmove : ∀ {pc}, Move k s .owner s.owner pc → s' = { s with owner := pc } →
      Step k s .owner s' := fun hm he => he ▸ .move hm
  unfold ownerStep at h
  cases hpc : s.owner with
  | create =>
    simp only [hpc] at h
    cases h
    exact .create hpc
  | lock | woken =>
    simp only [hpc, enable_bind_eq_ok] at h
    obtain ⟨hm, h⟩ := h
    cases h
    exact .acquire (by simp [hpc]) hm
  | test =>
    simp only [hpc] at h hmove
    split_ifs at h with hs
    · cases hk : k with
      | timer => rw [hk] at h; cases h; exact hk ▸ hmove (.seenTimer hs hk) rfl
      | co => rw [hk] at h; cases h; exact hk ▸ hmove (.seenCo hs hk) rfl
    · cases h
      exact hmove (.null (Bool.eq_false_iff.mpr hs)) rfl
  | wait =>
    simp only [hpc] at h
    cases h
    exact .wait hpc
  | copy =>
    simp only [hpc] at h hmove
    cases h
    exact hmove .copy rfl
  | unlock =>
    simp only [hpc] at h
    cases k with
    | timer => cases h; exact .release hpc (Or.inl rfl)
    | co => cases h; exact .release hpc (Or.inr rfl)
  | read =>
    simp only [hpc] at h hmove
    cases h
    exact hmove .read rfl
  | quitting pc dtor =>
    simp only [hpc, bind_eq_ok, quitStep_eq_ok] at h
    obtain ⟨t, ⟨halive, rfl⟩, h⟩ := h
    have hstep := Step.quit (k := k) hpc halive
    unfold afterQuit at hstep
    cases hn : pc.next k with
    | none => rw [hn] at h hstep; cases h; exact hstep
    | some pc' => rw [hn] at h hstep; cases h; exact hstep
  | dtor =>
    simp only [hpc] at h hmove
    cases h
    by_cases hs : s.scheduler = true
    · exact hmove (.dtorQuit hs) (by rw [if_pos hs])
    · exact hmove (.dtorNull (Bool.eq_false_iff.mpr hs)) (by rw [if_neg hs])
  | join =>
    simp only [hpc, enable_bind_eq_ok] at h hmove
    obtain ⟨hexit, h⟩ := h
    cases h
    exact hmove (.join hexit) rfl
  | idle | waiting | free | done => simp only [hpc] at h; cases h

theorem ownerCall_step {c : Call} (h : ownerCall c s = .ok s') : Step k s (.call c) s' := by
  have hmove : ∀ {pc}, Move k s (.call c) s.owner pc → s' = { s with owner := pc } →
      Step k s (.call c) s' := fun hm he => he ▸ .move hm
  unfold ownerCall at h
  cases hpc : s.owner with
  | idle =>
    cases c with
    | start => simp only [hpc] at h hmove; cases h; exact hmove .start rfl
    | dtor => simp only [hpc] at h hmove; cases h; exact hmove .dtorIdle rfl
    | quit | use => simp only [hpc] at h; cases h
  | free =>
    cases c with
    | dtor => simp only [hpc] at h hmove; cases h; exact hmove .dtorFree rfl
    | quit => simp only [hpc] at h hmove; cases h; exact hmove .quit rfl
    | use =>
      simp only [hpc, check_bind_eq_ok] at h hmove
      obtain ⟨halive, h⟩ := h
      cases h
      exact hmove (.use halive) (by rw [← hpc])
    | start => simp only [hpc] at h; cases h
  | create | lock | test | wait | waiting | woken | copy | unlock | read | quitting | dtor | join
  | done => simp only [hpc] at h; cases h

theorem threadFunc_step (h : threadFunc s = .ok s') : Step k s .worker s' := by
  unfold threadFunc at h
  cases hpc : s.worker with
  | lock =>
    simp only [hpc, enable_bind_eq_ok] at h
    obtain ⟨hm, h⟩ := h
    cases h
    exact .workerAcquire hpc hm
  | test =>
    simp only [hpc] at h
    cases h
    by_cases hq : s.quit = true
    · rw [if_pos hq]; exact .leave hpc hq
    · rw [if_neg hq]; exact .again hpc (Bool.eq_false_iff.mpr hq)
  | construct => simp only [hpc] at h; cases h; exact .construct hpc
  | publish => simp only [hpc] at h; cases h; exact .publish hpc
  | unlock => simp only [hpc] at h; cases h; exact .workerRelease hpc
  | notify => simp only [hpc] at h; cases h; exact .notify hpc
  | clear => simp only [hpc] at h; cases h; exact .clear hpc
  | body => simp only [hpc] at h; cases h; exact .body hpc
  | destroy => simp only [hpc] at h; cases h; exact .destroy hpc
  | unborn | exited => simp only [hpc] at h; cases h

/-- **The actions are the steps.** -/
theorem exec_step {a : Act} (h : exec k s a = .ok s') : Step k s a s' := by
  cases a with
  | owner => exact ownerStep_step h
  | call c => exact ownerCall_step h
  | worker => exact threadFunc_step h
  | spurious =>
    obtain ⟨hpc, h⟩ := enable_bind_eq_ok.mp h
    cases h
    exact .move (by rw [hpc]; exact .spurious)
  | callback =>
    obtain ⟨hpc, h⟩ := enable_bind_eq_ok.mp h
    cases h
    exact .callback hpc
  | share c =>
    obtain ⟨hpc, h⟩ := enable_bind_eq_ok.mp h
    obtain ⟨hc, h⟩ := enable_bind_eq_ok.mp h
    cases h
    exact .share hpc hc
  | clientQuit c =>
    obtain ⟨hc, h⟩ := enable_bind_eq_ok.mp h
    cases h
    exact .clientCall hc
  | client c =>
    unfold exec at h
    cases hc : s.clients c with
    | none | idle => simp only [hc] at h; cases h
    | quitting pc =>
      simp only [hc, bind_eq_ok, quitStep_eq_ok] at h
      obtain ⟨t, ⟨halive, rfl⟩, h⟩ := h
      have hstep := Step.clientQuit (k := k) hc halive
      unfold afterQuit at hstep
      cases hn : pc.next k with
      | none => rw [hn] at h hstep; cases h; exact hstep
      | some pc' => rw [hn] at h hstep; cases h; exact hstep

/-! ### What every state satisfies -/

/-- The worker has stored `m_scheduler`. -/
def Published : Worker → Prop
  | .unborn | .construct | .lock | .publish => False
  | _ => True

/-- It has released the mutex since. -/
def Released : Worker → Prop
  | .unborn | .construct | .lock | .publish | .unlock => False
  | _ => True

/-- The owner holds the mutex. -/
def ownerHolds : Owner → Bool
  | .test | .wait | .copy | .unlock => true
  | _ => false

/-- The worker does. -/
def workerHolds : Worker → Bool
  | .publish | .unlock => true
  | _ => false

/-- The thread does. -/
def Holds (o : Owner) (w : Worker) : Thread → Prop
  | .owner => ownerHolds o = true
  | .worker => workerHolds w = true

/-- What the position of the owner says about the worker. -/
def Seen : Owner → Worker → Prop
  | .idle, w | .create, w => w = .unborn
  | .copy, w | .unlock, w | .read, w | .free, w | .quitting _ _, w | .join, w => Released w
  | .dtor, w | .done, w => w = .unborn ∨ Released w
  | .lock, _ | .test, _ | .wait, _ | .waiting, _ | .woken, _ => True

/-- **What every reachable state satisfies.** -/
structure Inv (s : State) : Prop where
  guarded : Guarded s.mutex (Holds s.owner s.worker)
  published : s.scheduler = true ↔ Published s.worker
  seen : Seen s.owner s.worker
  clients : ∀ c, s.clients c ≠ .none → Released s.worker

theorem inv_initial : Inv initial where
  guarded t := by cases t <;> simp [Holds, ownerHolds, workerHolds, initial]
  published := by simp [Published, initial]
  seen := rfl
  clients _ h := absurd rfl h

theorem seen_worker {o : Owner} {w w' : Worker} (h : Seen o w) (hborn : w ≠ .unborn)
    (hr : Released w → Released w') : Seen o w' := by
  cases o with
  | idle | create => exact absurd h hborn
  | copy | unlock | read | free | quitting | join => exact hr h
  | dtor | done => exact Or.inr (hr (h.resolve_left hborn))
  | lock | test | wait | waiting | woken => exact trivial

theorem unborn_of_create (h : Seen s.owner s.worker) (hpc : s.owner = .create) :
    s.worker = .unborn := by
  rw [hpc] at h
  exact h

section
variable {a : Act}

/-! ### The mutex -/

theorem Move.holds {o o' : Owner} (h : Move k s a o o') : ownerHolds o' = ownerHolds o := by
  cases h <;> rfl

theorem ownerHolds_afterQuit {pc : Quit} {dtor : Bool} :
    ownerHolds (afterQuit k pc (.quitting · dtor) (if dtor then .join else .free)) = false := by
  cases pc <;> cases k <;> cases dtor <;> rfl

theorem holds_owner_of_ne {o o' : Owner} {w : Worker} {t : Thread} (ht : t ≠ .owner) :
    Holds o' w t ↔ Holds o w t := by
  cases t with
  | owner => exact absurd rfl ht
  | worker => exact Iff.rfl

theorem holds_worker_of_ne {o : Owner} {w w' : Worker} {t : Thread} (ht : t ≠ .worker) :
    Holds o w' t ↔ Holds o w t := by
  cases t with
  | owner => exact Iff.rfl
  | worker => exact absurd rfl ht

/-- **The mutex is held** by the thread inside its critical section. -/
theorem guarded_step (h : Guarded s.mutex (Holds s.owner s.worker)) (hseen : Seen s.owner s.worker)
    (hs : Step k s a s') : Guarded s'.mutex (Holds s'.owner s'.worker) := by
  -- the threads stay inside or outside
  have hsame : ∀ {o w}, ownerHolds o = ownerHolds s.owner → workerHolds w = workerHolds s.worker →
      Guarded s.mutex (Holds o w) := by
    intro o w ho hw
    refine h.congr fun t => ?_
    cases t with
    | owner => show ownerHolds o = true ↔ _; rw [ho]; exact Iff.rfl
    | worker => show workerHolds w = true ↔ _; rw [hw]; exact Iff.rfl
  cases hs with
  | move hpc => exact hsame hpc.holds rfl
  | create hpc =>
    exact hsame (by rw [hpc]; rfl) (by rw [unborn_of_create hseen hpc]; rfl)
  | acquire hpc hm =>
    rw [hm] at h
    exact h.acquire (fun _ => holds_owner_of_ne) (show Holds .test _ .owner from rfl)
  | wait hpc =>
    rw [(h .owner).mp (show ownerHolds _ = true by rw [hpc]; rfl)] at h
    exact h.release (fun _ => holds_owner_of_ne) nofun
  | release hpc hk =>
    rw [(h .owner).mp (show ownerHolds _ = true by rw [hpc]; rfl)] at h
    refine h.release (fun _ => holds_owner_of_ne) ?_
    rcases hk with rfl | rfl <;> exact nofun
  | quit hpc halive => exact hsame (by rw [ownerHolds_afterQuit, hpc]; rfl) rfl
  | workerAcquire hpc hm =>
    rw [hm] at h
    exact h.acquire (fun _ => holds_worker_of_ne) (show Holds _ .publish .worker from rfl)
  | workerRelease hpc =>
    rw [(h .worker).mp (show workerHolds _ = true by rw [hpc]; rfl)] at h
    exact h.release (fun _ => holds_worker_of_ne) nofun
  | notify hpc =>
    refine hsame ?_ (by rw [hpc]; rfl)
    split_ifs with ho
    · rw [ho]; rfl
    · rfl
  | construct hpc | publish hpc | clear hpc | again hpc | leave hpc | body hpc | destroy hpc =>
    exact hsame rfl (by rw [hpc]; rfl)
  | callback | share | clientCall | clientQuit => exact h

/-! ### The worker -/

theorem published_step (hi : Inv s) (hs : Step k s a s') :
    s'.scheduler = true ↔ Published s'.worker := by
  have h := hi.published
  cases hs with
  | create hpc =>
    rw [unborn_of_create hi.seen hpc] at h
    exact h
  | publish hpc => exact ⟨fun _ => trivial, fun _ => rfl⟩
  | construct hpc | workerAcquire hpc | workerRelease hpc | notify hpc | clear hpc | again hpc
  | leave hpc | body hpc | destroy hpc =>
    rw [hpc] at h
    exact h
  | move | acquire | wait | release | quit | callback | share | clientCall | clientQuit => exact h

theorem released_step (hi : Inv s) (hs : Step k s a s') (h : Released s.worker) :
    Released s'.worker := by
  cases hs with
  | create hpc =>
    rw [unborn_of_create hi.seen hpc] at h
    exact absurd h id
  | construct hpc | workerAcquire hpc | publish hpc => rw [hpc] at h; exact absurd h id
  | workerRelease hpc | notify hpc | clear hpc | again hpc | leave hpc | body hpc | destroy hpc =>
    exact trivial
  | move | acquire | wait | release | quit | callback | share | clientCall | clientQuit => exact h

/-- An owner that holds the mutex and finds `m_scheduler` stored. -/
theorem Inv.released_of_test (hi : Inv s) (hpc : s.owner = .test) (hseen : s.scheduler = true) :
    Released s.worker := by
  have hp := hi.published.mp hseen
  cases hw : s.worker with
  | unborn | construct | lock | publish => rw [hw] at hp; exact absurd hp id
  | unlock =>
    have ho : Holds s.owner s.worker .owner := by rw [hpc]; rfl
    have := hi.guarded.unique ho (u := .worker) (by rw [hw]; rfl)
    cases this
  | notify | clear | test | body | destroy | exited => exact trivial

theorem seen_move {pc : Owner} (hi : Inv s) (hm : Move k s a s.owner pc) :
    Seen pc s.worker := by
  have h := hi.seen
  cases ho : s.owner with
  | test =>
    have hr := hi.released_of_test ho
    rw [ho] at hm
    cases hm with
    | null => exact trivial
    | seenTimer hseen | seenCo hseen => exact hr hseen
  | dtor =>
    rw [ho] at hm h
    cases hm with
    | dtorQuit hseen =>
      refine h.resolve_left fun hw => ?_
      have hp := hi.published.mp hseen
      rw [hw] at hp
      exact hp
    | dtorNull => exact h
  | idle =>
    rw [ho] at hm h
    cases hm with
    | start => exact h
    | dtorIdle => exact Or.inl h
  | free =>
    rw [ho] at hm h
    cases hm with
    | dtorFree => exact Or.inr h
    | quit | use => exact h
  | join =>
    rw [ho] at hm h
    cases hm
    exact Or.inr h
  | waiting => rw [ho] at hm; cases hm; exact trivial
  | copy | read => rw [ho] at hm h; cases hm; exact h
  | create | lock | wait | woken | unlock | quitting | done => rw [ho] at hm; cases hm

theorem seen_step (hi : Inv s) (hs : Step k s a s') : Seen s'.owner s'.worker := by
  have h := hi.seen
  cases hs with
  | move hpc => exact seen_move (s := s) hi hpc
  | create | acquire | wait => exact trivial
  | release hpc hk =>
    rw [hpc] at h
    rcases hk with rfl | rfl <;> exact h
  | @quit pc dtor hpc =>
    rw [hpc] at h
    cases pc <;> cases k <;> cases dtor <;> exact h
  | notify hpc =>
    split_ifs with ho
    · exact trivial
    · exact seen_worker h (by rw [hpc]; exact nofun) fun _ => trivial
  | construct hpc | workerAcquire hpc | publish hpc =>
    exact seen_worker h (by rw [hpc]; exact nofun) fun hr => by rw [hpc] at hr; exact absurd hr id
  | workerRelease hpc | clear hpc | again hpc | leave hpc | body hpc | destroy hpc =>
    exact seen_worker h (by rw [hpc]; exact nofun) fun _ => trivial
  | callback | share | clientCall | clientQuit => exact h

/-! ### The invariant -/

theorem clients_step (hi : Inv s) (hs : Step k s a s') {c : ℕ} (hc : s'.clients c ≠ .none) :
    Released s'.worker := by
  have hold : s.clients c ≠ .none → Released s'.worker :=
    fun h => released_step hi hs (hi.clients c h)
  cases hs with
  | share hpc hnone => have h := hi.seen; rw [hpc] at h; exact h
  | @clientCall d hd | @clientQuit d pc hd =>
    exact hi.clients d (by rw [hd]; exact nofun)
  | move | create | acquire | wait | release | quit | construct | workerAcquire | publish
  | workerRelease | notify | clear | again | leave | body | callback | destroy => exact hold hc

theorem inv_step (hi : Inv s) (hs : Step k s a s') : Inv s' where
  guarded := guarded_step hi.guarded hi.seen hs
  published := published_step hi hs
  seen := seen_step hi hs
  clients _ hc := clients_step hi hs hc

/-- **The invariant rule**: what the steps keep is kept by a run. -/
theorem run_invariant {P : State → Prop} (hstep : ∀ s a s', Inv s → P s → Step k s a s' → P s')
    {l : List Act} (h : Run (exec k) s l s') (hi : Inv s) (hp : P s) : Inv s' ∧ P s' :=
  h.invariant_step (A := fun _ => True)
    (fun s a s' hi (ha : exec k s a = .ok s') => ⟨exec_step ha, inv_step hi (exec_step ha)⟩)
    (fun s a s' _ hi hp hs _ => hstep s a s' hi hp hs) hi hp fun _ _ => trivial

theorem reachable_inv {l : List Act} (h : Run (exec k) initial l s) : Inv s :=
  (run_invariant (P := fun _ => True) (fun _ _ _ _ _ _ => trivial) h inv_initial trivial).1

end

end

end ToolsCxx.SchedulerThread.Steps
