import ToolsCxx.ThreadPool.Delivery
import ToolsCxx.ThreadPool.Join
import ToolsCxx.ThreadPool.Work

/-! # `ThreadPool`: what `stop` leaves

When every call of `stop` has returned the workers have exited, because one of the calls has joined
each of them (`Ending`), and every task that was taken from the queue has been started
(`Handed`). `stop_finishes`: no task is run any more, and what was in the queue is left in it. -/

namespace ToolsCxx.ThreadPool.Finish

open ToolsCxx.Lib.Machine ToolsCxx.Lib.Counting ToolsCxx.ThreadPool.Model ToolsCxx.ThreadPool.Steps
open ToolsCxx.ThreadPool.Join (Created Over)
open ToolsCxx.ThreadPool.Delivery (Tasks taskOf)
open ToolsCxx.ThreadPool.Work (busy)

/-! ### Before `stop` -/

/-- No call of `stop` has been made, and the threads are in `m_threads`. -/
structure Untouched (s : State) : Prop where
  stop : s.stop = false
  threads : ∀ ptid ∈ s.created, ptid ∈ s.threads ∨ s.starter = .pushing ptid

section
variable {s s' : State} {a : Act}

theorem Untouched.mem_threads (h : Untouched s) (hst : ∀ ptid, s.starter ≠ .pushing ptid)
    {ptid : PthreadT} (hp : ptid ∈ s.created) : ptid ∈ s.threads :=
  (h.threads ptid hp).resolve_right (hst ptid)

theorem untouched_step (h : (∃ k, s.stoppers k ≠ .idle) ∨ Untouched s) (hs : Step s a s') :
    (∃ k, s'.stoppers k ≠ .idle) ∨ Untouched s' := by
  -- a call of `stop` that goes on
  have hgoto : ∀ {t : State} {k pc}, t.stoppers = Function.update s.stoppers k pc → pc ≠ .idle →
      (∃ k, t.stoppers k ≠ .idle) ∨ Untouched t := fun {t k pc} hu hpc =>
    .inl ⟨k, by rw [hu, Function.update_self]; exact hpc⟩
  -- the other steps
  have hsame : ∀ {t : State}, t.stoppers = s.stoppers → (Untouched s → Untouched t) →
      (∃ k, t.stoppers k ≠ .idle) ∨ Untouched t := fun hst ht =>
    h.imp (fun ⟨k, hk⟩ => ⟨k, by rw [hst]; exact hk⟩) ht
  cases hs with
  | stop | stopSet | stopBroadcast | stopLoop | stopJoin | stopClear => exact hgoto rfl nofun
  | stopTest => exact hgoto rfl (by split_ifs <;> exact nofun)
  | create hpc =>
    refine hsame rfl fun hu => ⟨hu.stop, fun ptid hp => ?_⟩
    rcases List.mem_append.mp hp with hold | hnew
    · exact .inl (hu.mem_threads (fun _ => by rw [hpc]; exact nofun) hold)
    · exact .inr (congrArg _ (List.mem_singleton.mp hnew).symm)
  | pushBack hpc =>
    refine hsame rfl fun hu => ⟨hu.stop, fun ptid hp => .inl (List.mem_append.mpr ?_)⟩
    refine (hu.threads ptid hp).imp_right fun hpush => List.mem_singleton.mpr ?_
    cases hpc.symm.trans hpush
    rfl
  | begin hpc | created hpc | latch hpc | spuriousLatch hpc =>
    refine hsame rfl fun hu => ⟨hu.stop, fun ptid hp => .inl ?_⟩
    exact hu.mem_threads (fun _ => by rw [hpc]; exact nofun) hp
  | countDown =>
    refine hsame rfl fun hu => ⟨hu.stop, fun ptid hp => ?_⟩
    refine (hu.threads ptid hp).imp_right fun hpush => ?_
    show (if s.count - 1 = 0 ∧ s.starter = .latchWaiting then Starter.latch else s.starter) = _
    rw [if_neg (by rw [hpush]; exact fun h => nomatch h.2), hpush]
  | acquire | move | block | exit | dequeue | release | increment | run | decrement | spurious
  | call | callLock | callPush | callUnlock | callSignal | callNoSignal | callWarn =>
    exact hsame rfl fun hu => ⟨hu.stop, hu.threads⟩

/-! ### After the workers have been created -/

theorem created_step (h : Created s) (hs : Step s a s') :
    Created s' ∧ s'.created = s.created := by
  have hno : ∀ {pc : Starter}, s.starter = pc → pc ≠ .latch → pc ≠ .latchWaiting →
      pc ≠ .returned → False := by
    rintro pc hpc h₁ h₂ h₃
    rcases h with h | h | h
    · exact h₁ (hpc.symm.trans h)
    · exact h₂ (hpc.symm.trans h)
    · exact h₃ (hpc.symm.trans h)
  cases hs with
  | begin hpc | create hpc | created hpc | pushBack hpc =>
    exact (hno hpc nofun nofun nofun).elim
  | spuriousLatch => exact ⟨.inl rfl, rfl⟩
  | latch =>
    refine ⟨?_, rfl⟩
    show Created (latchWait s)
    unfold latchWait Created
    dsimp only
    split_ifs
    · exact .inr (.inl rfl)
    · exact .inr (.inr rfl)
  | countDown =>
    refine ⟨?_, rfl⟩
    show Created (countDown s)
    unfold countDown Created
    dsimp only
    split_ifs
    · exact .inl rfl
    · exact h
  | acquire | move | block | exit | dequeue | release | increment | run | decrement | spurious
  | call | callLock | callPush | callUnlock | callSignal | callNoSignal | callWarn
  | stop | stopTest | stopSet | stopBroadcast | stopLoop | stopJoin | stopClear => exact ⟨h, rfl⟩

/-- A worker that has exited is in none of the steps. -/
theorem exited_step (hc : Created s) {i : ℕ} (hi : s.workers i = .exited) (hs : Step s a s') :
    s'.workers i = .exited := by
  -- the worker `j` goes on
  have hgoto : ∀ {t : State} {j pc}, t.workers = Function.update s.workers j pc →
      s.workers j ≠ .exited → t.workers i = .exited := by
    intro t j pc hw hj
    have hne : i ≠ j := fun heq => hj (heq ▸ hi)
    rw [hw, Function.update_of_ne hne]
    exact hi
  cases hs with
  | acquire hpc => exact hgoto rfl (by rcases hpc with hpc | hpc <;> rw [hpc] <;> exact nofun)
  | move hpc =>
    refine hgoto rfl fun heq => ?_
    rw [heq] at hpc
    cases hpc
  | countDown hpc | block hpc | exit hpc | dequeue hpc | release hpc | increment hpc | run hpc
  | decrement hpc | spurious hpc => exact hgoto rfl (by rw [hpc]; exact nofun)
  | callSignal _ hj => exact hgoto rfl (by rw [hj]; exact nofun)
  | create hpc => rcases hc with hc | hc | hc <;> exact nomatch hpc.symm.trans hc
  | stopBroadcast => exact congrArg Worker.wake hi
  | spuriousLatch | begin | created | pushBack | latch | call | callLock | callPush | callUnlock
  | callNoSignal | callWarn | stop | stopTest | stopSet | stopLoop | stopJoin | stopClear =>
    exact hi

/-- The workers have left `thread_func`. -/
def AllExited (s : State) : Prop := ∀ i < s.created.length, s.workers i = .exited

theorem allExited_step (hc : Created s) (h : AllExited s) (hs : Step s a s') : AllExited s' := by
  intro i hi
  rw [(created_step hc hs).2] at hi
  exact exited_step hc (h i hi) hs

/-! ### The calls of `stop` -/

/-- The call has set `m_stop`, and will join the threads. -/
def inStop : Stopper → Bool
  | .broadcast | .loop | .joining _ => true
  | _ => false

/-- **The end of the pool**: whoever takes the threads out of `m_threads` has joined them. -/
structure Ending (s : State) : Prop where
  created : Created s
  threads : AllExited s ∨ ∀ ptid ∈ s.created, ptid ∈ s.threads
  joining : ∀ k rest, s.stoppers k = .joining rest →
    ∀ i ptid, s.created[i]? = some ptid → ptid ∈ rest ∨ s.workers i = .exited
  stopped : s.stop = true → AllExited s ∨ ∃ k, inStop (s.stoppers k) = true
  isStopped : ∀ k, s.stoppers k = .done ∨ inStop (s.stoppers k) = true → s.stop = true

theorem ending_of_untouched (hc : Created s) (hu : Untouched s)
    (hidle : ∀ k, s.stoppers k = .idle) : Ending s where
  created := hc
  threads := .inr fun _ => hu.mem_threads fun ptid hpush => by
    rcases hc with hc | hc | hc <;> exact nomatch hpush.symm.trans hc
  joining k rest hk := nomatch (hidle k).symm.trans hk
  stopped hs := nomatch hu.stop.symm.trans hs
  isStopped k hk := by
    rw [hidle k] at hk
    exact hk.elim nofun nofun

/-- No call of `stop` goes on. -/
theorem Ending.congr (h : Ending s) (hs : Step s a s') (ht : s'.threads = s.threads)
    (hstop : s'.stop = s.stop) (hstoppers : s'.stoppers = s.stoppers) : Ending s' where
  created := (created_step h.created hs).1
  threads := by
    rw [ht, (created_step h.created hs).2]
    exact h.threads.imp_left fun hall => allExited_step h.created hall hs
  joining k rest hk i ptid hi := by
    rw [hstoppers] at hk
    rw [(created_step h.created hs).2] at hi
    exact (h.joining k rest hk i ptid hi).imp_right fun hexited => exited_step h.created hexited hs
  stopped hst := by
    rw [hstop] at hst
    rw [hstoppers]
    exact (h.stopped hst).imp_left fun hall => allExited_step h.created hall hs
  isStopped k hk := by
    rw [hstoppers] at hk
    exact hstop.trans (h.isStopped k hk)

/-- The call of `stop` by the thread `k` goes on. -/
theorem Ending.goto (h : Ending s) (hs : Step s a s') {k : ℕ} {pc : Stopper}
    (hstoppers : s'.stoppers = Function.update s.stoppers k pc)
    (ht : AllExited s ∨ ∀ ptid ∈ s.created, ptid ∈ s'.threads)
    (hjoin : ∀ rest, pc = .joining rest →
      ∀ i ptid, s.created[i]? = some ptid → ptid ∈ rest ∨ s.workers i = .exited)
    (hstop : s'.stop = s.stop ∨ s'.stop = true ∧ inStop pc = true)
    (hin : inStop (s.stoppers k) = true → AllExited s ∨ inStop pc = true)
    (hpc : pc = .done ∨ inStop pc = true → s'.stop = true) : Ending s' where
  created := (created_step h.created hs).1
  threads := by
    rw [(created_step h.created hs).2]
    exact ht.imp_left fun hall => allExited_step h.created hall hs
  joining j rest hj i ptid hi := by
    rw [(created_step h.created hs).2] at hi
    rw [hstoppers, Function.update_apply] at hj
    split_ifs at hj
    · exact (hjoin rest hj i ptid hi).imp_right fun hex => exited_step h.created hex hs
    · exact (h.joining j rest hj i ptid hi).imp_right fun hex => exited_step h.created hex hs
  stopped hst := by
    have hself : s'.stoppers k = pc := by rw [hstoppers, Function.update_self]
    rcases hstop with hstop | ⟨-, hset⟩
    · rcases h.stopped (hstop.symm.trans hst) with hall | ⟨j, hj⟩
      · exact .inl (allExited_step h.created hall hs)
      · by_cases hjk : j = k
        · refine (hin (hjk ▸ hj)).imp (fun hall => allExited_step h.created hall hs) fun hpc => ?_
          exact ⟨k, hself.symm ▸ hpc⟩
        · exact .inr ⟨j, by rw [hstoppers, Function.update_of_ne hjk]; exact hj⟩
    · exact .inr ⟨k, hself.symm ▸ hset⟩
  isStopped j hj := by
    rw [hstoppers, Function.update_apply] at hj
    split_ifs at hj
    · exact hpc hj
    · rcases hstop with hstop | ⟨hstop, -⟩
      · exact hstop.trans (h.isStopped j hj)
      · exact hstop

theorem ending_step (h : Ending s) (hs : Step s a s') : Ending s' := by
  have hcopy := hs
  -- what a call that goes on has already found out
  have hin : ∀ {k pc}, s.stoppers k = pc → inStop pc = true → s.stop = true := fun hpc hin =>
    h.isStopped _ (.inr (hpc.symm ▸ hin))
  cases hs with
  | stop hpc =>
    exact h.goto hcopy rfl h.threads nofun (.inl rfl) (by rw [hpc]; exact nofun)
      fun hno => hno.elim nofun nofun
  | stopTest hpc =>
    refine h.goto hcopy rfl h.threads (by split_ifs <;> exact nofun) (.inl rfl)
      (by rw [hpc]; exact nofun) fun hno => ?_
    show s.stop = true
    by_contra hfalse
    rw [if_neg hfalse] at hno
    exact hno.elim nofun nofun
  | stopSet hpc =>
    exact h.goto hcopy rfl h.threads nofun (.inr ⟨rfl, rfl⟩) (fun _ => .inr rfl) fun _ => rfl
  | stopBroadcast hpc =>
    exact h.goto hcopy rfl h.threads nofun (.inl rfl) (fun _ => .inr rfl) fun _ => hin hpc rfl
  | stopLoop hpc =>
    refine h.goto hcopy rfl h.threads ?_ (.inl rfl) (fun _ => .inr rfl) fun _ => hin hpc rfl
    rintro rest ⟨⟩ i ptid hi
    rcases h.threads with hall | hmem
    · exact .inr (hall i (List.getElem?_eq_some_iff.mp hi).1)
    · exact .inl (hmem ptid (List.mem_of_getElem? hi))
  | stopJoin hpc hjoin =>
    refine h.goto hcopy rfl h.threads ?_ (.inl rfl) (fun _ => .inr rfl) fun _ => hin hpc rfl
    rintro rest ⟨⟩ i ptid hi
    rcases h.joining _ _ hpc i ptid hi with hmem | hexited
    · rcases List.mem_cons.mp hmem with rfl | hmem
      · exact .inr (hjoin i (List.getElem?_eq_some_iff.mp hi).1 hi)
      · exact .inl hmem
    · exact .inr hexited
  | stopClear hpc =>
    have hall : AllExited s := fun i hi =>
      (h.joining _ _ hpc i _ (List.getElem?_eq_getElem hi)).resolve_left List.not_mem_nil
    exact h.goto hcopy rfl (.inl hall) nofun (.inl rfl) (fun _ => .inl hall) fun _ => hin hpc rfl
  | pushBack hpc => rcases h.created with hc | hc | hc <;> exact nomatch hpc.symm.trans hc
  | acquire | move | countDown | block | exit | dequeue | release | increment | run | decrement
  | spurious | spuriousLatch | begin | create | created | latch | call | callLock | callPush
  | callUnlock | callSignal | callNoSignal | callWarn => exact h.congr hcopy rfl rfl rfl

/-! ### The tasks that were taken -/

/-- A task that was taken from the queue has been started, or a worker holds it. -/
def Handed (s : State) : Prop :=
  ∀ k < s.dequeued.length, k ∈ s.started.map Prod.snd ∨
    ∃ i task, taskOf (s.workers i) = some (k, task)

theorem taskOf_update {f : ℕ → Worker} {i : ℕ} {pc : Worker} (h : taskOf pc = taskOf (f i))
    (j : ℕ) : taskOf (Function.update f i pc j) = taskOf (f j) := by
  rw [Function.update_apply]
  split_ifs with hji
  · rw [hji, h]
  · rfl

theorem Handed.congr (h : Handed s) (hw : ∀ i, taskOf (s'.workers i) = taskOf (s.workers i))
    (hd : s'.dequeued = s.dequeued) (hs : s'.started = s.started) : Handed s' := by
  intro k hk
  rw [hd] at hk
  rw [hs]
  refine (h k hk).imp_right fun ⟨i, task, hi⟩ => ⟨i, task, (hw i).trans hi⟩

/-- A worker that holds a task does not just go on. -/
theorem Move.taskOf_eq {pc pc' : Worker} (hm : Move s pc pc') : taskOf pc' = taskOf pc := by
  cases hm <;> rfl

theorem handed_step (hinv : Inv s) (h : Handed s) (hs : Step s a s') : Handed s' := by
  cases hs with
  | @dequeue i task rest hpc =>
    intro k hk
    have hk : k < s.dequeued.length + 1 := hk.trans_eq List.length_append
    rcases Nat.lt_succ_iff_lt_or_eq.mp hk with hlt | rfl
    · refine (h k hlt).imp_right fun ⟨j, task', hj⟩ => ⟨j, task', ?_⟩
      have hne : j ≠ i := fun heq => by rw [heq, hpc] at hj; cases hj
      exact (congrArg taskOf (Function.update_of_ne hne _ _)).trans hj
    · exact .inr ⟨i, task, congrArg taskOf (Function.update_self i _ s.workers)⟩
  | @run i k task hpc =>
    intro k' hk'
    show k' ∈ (s.started ++ [(i, k)]).map Prod.snd ∨ _
    rw [List.map_append]
    rcases h k' hk' with hold | ⟨j, task', hj⟩
    · exact .inl (List.mem_append_left _ hold)
    · by_cases hji : j = i
      · rw [hji, hpc] at hj
        cases hj
        exact .inl (List.mem_append_right _ List.mem_cons_self)
      · refine .inr ⟨j, task', ?_⟩
        exact (congrArg taskOf (Function.update_of_ne hji _ _)).trans hj
  | acquire hpc =>
    refine h.congr (taskOf_update ?_) rfl rfl
    rcases hpc with hpc | hpc <;> exact (congrArg taskOf hpc).symm
  | move hpc => exact h.congr (taskOf_update (Move.taskOf_eq hpc)) rfl rfl
  | countDown hpc | block hpc | exit hpc | release hpc | increment hpc | decrement hpc
  | spurious hpc => exact h.congr (taskOf_update (congrArg taskOf hpc).symm) rfl rfl
  | callSignal _ hi => exact h.congr (taskOf_update (congrArg taskOf hi).symm) rfl rfl
  | create =>
    exact h.congr (taskOf_update (congrArg taskOf ((hinv.born _).mpr le_rfl)).symm) rfl rfl
  | stopBroadcast => exact h.congr (fun i => Delivery.wake_taskOf (s.workers i)) rfl rfl
  | spuriousLatch | begin | created | pushBack | latch | call | callLock | callPush | callUnlock
  | callNoSignal | callWarn | stop | stopTest | stopSet | stopLoop | stopJoin | stopClear =>
    exact h.congr (fun _ => rfl) rfl rfl

/-- When the workers have exited no task is taken or run. -/
theorem frozen_step (hinv : Inv s) (h : AllExited s) (hs : Step s a s') :
    s'.dequeued = s.dequeued ∧ s'.started = s.started ∧ s'.runningNum = s.runningNum := by
  have hno : ∀ {i pc}, s.workers i = pc → pc ≠ .unborn → pc ≠ .exited → False := by
    intro i pc hpc hborn hexited
    have hi : i < s.created.length := by
      by_contra hge
      exact hborn (hpc.symm.trans ((hinv.born i).mpr (not_lt.mp hge)))
    exact hexited (hpc.symm.trans (h i hi))
  cases hs with
  | dequeue hpc | run hpc | increment hpc | decrement hpc => exact (hno hpc nofun nofun).elim
  | _ => exact ⟨rfl, rfl, rfl⟩

end

/-! ### The runs -/

section
variable {n : ℕ} {s₁ s₂ s₃ : State} {l₁ l₂ : List Act}

theorem untouched_run (h₁ : Run exec (initial n) l₁ s₁) (hidle : ∀ k, s₁.stoppers k = .idle) :
    Untouched s₁ := by
  have huntouched := (run_invariant (fun _ _ _ _ h hs => untouched_step h hs) h₁ (inv_initial n)
    (.inr ⟨rfl, fun _ hp => absurd hp List.not_mem_nil⟩)).2
  exact huntouched.resolve_left fun ⟨k, hk⟩ => hk (hidle k)

/-- The workers have exited when every call of `stop` has returned. -/
theorem Ending.allExited (h : Ending s₂) (hover : Over s₂) : AllExited s₂ := by
  obtain ⟨⟨k, hk⟩, hall⟩ := hover
  refine (h.stopped (h.isStopped k (.inl hk))).resolve_right fun ⟨j, hj⟩ => ?_
  rcases hall j with hidle | hdone
  · rw [hidle] at hj
    cases hj
  · rw [hdone] at hj
    cases hj

/-- Nothing is done any more. -/
theorem frozen_run {l₃ : List Act} (hinv : Inv s₂) (hc : Created s₂) (h : AllExited s₂)
    (h₃ : Run exec s₂ l₃ s₃) : s₃.dequeued = s₂.dequeued ∧ s₃.started = s₂.started ∧
      s₃.runningNum = s₂.runningNum := by
  refine (run_invariant (P := fun t => (Created t ∧ AllExited t) ∧ t.dequeued = s₂.dequeued ∧
    t.started = s₂.started ∧ t.runningNum = s₂.runningNum) ?_ h₃ hinv ⟨⟨hc, h⟩, rfl, rfl, rfl⟩).2.2
  rintro t t' a hinv ⟨⟨hc, h⟩, hd, hst, hrun⟩ hs
  obtain ⟨hd', hst', hrun'⟩ := frozen_step hinv h hs
  exact ⟨⟨(created_step hc hs).1, allExited_step hc h hs⟩, hd'.trans hd, hst'.trans hst,
    hrun'.trans hrun⟩

/-- **What `stop` leaves.** If it is called when the workers have been created, then once every call
of it has returned, all workers have exited, none is counted in `m_runningNum`, and each task that
was taken from the queue has been started exactly once. From then on no task is taken or started:
what is in the queue, or is pushed later, stays there. -/
theorem stop_finishes (h₁ : Run exec (initial n) l₁ s₁) (hc : Created s₁)
    (hidle : ∀ k, s₁.stoppers k = .idle) (h₂ : Run exec s₁ l₂ s₂) (hover : Over s₂) :
    (∀ i < s₂.created.length, s₂.workers i = .exited) ∧ s₂.runningNum = 0 ∧
      (s₂.started.map Prod.snd).Perm (List.range s₂.dequeued.length) ∧
      ∀ l₃ s₃, Run exec s₂ l₃ s₃ → s₃.dequeued = s₂.dequeued ∧ s₃.started = s₂.started ∧
        s₃.runningNum = 0 ∧ s₃.pushed = s₂.dequeued.map Prod.snd ++ s₃.taskQue := by
  have hr := h₁.trans h₂
  obtain ⟨hinv, hcounted⟩ := Work.run_counted hr
  have htasks : ∀ {l s}, Run exec (initial n) l s → Tasks s := fun hr =>
    (run_invariant (fun _ _ _ _ h hs => Delivery.tasks_step h hs) hr (inv_initial n)
      (Delivery.tasks_initial n)).2
  have hhanded : Handed s₂ := (run_invariant (fun _ _ _ hinv h hs => handed_step hinv h hs) hr
    (inv_initial n) fun _ hk => absurd hk (Nat.not_lt_zero _)).2
  have hending : Ending s₂ := (run_invariant (fun _ _ _ _ h hs => ending_step h hs) h₂
    (reachable_inv h₁) (ending_of_untouched hc (untouched_run h₁ hidle) hidle)).2
  have hall := hending.allExited hover
  -- the program counter of a worker
  have hpc : ∀ i, s₂.workers i = .unborn ∨ s₂.workers i = .exited := fun i => by
    rcases lt_or_ge i s₂.created.length with hlt | hge
    · exact .inr (hall i hlt)
    · exact .inl ((hinv.born i).mpr hge)
  have hrunning : s₂.runningNum = 0 := by
    obtain ⟨m, hm, heq⟩ := hcounted.running
    have hzero : Tally busy s₂.workers 0 :=
      .zero fun i => by rcases hpc i with h | h <;> rw [h] <;> rfl
    rw [heq, hm.unique hzero]
    rfl
  refine ⟨hall, hrunning, ?_, fun l₃ s₃ h₃ => ?_⟩
  · refine (List.perm_ext_iff_of_nodup (htasks hr).nodup List.nodup_range).mpr fun k => ?_
    rw [List.mem_range]
    constructor
    · intro hk
      obtain ⟨p, hp, rfl⟩ := List.mem_map.mp hk
      obtain ⟨task, hget⟩ := (htasks hr).started p hp
      exact (List.getElem?_eq_some_iff.mp hget).1
    · intro hk
      refine (hhanded k hk).resolve_right fun ⟨i, task, hi⟩ => ?_
      rcases hpc i with h | h <;> rw [h] at hi <;> cases hi
  · obtain ⟨hd, hst, hrun⟩ := frozen_run hinv hending.created hall h₃
    refine ⟨hd, hst, hrun.trans hrunning, ?_⟩
    rw [← (htasks (hr.trans h₃)).fifo, hd]

end

/-- The thread whose call of `stop` goes on. -/
def stopperOf : Act → Option ℕ
  | .stop k | .stopper k => some k
  | _ => none

theorem stoppers_step {s s' : State} {a : Act} {k : ℕ} (hs : Step s a s')
    (ha : stopperOf a ≠ some k) : s'.stoppers k = s.stoppers k := by
  have hne : ∀ {j}, some j ≠ some k → k ≠ j := fun hj heq => hj (congrArg some heq.symm)
  cases hs with
  | stop | stopTest | stopSet | stopBroadcast | stopLoop | stopJoin | stopClear =>
    exact Function.update_of_ne (hne ha) _ _
  | _ => rfl

/-- A call of `stop` is where it was, if its thread has not gone on. -/
theorem stoppers_run {s s' : State} {l : List Act} {k : ℕ} (hr : Run exec s l s')
    (hl : ∀ a ∈ l, stopperOf a ≠ some k) : s'.stoppers k = s.stoppers k := by
  induction l generalizing s with
  | nil => rw [run_nil.mp hr]
  | cons a l ih =>
    obtain ⟨t, ha, hr⟩ := run_cons.mp hr
    rw [ih hr fun b hb => hl b (List.mem_cons_of_mem a hb)]
    exact stoppers_step (exec_step ha) (hl a List.mem_cons_self)

/-- `start` creates one worker. -/
def oneWorker : List Act := [.start 0, .start 7, .start 0, .start 0]

/-- A caller pushes a task. -/
def pushes (task : Task) (target : Option ℕ) : List Act :=
  .call 3 task :: List.replicate 5 (.caller 3 target)

/-- The worker blocks, and is woken for a task; it has run it when `stop` is called, and another
task is pushed meanwhile. -/
def oneTask : List Act :=
  List.replicate 6 (.worker 0) ++ pushes 5 (some 0) ++ List.replicate 10 (.worker 0) ++ [.stop 1] ++
    List.replicate 5 (.stopper 1) ++ pushes 6 none ++ List.replicate 4 (.worker 0) ++
    List.replicate 2 (.stopper 1)

theorem stop_finishes_oneTask :
    let s := after exec (after exec (initial 1) oneWorker) oneTask
    (∀ i < s.created.length, s.workers i = .exited) ∧ s.runningNum = 0 ∧
      (s.started.map Prod.snd).Perm (List.range s.dequeued.length) ∧
      ∀ l' s', Run exec s l' s' → s'.dequeued = s.dequeued ∧ s'.started = s.started ∧
        s'.runningNum = 0 ∧ s'.pushed = s.dequeued.map Prod.snd ++ s'.taskQue := by
  have h₁ : Run exec (initial 1) oneWorker (after exec (initial 1) oneWorker) :=
    run_after (by decide +kernel)
  have h₂ : Run exec _ oneTask (after exec (after exec (initial 1) oneWorker) oneTask) :=
    run_after (by decide +kernel)
  have hnone : ∀ a ∈ oneWorker, stopperOf a = none := by decide
  have hidle : ∀ k, (after exec (initial 1) oneWorker).stoppers k = .idle := fun k =>
    stoppers_run h₁ fun a ha hno => nomatch (hnone a ha).symm.trans hno
  refine stop_finishes h₁ (.inl (by decide +kernel)) hidle h₂ ⟨⟨1, by decide +kernel⟩, fun k => ?_⟩
  by_cases hk : k = 1
  · rw [hk]
    exact .inr (by decide +kernel)
  · refine .inl ((stoppers_run h₂ fun a ha hno => ?_).trans (hidle k))
    have hone : ∀ a ∈ oneTask, stopperOf a = none ∨ stopperOf a = some 1 := by decide
    rcases hone a ha with h | h
    · exact nomatch h.symm.trans hno
    · exact hk (Option.some.inj (hno.symm.trans h))

/-- One task is run, the other one stays in the queue. -/
example : let s := after exec (after exec (initial 1) oneWorker) oneTask
    s.started = [(0, 0)] ∧ s.taskQue = [6] := by decide +kernel

end ToolsCxx.ThreadPool.Finish
