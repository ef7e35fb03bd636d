import ToolsCxx.Lib.Transitions
import ToolsCxx.ThreadPool.Delivery

/-! # `ThreadPool`: every queued task can be run

Before `stop` the pool does not get stuck: as long as there is a worker and a task in the queue, a
few steps of the workers, and of the callers that are already in `call`, lead to the start of the
task at the head (`serves_head`). The number of these steps does not depend on the number of the
threads: at most the thread that holds the mutex and one worker have to go on, after a caller that
is still to signal. `queue_served`: so each task of the queue can be started, whatever its place. -/

namespace ToolsCxx.ThreadPool.Serving

open ToolsCxx.Lib.Machine ToolsCxx.Lib.Lock
open ToolsCxx.ThreadPool.Model ToolsCxx.ThreadPool.Steps
open ToolsCxx.ThreadPool.Delivery (Tasks Awake tasks_step awake_step)

/-! ### Before `stop` -/

/-- The worker has found `m_stop` set. -/
def leaving : Worker → Bool
  | .unlockStop | .exited => true
  | _ => false

/-- No worker leaves before `m_stop` is set. -/
def Stays (s : State) : Prop := s.stop = false → ∀ i, leaving (s.workers i) = false

section
variable {s s' : State} {a : Act}

theorem Move.stays {pc pc' : Worker} (hm : Move s pc pc') (hs : s.stop = false) :
    leaving pc' = false := by
  cases hm with
  | leave hstop => exact nomatch hstop.symm.trans hs
  | _ => rfl

theorem stays_step (h : Stays s) (hs : Step s a s') : Stays s' := by
  have hgoto : ∀ {t : State} {i pc}, t.stop = s.stop → t.workers = Function.update s.workers i pc →
      leaving pc = false → Stays t := by
    intro t i pc hstop hw hpc ht j
    rw [hw, Function.update_apply]
    split_ifs
    · exact hpc
    · exact h (hstop.symm.trans ht) j
  cases hs with
  | acquire | countDown | block | dequeue | release | increment | run | decrement | spurious
  | create | callSignal => exact hgoto rfl rfl rfl
  | @move i pc hpc =>
    intro ht j
    rw [workers_goto]
    split_ifs
    · exact Move.stays hpc ht
    · exact h ht j
  | @exit i hpc =>
    intro ht
    have hi := h ht i
    rw [hpc] at hi
    cases hi
  | stopSet => exact nofun
  | stopBroadcast =>
    intro ht j
    have hj := h ht j
    show leaving (s.workers j).wake = false
    cases hw : s.workers j <;> rw [hw] at hj <;> first | rfl | exact hj
  | spuriousLatch | begin | created | pushBack | latch | call | callLock | callPush | callUnlock
  | callNoSignal | callWarn | stop | stopTest | stopLoop | stopJoin | stopClear => exact h

/-- What every state of a run has. -/
structure Good (s : State) : Prop where
  inv : Inv s
  stays : Stays s
  tasks : Tasks s
  awake : Awake s

theorem good_step (h : Good s) (hs : Step s a s') : Good s' :=
  ⟨inv_step h.inv hs, stays_step h.stays hs, tasks_step h.tasks hs, awake_step h.inv h.awake hs⟩

theorem run_good {n : ℕ} {l : List Act} (hr : Run exec (initial n) l s) : Good s :=
  (run_invariant (fun _ _ _ _ h hs => good_step h hs) hr (inv_initial n)
    ⟨inv_initial n, fun _ _ => rfl, Delivery.tasks_initial n, fun h => absurd rfl h⟩).2

end

/-! ### The next task -/

/-- How far a worker is from taking a task. -/
def workerRank : Worker → ℕ
  | .unlock .. => 10
  | .increment .. => 9
  | .start .. => 8
  | .running => 7
  | .decrement => 6
  | .lock | .woken => 5
  | .testStop => 4
  | .testQueue => 3
  | .checkStop => 2
  | .dequeue => 1
  | _ => 0

/-- How far a caller is from releasing the mutex. -/
def callerRank : Caller → ℕ
  | .push _ => 2
  | .unlock => 1
  | _ => 0

/-- How far the thread that holds the mutex is from releasing it, if it is not the worker `i`. -/
def holderRank (s : State) (i : ℕ) : ℕ :=
  match s.mutex with
  | none => 0
  | some (.worker j) => if j = i then 0 else workerRank (s.workers j)
  | some (.caller c) => callerRank (s.callers c)

/-- What is left to do until a worker has taken a task, `i` at the latest. -/
def remaining (i : ℕ) (s : State) : ℕ := workerRank (s.workers i) + holderRank s i

theorem workerRank_le (pc : Worker) : workerRank pc ≤ 10 := by
  cases pc <;> exact Nat.le_of_ble_eq_true rfl

theorem remaining_le (i : ℕ) (s : State) : remaining i s ≤ 20 := by
  have hcaller : ∀ pc, callerRank pc ≤ 10 := by rintro (_ | _) <;> exact Nat.le_of_ble_eq_true rfl
  show workerRank _ + holderRank s i ≤ 10 + 10
  refine Nat.add_le_add (workerRank_le _) ?_
  unfold holderRank
  split
  · exact Nat.zero_le _
  · split_ifs
    · exact Nat.zero_le _
    · exact workerRank_le _
  · exact hcaller _

/-- The actions that serve: no new call is made, and no thread wakes up by itself. -/
def Serves (a : Act) : Prop := (∃ i, a = .worker i) ∨ ∃ c target, a = .caller c target

/-- The task at the head of the queue, which will be number `d.length`, has not been taken. -/
structure Pending (i : ℕ) (d : List (ℕ × Task)) (task : Task) (s : State) : Prop where
  dequeued : s.dequeued = d
  head : ∃ rest, s.taskQue = task :: rest
  worker : i < s.created.length
  awake : s.workers i ≠ .waiting

/-- A worker has taken it. -/
def Taken (d : List (ℕ × Task)) (task : Task) (s : State) : Prop :=
  ∃ j, s.workers j = .unlock d.length task ∧ s.dequeued = d ++ [(j, task)]

section
variable {s s' : State} {i j : ℕ} {d : List (ℕ × Task)} {task : Task}

/-- A worker goes on, and the queue stays. -/
structure Advance (j : ℕ) (s s' : State) : Prop where
  workers : ∃ pc, s'.workers = Function.update s.workers j pc ∧
    workerRank pc < workerRank (s.workers j) ∧ pc ≠ .waiting
  callers : s'.callers = s.callers
  mutex : s'.mutex = s.mutex ∨ s'.mutex = none ∨ s'.mutex = some (.worker j)
  taskQue : s'.taskQue = s.taskQue
  dequeued : s'.dequeued = s.dequeued
  created : s'.created = s.created

/-- A worker that is not blocked takes the task, or comes nearer to taking one. -/
theorem advances (h : Good s) (hstop : s.stop = false) (hhead : ∃ rest, s.taskQue = task :: rest)
    (hd : s.dequeued = d) (hborn : s.workers j ≠ .unborn) (hwaiting : s.workers j ≠ .waiting)
    (hmutex : s.workers j = .lock ∨ s.workers j = .woken → s.mutex = none) :
    ∃ t, exec s (.worker j) = .ok t ∧ t.stop = s.stop ∧ (Taken d task t ∨ Advance j s t) := by
  obtain ⟨rest, hq⟩ := hhead
  have hne : s.taskQue ≠ [] := by rw [hq]; exact List.cons_ne_nil _ _
  have htested := h.inv.tested j
  have hstays := h.stays hstop j
  have hexec : exec s (.worker j) = threadFunc j s := rfl
  rw [hexec]
  unfold threadFunc
  cases hpc : s.workers j with
  | lock | woken =>
    dsimp only
    have hm := hmutex (by rw [hpc]; first | exact .inl rfl | exact .inr rfl)
    unfold lock
    rw [enable_bind_of hm]
    refine ⟨_, rfl, rfl, .inr ⟨⟨_, rfl, ?_, nofun⟩, rfl, .inr (.inr rfl), rfl, rfl, rfl⟩⟩
    rw [hpc]
    exact Nat.lt_succ_self _
  | testStop =>
    rw [hstop]
    refine ⟨_, rfl, hstop, .inr ⟨⟨_, rfl, ?_, nofun⟩, rfl, .inl rfl, rfl, rfl, rfl⟩⟩
    rw [hpc]
    exact Nat.lt_succ_self _
  | testQueue =>
    rw [if_neg hne]
    refine ⟨_, rfl, rfl, .inr ⟨⟨_, rfl, ?_, nofun⟩, rfl, .inl rfl, rfl, rfl, rfl⟩⟩
    rw [hpc]
    exact Nat.lt_succ_self _
  | checkStop =>
    rw [hstop]
    refine ⟨_, rfl, hstop, .inr ⟨⟨_, rfl, ?_, nofun⟩, rfl, .inl rfl, rfl, rfl, rfl⟩⟩
    rw [hpc]
    exact Nat.lt_succ_self _
  | dequeue =>
    rw [hq]
    refine ⟨_, rfl, rfl, .inl ⟨j, ?_, ?_⟩⟩
    · rw [← hd]
      exact Function.update_self j _ _
    · rw [← hd]
      rfl
  | unlock k t =>
    refine ⟨_, rfl, rfl, .inr ⟨⟨_, rfl, ?_, nofun⟩, rfl, .inr (.inl rfl), rfl, rfl, rfl⟩⟩
    rw [hpc]
    exact Nat.lt_succ_self _
  | increment | start | running | decrement =>
    refine ⟨_, rfl, rfl, .inr ⟨⟨_, rfl, ?_, nofun⟩, rfl, .inl rfl, rfl, rfl, rfl⟩⟩
    rw [hpc]
    exact Nat.lt_succ_self _
  | getCount | countDown | wait => rw [hpc] at htested; exact absurd htested hne
  | unborn => exact absurd hpc hborn
  | waiting => exact absurd hpc hwaiting
  | unlockStop | exited => rw [hpc] at hstays; cases hstays

/-- The worker `i` has come nearer. -/
theorem Advance.lt_self (h : Advance i s s') : remaining i s' < remaining i s := by
  obtain ⟨pc, hw, hlt, -⟩ := h.workers
  have hself : s'.workers i = pc := by rw [hw, Function.update_self]
  have hholder : holderRank s' i ≤ holderRank s i := by
    unfold holderRank
    rcases h.mutex with hm | hm | hm <;> rw [hm]
    · rw [h.callers]
      split
      · exact le_rfl
      · rename_i j _
        split_ifs with hji
        · exact le_rfl
        · rw [hw, Function.update_of_ne hji]
      · exact le_rfl
    · exact Nat.zero_le _
    · dsimp only
      rw [if_pos rfl]
      exact Nat.zero_le _
  unfold remaining
  rw [hself]
  omega

/-- The worker that holds the mutex has. -/
theorem Advance.lt_holder (h : Advance j s s') (hji : j ≠ i) (hm : s.mutex = some (.worker j)) :
    remaining i s' < remaining i s := by
  obtain ⟨pc, hw, hlt, -⟩ := h.workers
  have hself : s'.workers j = pc := by rw [hw, Function.update_self]
  have hother : s'.workers i = s.workers i := by rw [hw, Function.update_of_ne (Ne.symm hji)]
  have hholder : holderRank s' i < holderRank s i := by
    have hold : holderRank s i = workerRank (s.workers j) := by
      unfold holderRank
      rw [hm]
      exact if_neg hji
    have hnew : holderRank s' i ≤ workerRank pc := by
      unfold holderRank
      rcases h.mutex with hm' | hm' | hm'
      · rw [hm', hm]
        dsimp only
        rw [if_neg hji, hself]
      · rw [hm']
        exact Nat.zero_le _
      · rw [hm']
        dsimp only
        rw [if_neg hji, hself]
    omega
  unfold remaining
  rw [hother]
  omega

theorem Advance.pending (h : Advance j s s') (hp : Pending i d task s) : Pending i d task s' where
  dequeued := h.dequeued.trans hp.dequeued
  head := by rw [h.taskQue]; exact hp.head
  worker := by rw [h.created]; exact hp.worker
  awake := by
    obtain ⟨pc, hw, -, hpc⟩ := h.workers
    rw [hw, Function.update_apply]
    split_ifs
    · exact hpc
    · exact hp.awake

/-- The caller that holds the mutex goes on. -/
theorem caller_goes (hp : Pending i d task s) {c : ℕ} (hm : s.mutex = some (.caller c))
    (hc : callerHolds (s.callers c) = true) : ∃ t, exec s (.caller c none) = .ok t ∧
      t.stop = s.stop ∧ Pending i d task t ∧ remaining i t < remaining i s := by
  obtain ⟨rest, hq⟩ := hp.head
  have hexec : exec s (.caller c none) = callStep c none s := rfl
  have hholder : holderRank s i = callerRank (s.callers c) := by unfold holderRank; rw [hm]
  rw [hexec]
  unfold callStep remaining
  rw [hholder]
  cases hpc : s.callers c with
  | push task' =>
    refine ⟨_, rfl, rfl, ⟨hp.dequeued, ⟨rest ++ [task'], ?_⟩, hp.worker, hp.awake⟩, ?_⟩
    · show s.taskQue ++ [task'] = _
      rw [hq, List.cons_append]
    · refine Nat.add_lt_add_left ?_ _
      unfold holderRank
      rw [hm]
      dsimp only
      rw [Function.update_self]
      exact Nat.lt_succ_self _
  | unlock =>
    refine ⟨_, rfl, rfl, ⟨hp.dequeued, hp.head, hp.worker, hp.awake⟩, ?_⟩
    exact Nat.add_lt_add_left (Nat.zero_lt_one) _
  | idle | lock | signal | warn => rw [hpc] at hc; cases hc

/-- **There is always a step towards taking the task.** -/
theorem pending_step (h : Good s) (hstop : s.stop = false) (hp : Pending i d task s) :
    ∃ a t, Serves a ∧ exec s a = .ok t ∧
      (Good t ∧ t.stop = false ∧ (Pending i d task t ∨ Taken d task t)) ∧
        (Taken d task t ∨ remaining i t < remaining i s) := by
  -- a worker goes on
  have hworker : ∀ j, s.workers j ≠ .unborn → s.workers j ≠ .waiting →
      (s.workers j = .lock ∨ s.workers j = .woken → s.mutex = none) →
      (∀ t, Advance j s t → remaining i t < remaining i s) → ∃ a t, Serves a ∧
        exec s a = .ok t ∧ (Good t ∧ t.stop = false ∧ (Pending i d task t ∨ Taken d task t)) ∧
          (Taken d task t ∨ remaining i t < remaining i s) := by
    intro j hborn hwaiting hmutex hlt
    obtain ⟨t, ht, hst, htaken | hadvance⟩ :=
      advances h hstop hp.head hp.dequeued hborn hwaiting hmutex
    · exact ⟨_, t, .inl ⟨j, rfl⟩, ht, ⟨good_step h (exec_step ht), hst.trans hstop, .inr htaken⟩,
        .inl htaken⟩
    · exact ⟨_, t, .inl ⟨j, rfl⟩, ht,
        ⟨good_step h (exec_step ht), hst.trans hstop, .inl (hadvance.pending hp)⟩,
        .inr (hlt t hadvance)⟩
  have hborn : s.workers i ≠ .unborn := fun hpc =>
    absurd ((h.inv.born i).mp hpc) (not_le.mpr hp.worker)
  by_cases hwait : (s.workers i = .lock ∨ s.workers i = .woken) ∧ s.mutex ≠ none
  · -- the worker waits for the mutex; the thread that holds it goes on
    obtain ⟨hpc, hm⟩ := hwait
    obtain ⟨t, ht⟩ := Option.ne_none_iff_exists'.mp hm
    have hholds := (h.inv.guarded t).mpr ht
    cases t with
    | worker j =>
      have hholds : workerHolds (s.workers j) = true := hholds
      have hne : ∀ pc, workerHolds pc = false → s.workers j ≠ pc := fun pc hno heq => by
        rw [heq, hno] at hholds
        cases hholds
      have hji : j ≠ i := by
        rintro rfl
        exact hpc.elim (hne _ rfl) (hne _ rfl)
      exact hworker j (hne _ rfl) (hne _ rfl) (fun hl => (hl.elim (hne _ rfl) (hne _ rfl)).elim)
        fun t hadvance => hadvance.lt_holder hji ht
    | caller c =>
      obtain ⟨t, hstep, hst, hp', hlt⟩ := caller_goes hp ht hholds
      exact ⟨_, t, .inr ⟨c, none, rfl⟩, hstep,
        ⟨good_step h (exec_step hstep), hst.trans hstop, .inl hp'⟩, .inr hlt⟩
  · exact hworker i hborn hp.awake (fun hl => by_contra fun hm => hwait ⟨hl, hm⟩)
      fun t hadvance => hadvance.lt_self

/-- The worker that has taken the task starts it. -/
theorem taken_started (h : Taken d task s) : ∃ l s', (∀ a ∈ l, Serves a) ∧ l.length = 3 ∧
    Run exec s l s' ∧ s'.stop = s.stop ∧ s'.created = s.created ∧ s'.dequeued = s.dequeued ∧
      s'.taskQue = s.taskQue ∧ d.length ∈ s'.started.map Prod.snd := by
  obtain ⟨j, hpc, -⟩ := h
  have hself : ∀ (t : State) (pc : Worker), (t.goto j pc).workers j = pc := fun t pc => by
    rw [workers_goto, if_pos rfl]
  have h₁ : exec s (.worker j) = .ok ((unlock s).goto j (.increment d.length task)) := by
    show threadFunc j s = _
    unfold threadFunc
    rw [hpc]
  obtain ⟨t, ht⟩ : ∃ t, t = (unlock s).goto j (.increment d.length task) := ⟨_, rfl⟩
  have hpc₁ : t.workers j = .increment d.length task := by rw [ht]; exact hself _ _
  have h₂ : exec t (.worker j) =
      .ok ({ t with runningNum := t.runningNum + 1 }.goto j (.start d.length task)) := by
    show threadFunc j t = _
    unfold threadFunc
    rw [hpc₁]
  obtain ⟨u, hu⟩ : ∃ u, u = { t with runningNum := t.runningNum + 1 }.goto j
    (.start d.length task) := ⟨_, rfl⟩
  have hpc₂ : u.workers j = .start d.length task := by rw [hu]; exact hself _ _
  have h₃ : exec u (.worker j) =
      .ok ({ u with started := u.started ++ [(j, d.length)] }.goto j .running) := by
    show threadFunc j u = _
    unfold threadFunc
    rw [hpc₂]
  refine ⟨List.replicate 3 (.worker j), _, fun a ha => .inl ⟨j, List.eq_of_mem_replicate ha⟩, rfl,
    run_cons.mpr ⟨t, ht ▸ h₁, run_cons.mpr ⟨u, hu ▸ h₂, run_cons.mpr ⟨_, h₃, run_nil.mpr rfl⟩⟩⟩,
    ?_, ?_, ?_, ?_, ?_⟩
  · rw [hu, ht]; rfl
  · rw [hu, ht]; rfl
  · rw [hu, ht]; rfl
  · rw [hu, ht]; rfl
  · show d.length ∈ (u.started ++ [(j, d.length)]).map Prod.snd
    rw [List.map_append]
    exact List.mem_append_right _ List.mem_cons_self

/-! ### The queue -/

/-- A worker that is not blocked serves the head of the queue. -/
theorem serves_pending (h : Good s) (hstop : s.stop = false) (hp : Pending i d task s) :
    ∃ l s', (∀ a ∈ l, Serves a) ∧ l.length ≤ 24 ∧ Run exec s l s' ∧ Good s' ∧ s'.stop = false ∧
      s'.dequeued.length = d.length + 1 ∧ d.length ∈ s'.started.map Prod.snd := by
  obtain ⟨l, t, hl, hlen, hrun, ⟨hgood, hstop', -⟩, htaken⟩ := exists_run
    (fun t (hI : Good t ∧ t.stop = false ∧ (Pending i d task t ∨ Taken d task t)) hG =>
      pending_step hI.1 hI.2.1 (hI.2.2.resolve_right hG)) ⟨h, hstop, .inl hp⟩
  obtain ⟨l', s', hl', hlen', hrun', hst, -, hd, -, hstarted⟩ := taken_started htaken
  have hremaining := remaining_le i s
  refine ⟨l ++ l', s', List.forall_mem_append.mpr ⟨hl, hl'⟩, ?_, hrun.trans hrun', ?_,
    hst.trans hstop', ?_, hstarted⟩
  · rw [List.length_append]
    omega
  · exact (run_invariant (fun _ _ _ _ h hs => good_step h hs) hrun' hgood.inv hgood).2
  · obtain ⟨j, -, hdequeued⟩ := htaken
    rw [hd, hdequeued]
    exact List.length_append

/-- What a few steps lead to: the task at the head has been started. -/
def HeadStarted (n : ℕ) (s : State) : Prop := ∃ l s', (∀ a ∈ l, Serves a) ∧ l.length ≤ n ∧
  Run exec s l s' ∧ Good s' ∧ s'.stop = false ∧ s'.dequeued.length = s.dequeued.length + 1 ∧
    s.dequeued.length ∈ s'.started.map Prod.snd

theorem HeadStarted.cons {n : ℕ} {a : Act} (ha : Serves a) (hs : exec s a = .ok s')
    (hd : s'.dequeued = s.dequeued) (h : HeadStarted n s') : HeadStarted (n + 1) s := by
  obtain ⟨l, t, hl, hlen, hr, hgood, hstop, hdequeued, hstarted⟩ := h
  rw [hd] at hdequeued hstarted
  exact ⟨a :: l, t, List.forall_mem_cons.mpr ⟨ha, hl⟩, Nat.succ_le_succ hlen,
    run_cons.mpr ⟨s', hs, hr⟩, hgood, hstop, hdequeued, hstarted⟩

/-- **The head of the queue is served**: by a worker that is not blocked, or by one that the caller
wakes who is still to signal. -/
theorem serves_head (h : Good s) (hstop : s.stop = false) (hcreated : s.created ≠ [])
    (hq : s.taskQue ≠ []) : HeadStarted 26 s := by
  obtain ⟨task, rest, hq'⟩ := List.exists_cons_of_ne_nil hq
  have hpos : 0 < s.created.length := List.length_pos_of_ne_nil hcreated
  have hpending : ∀ {n} (i), 24 ≤ n → i < s.created.length → s.workers i ≠ .waiting →
      HeadStarted n s := fun i hn hi hne => by
    obtain ⟨l, s', hl, hlen, hr, hserved⟩ :=
      serves_pending (i := i) h hstop ⟨rfl, ⟨rest, hq'⟩, hi, hne⟩
    exact ⟨l, s', hl, Nat.le_trans hlen hn, hr, hserved⟩
  by_cases hawake : ∃ i < s.created.length, s.workers i ≠ .waiting
  · obtain ⟨i, hi, hne⟩ := hawake
    exact hpending i (by decide) hi hne
  · obtain ⟨c, hc⟩ := (h.awake hcreated hq).resolve_left hawake
    -- the caller signals, and wakes the first worker
    have hsignal : ∀ {t : State}, Good t → t.stop = false → t.created = s.created →
        t.taskQue = s.taskQue → t.workers = s.workers → t.callers c = .signal →
        HeadStarted 25 t := by
      intro t ht hst hcr hqt hw hct
      have hwaiting : t.workers 0 = .waiting := by
        rw [hw]
        exact by_contra fun hne => hawake ⟨0, hpos, hne⟩
      have hexec : exec t (.caller c (some 0)) = .ok { t.goto 0 .woken with
          callers := Function.update t.callers c .warn } := by
        show callStep c (some 0) t = _
        unfold callStep signal
        rw [hct]
        dsimp only
        rw [enable_bind_of hwaiting]
        rfl
      refine .cons (.inr ⟨c, some 0, rfl⟩) hexec rfl ?_
      have hwoken : (t.goto 0 .woken).workers 0 ≠ .waiting := by
        rw [workers_goto, if_pos rfl]
        exact nofun
      have hp : Pending 0 _ task { t.goto 0 .woken with
          callers := Function.update t.callers c .warn } :=
        ⟨rfl, ⟨rest, hqt.trans hq'⟩, hcr.symm ▸ hpos, hwoken⟩
      obtain ⟨l, s', hl, hlen, hr, hserved⟩ :=
        serves_pending (good_step ht (exec_step hexec)) hst hp
      exact ⟨l, s', hl, hlen, hr, hserved⟩
    rcases hc with hc | hc
    · have hexec : exec s (.caller c none) = .ok { unlock s with
          callers := Function.update s.callers c .signal } := by
        show callStep c none s = _
        unfold callStep
        rw [hc]
      refine .cons (.inr ⟨c, none, rfl⟩) hexec rfl ?_
      exact hsignal (good_step h (exec_step hexec)) hstop rfl rfl rfl (Function.update_self c _ _)
    · obtain ⟨l, s', hl, hlen, hr, hserved⟩ := hsignal h hstop rfl rfl rfl hc
      exact ⟨l, s', hl, Nat.le_succ_of_le hlen, hr, hserved⟩

/-- What only grows. -/
structure Grown (s s' : State) : Prop where
  pushed : s.pushed <+: s'.pushed
  created : s.created <+: s'.created
  started : s.started <+: s'.started

theorem grown_run {l : List Act} (hinv : Inv s) (hr : Run exec s l s') : Grown s s' := by
  refine (run_invariant (P := Grown s) ?_ hr hinv
    ⟨List.prefix_rfl, List.prefix_rfl, List.prefix_rfl⟩).2
  rintro t t' a - h hs
  cases hs with
  | run => exact ⟨h.pushed, h.created, h.started.trans (List.prefix_append _ _)⟩
  | create => exact ⟨h.pushed, h.created.trans (List.prefix_append _ _), h.started⟩
  | callPush => exact ⟨h.pushed.trans (List.prefix_append _ _), h.created, h.started⟩
  | _ => exact ⟨h.pushed, h.created, h.started⟩

/-- The tasks of the queue, one after the other. -/
theorem serves_place (h : Good s) (hstop : s.stop = false) (hcreated : s.created ≠ []) (m : ℕ)
    (hm : m < s.taskQue.length) : ∃ l s', (∀ a ∈ l, Serves a) ∧ l.length ≤ 26 * (m + 1) ∧
      Run exec s l s' ∧ Good s' ∧ s.dequeued.length + m ∈ s'.started.map Prod.snd := by
  induction m generalizing s with
  | zero =>
    obtain ⟨l, s', hl, hlen, hr, hgood, -, -, hstarted⟩ :=
      serves_head h hstop hcreated (List.ne_nil_of_length_pos hm)
    exact ⟨l, s', hl, hlen, hr, hgood, hstarted⟩
  | succ m ih =>
    obtain ⟨l, t, hl, hlen, hr, hgood, hstop', hdequeued, -⟩ :=
      serves_head h hstop hcreated (List.ne_nil_of_length_pos (Nat.zero_lt_of_lt hm))
    have hgrown := grown_run h.inv hr
    have hcreated' : t.created ≠ [] := fun hnil =>
      hcreated (List.prefix_nil.mp (hnil ▸ hgrown.created))
    have hm' : m < t.taskQue.length := by
      have hfifo := congrArg List.length h.tasks.fifo
      have hfifo' := congrArg List.length hgood.tasks.fifo
      have hle := hgrown.pushed.length_le
      rw [List.length_append, List.length_map] at hfifo hfifo'
      omega
    obtain ⟨l', s', hl', hlen', hr', hgood', hstarted⟩ := ih hgood hstop' hcreated' hm'
    refine ⟨l ++ l', s', List.forall_mem_append.mpr ⟨hl, hl'⟩, ?_, hr.trans hr', hgood', ?_⟩
    · rw [List.length_append]
      omega
    · rwa [hdequeued, Nat.add_assoc, Nat.add_comm 1 m] at hstarted

/-- **Every queued task can be run.** In every state of a run in which `m_stop` is not set and a
worker has been created, the task at place `m` of the queue can be started by steps of the workers
and of the callers that are in `call` already, at most `26 * (m + 1)` of them: whatever the other
threads have done so far, the pool is not stuck. -/
theorem queue_served {n : ℕ} {l : List Act} (hr : Run exec (initial n) l s) (hstop : s.stop = false)
    (hcreated : s.created ≠ []) (m : ℕ) (hm : m < s.taskQue.length) :
    ∃ l' s' i, (∀ a ∈ l', Serves a) ∧ l'.length ≤ 26 * (m + 1) ∧ Run exec s l' s' ∧
      (i, s.dequeued.length + m) ∈ s'.started ∧
        s'.dequeued[s.dequeued.length + m]? = some (i, s.taskQue[m]) := by
  have h := run_good hr
  obtain ⟨l', s', hl, hlen, hr', hgood, hstarted⟩ := serves_place h hstop hcreated m hm
  obtain ⟨⟨i, k⟩, hmem, rfl⟩ := List.mem_map.mp hstarted
  obtain ⟨task, hget⟩ := hgood.tasks.started _ hmem
  have hold : s.pushed[s.dequeued.length + m]? = some s.taskQue[m] := by
    rw [← h.tasks.fifo, List.getElem?_append_right (by rw [List.length_map]; omega),
      List.length_map, Nat.add_sub_cancel_left, List.getElem?_eq_getElem hm]
  have hnew : s'.pushed[s.dequeued.length + m]? = some task := by
    have hmap : (s'.dequeued.map Prod.snd)[s.dequeued.length + m]? = some task := by
      rw [List.getElem?_map, hget]
      rfl
    rw [← hgood.tasks.fifo, List.getElem?_append_left (List.getElem?_eq_some_iff.mp hmap).1, hmap]
  obtain ⟨rest, hrest⟩ := (grown_run h.inv hr').pushed
  rw [← hrest, List.getElem?_append_left (List.getElem?_eq_some_iff.mp hold).1, hold] at hnew
  rw [Option.some.inj hnew]
  exact ⟨l', s', i, hl, hlen, hr', hmem, hget⟩

end

/-- The only worker is blocked, and a caller that has pushed a task holds the mutex. -/
def asleep : List Act :=
  [.start 0, .start 7, .start 0, .start 0] ++ List.replicate 6 (.worker 0) ++ [.call 3 5] ++
    List.replicate 2 (.caller 3 none)

theorem queue_served_asleep : ∃ l' s' i, (∀ a ∈ l', Serves a) ∧ l'.length ≤ 26 * (0 + 1) ∧
    Run exec (after exec (initial 1) asleep) l' s' ∧ (i, 0 + 0) ∈ s'.started ∧
      s'.dequeued[0 + 0]? = some (i, 5) :=
  queue_served (run_after (l := asleep) (by decide +kernel)) (by decide +kernel)
    (by decide +kernel) 0 (by decide +kernel)

end ToolsCxx.ThreadPool.Serving
