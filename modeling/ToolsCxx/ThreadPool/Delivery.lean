import ToolsCxx.ThreadPool.Steps
import Mathlib.Data.List.Nodup

/-! # `ThreadPool`: the delivery of the tasks

Every task that is pushed is dequeued in turn and started once, by the worker that dequeued it
(`Tasks`), and as long as the queue is not empty some worker is not blocked, or a caller is about to
signal (`Awake`). `delivered` states both for every run; what `stop` does is no hindrance to them.
-/

namespace ToolsCxx.ThreadPool.Delivery

open ToolsCxx.Lib.Machine ToolsCxx.Lib.Lock
open ToolsCxx.ThreadPool.Model ToolsCxx.ThreadPool.Steps

/-! ### The tasks -/

/-- The task a worker has dequeued and not started yet, with its number. -/
def taskOf : Worker → Option (ℕ × Task)
  | .unlock k task | .increment k task | .start k task => some (k, task)
  | _ => none

/-- **The way of the tasks**: through the queue in order, and then once to the worker. -/
structure Tasks (s : State) : Prop where
  fifo : s.dequeued.map Prod.snd ++ s.taskQue = s.pushed
  held : ∀ i k task, taskOf (s.workers i) = some (k, task) →
    s.dequeued[k]? = some (i, task) ∧ k ∉ s.started.map Prod.snd
  started : ∀ p ∈ s.started, ∃ task, s.dequeued[p.2]? = some (p.1, task)
  nodup : (s.started.map Prod.snd).Nodup

theorem tasks_initial (n : ℕ) : Tasks (initial n) where
  fifo := rfl
  held _ _ _ h := by cases h
  started _ h := absurd h List.not_mem_nil
  nodup := List.nodup_nil

section
variable {s s' : State} {a : Act}

theorem Move.taskOf {pc pc' : Worker} (hm : Move s pc pc') : taskOf pc' = none := by
  cases hm <;> rfl

theorem wake_taskOf (pc : Worker) : taskOf pc.wake = taskOf pc := by
  cases pc <;> rfl

theorem getElem?_snoc {α : Type} {l : List α} {k : ℕ} {x y : α} (h : l[k]? = some x) :
    (l ++ [y])[k]? = some x := by
  rw [List.getElem?_append_left (List.getElem?_eq_some_iff.mp h).1]
  exact h

/-- The queue and the histories stay, and the worker `i` goes on without a new task. -/
theorem Tasks.goto (h : Tasks s) {i : ℕ} {pc : Worker}
    (hw : s'.workers = Function.update s.workers i pc)
    (hpc : taskOf pc = none ∨ taskOf pc = taskOf (s.workers i))
    (hq : s'.dequeued.map Prod.snd ++ s'.taskQue = s'.pushed) (hd : s'.dequeued = s.dequeued)
    (hs : s'.started = s.started) : Tasks s' where
  fifo := hq
  held j k task hj := by
    rw [hd, hs]
    rw [hw, Function.update_apply] at hj
    split_ifs at hj with hji
    · rw [hji]
      rcases hpc with hpc | hpc
      · rw [hpc] at hj; cases hj
      · exact h.held i k task (hpc ▸ hj)
    · exact h.held j k task hj
  started := by rw [hd, hs]; exact h.started
  nodup := by rw [hs]; exact h.nodup

theorem Tasks.congr (h : Tasks s) (hw : ∀ i, taskOf (s'.workers i) = taskOf (s.workers i))
    (hq : s'.dequeued.map Prod.snd ++ s'.taskQue = s'.pushed) (hd : s'.dequeued = s.dequeued)
    (hs : s'.started = s.started) : Tasks s' where
  fifo := hq
  held j k task hj := by rw [hd, hs]; exact h.held j k task (hw j ▸ hj)
  started := by rw [hd, hs]; exact h.started
  nodup := by rw [hs]; exact h.nodup

/-- **A task is dequeued.** -/
theorem Tasks.dequeue (h : Tasks s) {i : ℕ} {task : Task} {rest : List Task}
    (hq : s.taskQue = task :: rest) :
    Tasks ({ s with taskQue := rest, dequeued := s.dequeued ++ [(i, task)] }.goto i
      (.unlock s.dequeued.length task)) where
  fifo := by
    show (s.dequeued ++ [(i, task)]).map Prod.snd ++ rest = s.pushed
    rw [← h.fifo, hq, List.map_append, List.append_assoc]
    rfl
  held j k task' hj := by
    rw [workers_goto] at hj
    show (s.dequeued ++ [(i, task)])[k]? = some (j, task') ∧ k ∉ s.started.map Prod.snd
    split_ifs at hj with hji
    · cases hj
      refine ⟨by rw [hji]; simp, fun hk => ?_⟩
      -- the numbers that have been started are older
      obtain ⟨p, hp, hpk⟩ := List.mem_map.mp hk
      obtain ⟨t, ht⟩ := h.started p hp
      have := (List.getElem?_eq_some_iff.mp ht).1
      omega
    · obtain ⟨hd, hs⟩ := h.held j k task' hj
      exact ⟨getElem?_snoc hd, hs⟩
  started p hp := by
    obtain ⟨t, ht⟩ := h.started p hp
    exact ⟨t, getElem?_snoc ht⟩
  nodup := h.nodup

/-- **A task is started**, by the worker that holds it. -/
theorem Tasks.run (h : Tasks s) {i k : ℕ} {task : Task} (hpc : s.workers i = .start k task) :
    Tasks ({ s with started := s.started ++ [(i, k)] }.goto i .running) := by
  obtain ⟨hk, hfresh⟩ := h.held i k task (by rw [hpc]; rfl)
  have hmap : (s.started ++ [(i, k)]).map Prod.snd = s.started.map Prod.snd ++ [k] := by
    rw [List.map_append]; rfl
  refine ⟨h.fifo, fun j k' task' hj => ?_, fun p hp => ?_, ?_⟩
  · rw [workers_goto] at hj
    split_ifs at hj with hji
    · cases hj
    · obtain ⟨hd, hs⟩ := h.held j k' task' hj
      refine ⟨hd, ?_⟩
      show k' ∉ (s.started ++ [(i, k)]).map Prod.snd
      rw [hmap, List.mem_append, not_or, List.mem_singleton]
      refine ⟨hs, ?_⟩
      rintro rfl
      rw [hk] at hd
      cases hd
      exact hji rfl
  · rcases List.mem_append.mp hp with hp | hp
    · exact h.started p hp
    · rw [List.mem_singleton.mp hp]
      exact ⟨task, hk⟩
  · show ((s.started ++ [(i, k)]).map Prod.snd).Nodup
    rw [hmap, List.nodup_append]
    refine ⟨h.nodup, List.nodup_singleton k, fun x hx y hy hxy => ?_⟩
    rw [List.mem_singleton.mp hy] at hxy
    exact hfresh (hxy ▸ hx)

theorem tasks_step (h : Tasks s) (hs : Step s a s') : Tasks s' := by
  cases hs with
  | acquire | block | exit | decrement | countDown | spurious | create =>
    exact h.goto rfl (Or.inl rfl) h.fifo rfl rfl
  | callSignal => exact h.goto rfl (Or.inl rfl) h.fifo rfl rfl
  | move hpc => exact h.goto rfl (Or.inl (Move.taskOf hpc)) h.fifo rfl rfl
  | release hpc | increment hpc =>
    exact h.goto rfl (Or.inr (by rw [hpc]; rfl)) h.fifo rfl rfl
  | dequeue hpc hq => exact h.dequeue hq
  | run hpc => exact h.run hpc
  | @callPush c target task hpc =>
    refine h.congr (fun _ => rfl) ?_ rfl rfl
    show s.dequeued.map Prod.snd ++ (s.taskQue ++ [task]) = s.pushed ++ [task]
    rw [← List.append_assoc, h.fifo]
  | stopBroadcast => exact h.congr (fun i => wake_taskOf (s.workers i)) h.fifo rfl rfl
  | spuriousLatch | begin | created | pushBack | latch | call | callLock | callUnlock
  | callNoSignal | callWarn | stop | stopTest | stopSet | stopLoop | stopJoin | stopClear =>
    exact h.congr (fun _ => rfl) h.fifo rfl rfl

/-! ### The wake-ups -/

/-- A caller is between its push and its signal. -/
def Signalling (s : State) : Prop := ∃ c, s.callers c = .unlock ∨ s.callers c = .signal

/-- **The queue is seen**: if there is a task, a worker is not blocked, or a caller will signal. -/
def Awake (s : State) : Prop :=
  s.created ≠ [] → s.taskQue ≠ [] →
    (∃ i < s.created.length, s.workers i ≠ .waiting) ∨ Signalling s

/-- A worker goes on. -/
theorem awake_of_worker (hi : Inv s) {i : ℕ} {pc : Worker} (hpc : s.workers i ≠ .unborn)
    (hw : s'.workers i = pc) (hne : pc ≠ .waiting) (hc : s'.created = s.created) : Awake s' :=
  fun _ _ => by
    refine Or.inl ⟨i, ?_, by rw [hw]; exact hne⟩
    rw [hc]
    exact Nat.lt_of_not_le fun hle => hpc ((hi.born i).mpr hle)

theorem Awake.congr (h : Awake s) (hc : s'.created = s.created) (hq : s'.taskQue = s.taskQue)
    (hw : ∀ i, s.workers i ≠ .waiting → s'.workers i ≠ .waiting)
    (hs : Signalling s → Signalling s') : Awake s' := fun hcr hne => by
  rw [hc] at hcr
  rw [hq] at hne
  rcases h hcr hne with ⟨i, hi, hwi⟩ | hsig
  · exact Or.inl ⟨i, by rw [hc]; exact hi, hw i hwi⟩
  · exact Or.inr (hs hsig)

/-- The caller `c` goes on, but not from its signal. -/
theorem signalling_update {c : ℕ} {pc : Caller}
    (hpc : (s.callers c = .unlock ∨ s.callers c = .signal) → (pc = .unlock ∨ pc = .signal))
    (hcallers : s'.callers = Function.update s.callers c pc) (h : Signalling s) :
    Signalling s' := by
  obtain ⟨d, hd⟩ := h
  refine ⟨d, ?_⟩
  rw [hcallers]
  by_cases hdc : d = c
  · subst hdc
    rw [Function.update_self]
    exact hpc hd
  · rw [Function.update_of_ne hdc]
    exact hd

theorem awake_step (hi : Inv s) (h : Awake s) (hs : Step s a s') : Awake s' := by
  have hself : ∀ {t : State} {i pc}, (t.goto i pc).workers i = pc := fun {t i pc} => by
    rw [workers_goto, if_pos rfl]
  have hquiet : ∀ {c pc}, (s.callers c ≠ .unlock ∧ s.callers c ≠ .signal) →
      (s.callers c = .unlock ∨ s.callers c = .signal) → (pc = .unlock ∨ pc = Caller.signal) :=
    fun hne heq => (heq.elim hne.1 hne.2).elim
  cases hs with
  | acquire hpc hm =>
    refine awake_of_worker hi ?_ hself nofun rfl
    rcases hpc with hpc | hpc <;> rw [hpc] <;> exact nofun
  | move hpc => exact awake_of_worker hi hpc.ne_unborn.1 hself hpc.ne_waiting rfl
  | countDown hpc | exit hpc | dequeue hpc | release hpc | increment hpc | run hpc | decrement hpc
  | spurious hpc => exact awake_of_worker hi (by rw [hpc]; exact nofun) hself nofun rfl
  | @block i hpc =>
    -- the worker has found the queue empty
    have hempty := hi.tested i
    rw [hpc] at hempty
    exact fun _ hne => absurd hempty hne
  | create hpc hlt hnew =>
    refine fun _ _ => Or.inl ⟨s.created.length, by simp, ?_⟩
    show (s.goto s.created.length .lock).workers s.created.length ≠ .waiting
    rw [hself]
    exact nofun
  | @callPush c target task hpc =>
    exact fun _ _ => Or.inr ⟨c, Or.inl (Function.update_self _ _ _)⟩
  | @callUnlock c target hpc =>
    exact fun _ _ => Or.inr ⟨c, Or.inr (Function.update_self _ _ _)⟩
  | @callSignal c i hpc hw =>
    exact awake_of_worker hi (by rw [hw]; exact nofun) (hself (t := s)) nofun rfl
  | callNoSignal hpc hno =>
    -- no worker is blocked
    refine fun hcr _ => Or.inl ⟨0, List.length_pos_iff.mpr hcr, hno 0 (List.length_pos_iff.mpr hcr)⟩
  | @call c task hpc | @callLock c target task hpc hm | @callWarn c target hpc =>
    refine h.congr rfl rfl (fun _ => id) (signalling_update (hquiet ?_) rfl)
    rw [hpc]
    exact ⟨nofun, nofun⟩
  | stopBroadcast hpc =>
    refine h.congr rfl rfl (fun i hw => ?_) id
    show (s.workers i).wake ≠ .waiting
    cases s.workers i <;> exact nofun
  | spuriousLatch | begin | created | pushBack | latch | stop | stopTest | stopSet | stopLoop
  | stopJoin | stopClear => exact h.congr rfl rfl (fun _ => id) id

end

/-! ### Every run -/

/-- **What holds of the tasks.** -/
structure Delivered (s : State) : Prop where
  /-- the tasks are dequeued in the order they were pushed in -/
  fifo : s.dequeued.map Prod.snd <+: s.pushed
  /-- a dequeued task is started at most once -/
  once : (s.started.map Prod.snd).Nodup
  /-- and only by the worker that dequeued it -/
  own : ∀ i k, (i, k) ∈ s.started → ∃ task, s.dequeued[k]? = some (i, task)
  /-- if there is a task and every worker is blocked, a caller is between its push and its signal -/
  awake : s.created ≠ [] → s.taskQue ≠ [] → (∀ i < s.created.length, s.workers i = .waiting) →
    ∃ c, s.callers c = .unlock ∨ s.callers c = .signal

/-- **Every task is delivered**, in every state of every run. -/
theorem delivered {n : ℕ} {l : List Act} {s : State} (hr : Run exec (initial n) l s) :
    Delivered s := by
  obtain ⟨-, htasks, hawake⟩ := run_invariant (P := fun s => Tasks s ∧ Awake s)
    (fun _ _ _ hi h hs => ⟨tasks_step h.1 hs, awake_step hi h.2 hs⟩) hr (inv_initial n)
    ⟨tasks_initial n, fun h => absurd rfl h⟩
  refine ⟨⟨s.taskQue, htasks.fifo⟩, htasks.nodup, fun i k h => htasks.started (i, k) h,
    fun hc hq hw => ?_⟩
  rcases hawake hc hq with ⟨i, hi, hne⟩ | hsig
  · exact absurd (hw i hi) hne
  · exact hsig

/-- One worker, blocked, and one caller that has pushed a task. -/
def pushing : List Act :=
  [.start 0, .start 7, .start 0, .start 0, .worker 0, .worker 0, .worker 0, .worker 0, .worker 0,
    .worker 0, .call 3 5, .caller 3 none, .caller 3 none]

theorem delivered_pushing : Delivered (after exec (initial 1) pushing) :=
  delivered (run_after (l := pushing) (by decide))

end ToolsCxx.ThreadPool.Delivery
