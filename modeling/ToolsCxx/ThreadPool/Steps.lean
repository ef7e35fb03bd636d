import ToolsCxx.ThreadPool.Model
import ToolsCxx.Lib.Lock

/-! # `ThreadPool`: what each step does

`Step s a s'` lists the steps of the threads with their guards; `exec_step` says that the actions
are these steps. A worker that only goes on to another statement makes a `Move`.

The mutex is held by the thread that is inside its critical section (`guarded_step`), so that the
queue does not change under a worker that has tested it (`tested_step`). -/

namespace ToolsCxx.ThreadPool.Steps

open ToolsCxx.Lib.Machine ToolsCxx.Lib.Lock ToolsCxx.ThreadPool.Model

/-! ### The steps -/

/-- A worker goes on, and nothing else changes. -/
inductive Move (s : State) : Worker → Worker → Prop where
  | stopped : s.stop = true → Move s .testStop .checkStop
  | notStopped : s.stop = false → Move s .testStop .testQueue
  | empty : s.taskQue = [] → Move s .testQueue .getCount
  | notEmpty : s.taskQue ≠ [] → Move s .testQueue .checkStop
  | count : s.count ≠ 0 → Move s .getCount .countDown
  | counted : s.count = 0 → Move s .getCount .wait
  | leave : s.stop = true → Move s .checkStop .unlockStop
  | take : s.stop = false → Move s .checkStop .dequeue
  | finish : Move s .running .decrement

/-- The steps of the threads. -/
inductive Step (s : State) : Act → State → Prop where
  | acquire {i : ℕ} (hpc : s.workers i = .lock ∨ s.workers i = .woken) (hm : s.mutex = none) :
    Step s (.worker i) ({ s with mutex := some (.worker i) }.goto i .testStop)
  | move {i : ℕ} {pc : Worker} (hpc : Move s (s.workers i) pc) : Step s (.worker i) (s.goto i pc)
  | countDown {i : ℕ} (hpc : s.workers i = .countDown) :
    Step s (.worker i) ((countDown s).goto i .wait)
  | block {i : ℕ} (hpc : s.workers i = .wait) : Step s (.worker i) ((unlock s).goto i .waiting)
  | exit {i : ℕ} (hpc : s.workers i = .unlockStop) :
    Step s (.worker i) ((unlock s).goto i .exited)
  | dequeue {i : ℕ} {task : Task} {rest : List Task} (hpc : s.workers i = .dequeue)
    (hq : s.taskQue = task :: rest) :
    Step s (.worker i) ({ s with taskQue := rest, dequeued := s.dequeued ++ [(i, task)] }.goto i
      (.unlock s.dequeued.length task))
  | release {i k : ℕ} {task : Task} (hpc : s.workers i = .unlock k task) :
    Step s (.worker i) ((unlock s).goto i (.increment k task))
  | increment {i k : ℕ} {task : Task} (hpc : s.workers i = .increment k task) :
    Step s (.worker i) ({ s with runningNum := s.runningNum + 1 }.goto i (.start k task))
  | run {i k : ℕ} {task : Task} (hpc : s.workers i = .start k task) :
    Step s (.worker i) ({ s with started := s.started ++ [(i, k)] }.goto i .running)
  | decrement {i : ℕ} (hpc : s.workers i = .decrement) :
    Step s (.worker i) ({ s with runningNum := s.runningNum - 1 }.goto i .lock)
  | spurious {i : ℕ} (hpc : s.workers i = .waiting) : Step s (.spurious i) (s.goto i .woken)
  | spuriousLatch (hpc : s.starter = .latchWaiting) :
    Step s .spuriousLatch { s with starter := .latch }
  | begin {ptid : PthreadT} (hpc : s.starter = .idle) :
    Step s (.start ptid) { s with starter := .creating }
  | create {ptid : PthreadT} (hpc : s.starter = .creating) (hlt : s.created.length < s.threadNum)
    (hnew : ptid ∉ s.created) :
    Step s (.start ptid) { s.goto s.created.length .lock with
      created := s.created ++ [ptid]
      starter := .pushing ptid }
  | created {ptid : PthreadT} (hpc : s.starter = .creating)
    (hge : ¬ s.created.length < s.threadNum) : Step s (.start ptid) { s with starter := .latch }
  | pushBack {ptid ptid' : PthreadT} (hpc : s.starter = .pushing ptid) :
    Step s (.start ptid') { s with threads := s.threads ++ [ptid], starter := .creating }
  | latch {ptid : PthreadT} (hpc : s.starter = .latch) : Step s (.start ptid) (latchWait s)
  | call {c : ℕ} {task : Task} (hpc : s.callers c = .idle) :
    Step s (.call c task) { s with callers := Function.update s.callers c (.lock task) }
  | callLock {c : ℕ} {target : Option ℕ} {task : Task} (hpc : s.callers c = .lock task)
    (hm : s.mutex = none) :
    Step s (.caller c target) { s with
      mutex := some (.caller c)
      callers := Function.update s.callers c (.push task) }
  | callPush {c : ℕ} {target : Option ℕ} {task : Task} (hpc : s.callers c = .push task) :
    Step s (.caller c target) { s with
      taskQue := s.taskQue ++ [task]
      pushed := s.pushed ++ [task]
      callers := Function.update s.callers c .unlock }
  | callUnlock {c : ℕ} {target : Option ℕ} (hpc : s.callers c = .unlock) :
    Step s (.caller c target) { unlock s with callers := Function.update s.callers c .signal }
  | callSignal {c i : ℕ} (hpc : s.callers c = .signal) (hi : s.workers i = .waiting) :
    Step s (.caller c (some i)) { s.goto i .woken with
      callers := Function.update s.callers c .warn }
  | callNoSignal {c : ℕ} (hpc : s.callers c = .signal)
    (hno : ∀ i < s.created.length, s.workers i ≠ .waiting) :
    Step s (.caller c none) { s with callers := Function.update s.callers c .warn }
  | callWarn {c : ℕ} {target : Option ℕ} (hpc : s.callers c = .warn) :
    Step s (.caller c target) { s with
      warnings := if s.runningNum = s.threadNum then s.warnings + 1 else s.warnings
      callers := Function.update s.callers c .idle }
  | stop {k : ℕ} (hpc : s.stoppers k = .idle) :
    Step s (.stop k) { s with stoppers := Function.update s.stoppers k .test }
  | stopTest {k : ℕ} (hpc : s.stoppers k = .test) :
    Step s (.stopper k) { s with
      stoppers := Function.update s.stoppers k (if s.stop then .done else .set) }
  | stopSet {k : ℕ} (hpc : s.stoppers k = .set) :
    Step s (.stopper k) { s with
      stop := true
      stoppers := Function.update s.stoppers k .broadcast }
  | stopBroadcast {k : ℕ} (hpc : s.stoppers k = .broadcast) :
    Step s (.stopper k) { broadcast s with stoppers := Function.update s.stoppers k .loop }
  | stopLoop {k : ℕ} (hpc : s.stoppers k = .loop) :
    Step s (.stopper k) { s with stoppers := Function.update s.stoppers k (.joining s.threads) }
  | stopJoin {k : ℕ} {ptid : PthreadT} {rest : List PthreadT}
    (hpc : s.stoppers k = .joining (ptid :: rest)) (hjoin : Joinable s ptid) :
    Step s (.stopper k) { s with
      joined := s.joined ++ [ptid]
      stoppers := Function.update s.stoppers k (.joining rest) }
  | stopClear {k : ℕ} (hpc : s.stoppers k = .joining []) :
    Step s (.stopper k) { s with
      threads := []
      stoppers := Function.update s.stoppers k .done }

section
variable {s s' : State}

theorem lock_bind_eq_ok {t : Thread} {f : State → Result State} :
    (lock t s >>= f) = .ok s' ↔ s.mutex = none ∧ f { s with mutex := some t } = .ok s' := by
  unfold lock
  rw [bind_assoc, enable_bind_eq_ok]
  exact Iff.rfl

theorem threadFunc_step {i : ℕ} (h : threadFunc i s = .ok s') : Step s (.worker i) s' := by
  have hmove : ∀ {pc}, Move s (s.workers i) pc → s' = s.goto i pc → Step s (.worker i) s' :=
    fun hm he => he ▸ .move hm
  unfold threadFunc at h
  cases hpc : s.workers i with
  | lock =>
    simp only [hpc, lock_bind_eq_ok] at h
    obtain ⟨hm, h⟩ := h
    cases h
    exact .acquire (Or.inl hpc) hm
  | woken =>
    simp only [hpc, lock_bind_eq_ok] at h
    obtain ⟨hm, h⟩ := h
    cases h
    exact .acquire (Or.inr hpc) hm
  | testStop =>
    simp only [hpc] at h hmove
    cases h
    by_cases hs : s.stop = true
    · exact hmove (.stopped hs) (by rw [if_pos hs])
    · exact hmove (.notStopped (Bool.eq_false_iff.mpr hs)) (by rw [if_neg hs])
  | testQueue =>
    simp only [hpc] at h hmove
    cases h
    by_cases hq : s.taskQue = []
    · exact hmove (.empty hq) (by rw [if_pos hq])
    · exact hmove (.notEmpty hq) (by rw [if_neg hq])
  | getCount =>
    simp only [hpc] at h hmove
    cases h
    by_cases hc : s.count = 0
    · exact hmove (.counted hc) (by rw [if_neg (not_not.mpr hc)])
    · exact hmove (.count hc) (by rw [if_pos hc])
  | checkStop =>
    simp only [hpc] at h hmove
    cases h
    by_cases hs : s.stop = true
    · exact hmove (.leave hs) (by rw [if_pos hs])
    · exact hmove (.take (Bool.eq_false_iff.mpr hs)) (by rw [if_neg hs])
  | running =>
    simp only [hpc] at h hmove
    cases h
    exact hmove .finish rfl
  | countDown =>
    simp only [hpc] at h
    cases h
    exact .countDown hpc
  | wait =>
    simp only [hpc] at h
    cases h
    exact .block hpc
  | unlockStop =>
    simp only [hpc] at h
    cases h
    exact .exit hpc
  | dequeue =>
    simp only [hpc] at h
    cases hq : s.taskQue with
    | nil => rw [hq] at h; cases h
    | cons task rest =>
      rw [hq] at h
      cases h
      exact .dequeue hpc hq
  | unlock k task =>
    simp only [hpc] at h
    cases h
    exact .release hpc
  | increment k task =>
    simp only [hpc] at h
    cases h
    exact .increment hpc
  | start k task =>
    simp only [hpc] at h
    cases h
    exact .run hpc
  | decrement =>
    simp only [hpc] at h
    cases h
    exact .decrement hpc
  | unborn | waiting | exited => simp only [hpc] at h; cases h

theorem start_step {ptid : PthreadT} (h : start ptid s = .ok s') : Step s (.start ptid) s' := by
  unfold start at h
  cases hpc : s.starter with
  | idle =>
    simp only [hpc] at h
    cases h
    exact .begin hpc
  | creating =>
    simp only [hpc] at h
    split_ifs at h with hlt
    · rw [enable_bind_eq_ok] at h
      obtain ⟨hnew, h⟩ := h
      cases h
      exact .create hpc hlt hnew
    · cases h
      exact .created hpc hlt
  | pushing ptid' =>
    simp only [hpc] at h
    cases h
    exact .pushBack hpc
  | latch =>
    simp only [hpc] at h
    cases h
    exact .latch hpc
  | latchWaiting | returned => simp only [hpc] at h; cases h

theorem callStep_step {c : ℕ} {target : Option ℕ} (h : callStep c target s = .ok s') :
    Step s (.caller c target) s' := by
  unfold callStep at h
  cases hpc : s.callers c with
  | idle => simp only [hpc] at h; cases h
  | lock task =>
    simp only [hpc, lock_bind_eq_ok] at h
    obtain ⟨hm, h⟩ := h
    cases h
    exact .callLock hpc hm
  | push task =>
    simp only [hpc] at h
    cases h
    exact .callPush hpc
  | unlock =>
    simp only [hpc] at h
    cases h
    exact .callUnlock hpc
  | signal =>
    simp only [hpc] at h
    unfold signal at h
    cases target with
    | none =>
      simp only [bind_assoc, enable_bind_eq_ok] at h
      obtain ⟨hno, h⟩ := h
      cases h
      exact .callNoSignal hpc hno
    | some i =>
      simp only [bind_assoc, enable_bind_eq_ok] at h
      obtain ⟨hi, h⟩ := h
      cases h
      exact .callSignal hpc hi
  | warn =>
    simp only [hpc] at h
    cases h
    exact .callWarn hpc

theorem stopStep_step {k : ℕ} (h : stopStep k s = .ok s') : Step s (.stopper k) s' := by
  unfold stopStep at h
  cases hpc : s.stoppers k with
  | idle | done => simp only [hpc] at h; cases h
  | test =>
    simp only [hpc] at h
    cases h
    exact .stopTest hpc
  | set =>
    simp only [hpc] at h
    cases h
    exact .stopSet hpc
  | broadcast =>
    simp only [hpc] at h
    cases h
    exact .stopBroadcast hpc
  | loop =>
    simp only [hpc] at h
    cases h
    exact .stopLoop hpc
  | joining rest =>
    simp only [hpc] at h
    cases rest with
    | nil =>
      cases h
      exact .stopClear hpc
    | cons ptid rest =>
      rw [enable_bind_eq_ok] at h
      obtain ⟨hjoin, h⟩ := h
      cases h
      exact .stopJoin hpc hjoin

/-- **The actions are the steps.** -/
theorem exec_step {a : Act} (h : exec s a = .ok s') : Step s a s' := by
  cases a with
  | worker i => exact threadFunc_step h
  | spurious i =>
    obtain ⟨hpc, h⟩ := enable_bind_eq_ok.mp h
    cases h
    exact .spurious hpc
  | spuriousLatch =>
    obtain ⟨hpc, h⟩ := enable_bind_eq_ok.mp h
    cases h
    exact .spuriousLatch hpc
  | start ptid => exact start_step h
  | call c task =>
    obtain ⟨hpc, h⟩ := enable_bind_eq_ok.mp h
    cases h
    exact .call hpc
  | caller c target => exact callStep_step h
  | stop k =>
    obtain ⟨hpc, h⟩ := enable_bind_eq_ok.mp h
    cases h
    exact .stop hpc
  | stopper k => exact stopStep_step h

/-! ### The workers that have been created -/

/-- The workers are created in order. -/
def Born (s : State) : Prop := ∀ i, s.workers i = .unborn ↔ s.created.length ≤ i

theorem workers_goto {i j : ℕ} {pc : Worker} :
    (s.goto i pc).workers j = if j = i then pc else s.workers j := Function.update_apply _ _ _ _

theorem Move.ne_unborn {pc pc' : Worker} (h : Move s pc pc') : pc ≠ .unborn ∧ pc' ≠ .unborn := by
  cases h <;> exact ⟨nofun, nofun⟩

theorem Move.ne_waiting {pc pc' : Worker} (h : Move s pc pc') : pc' ≠ .waiting := by
  cases h <;> exact nofun

theorem born_goto (h : Born s) {i : ℕ} {pc : Worker} (hi : s.workers i ≠ .unborn)
    (hpc : pc ≠ .unborn) : Born (s.goto i pc) := fun j => by
  rw [workers_goto]
  by_cases hj : j = i
  · rw [if_pos hj, hj]
    exact ⟨fun hx => absurd hx hpc, fun hx => absurd ((h i).mpr hx) hi⟩
  · rw [if_neg hj]
    exact h j

theorem born_step {a : Act} (h : Born s) (hs : Step s a s') : Born s' := by
  have hgoto : ∀ {i pc pc'}, s.workers i = pc → pc ≠ .unborn → pc' ≠ .unborn →
      Born (s.goto i pc') := fun hpc hne hne' => born_goto h (hpc ▸ hne) hne'
  cases hs with
  | acquire hpc hm =>
    rcases hpc with hpc | hpc <;> exact hgoto hpc nofun nofun
  | move hpc => exact born_goto h hpc.ne_unborn.1 hpc.ne_unborn.2
  | countDown hpc | block hpc | exit hpc | dequeue hpc | release hpc | increment hpc | run hpc
  | decrement hpc | spurious hpc => exact hgoto hpc nofun nofun
  | callSignal hpc hi => exact hgoto hi nofun nofun
  | create hpc hlt hnew =>
    intro j
    show (s.goto s.created.length .lock).workers j = .unborn ↔ (s.created ++ [_]).length ≤ j
    rw [workers_goto, List.length_append, List.length_singleton]
    by_cases hj : j = s.created.length
    · rw [if_pos hj]
      exact ⟨nofun, fun hx => by omega⟩
    · rw [if_neg hj, h j]
      omega
  | stopBroadcast hpc =>
    intro j
    refine Iff.trans ?_ (h j)
    show (s.workers j).wake = .unborn ↔ _
    cases s.workers j <;> simp [Worker.wake]
  | spuriousLatch | begin | created | pushBack | latch | call | callLock | callPush | callUnlock
  | callNoSignal | callWarn | stop | stopTest | stopSet | stopLoop | stopJoin | stopClear => exact h

/-! ### The critical sections -/

/-- The worker holds the mutex. -/
def workerHolds : Worker → Bool
  | .testStop | .testQueue | .getCount | .countDown | .wait | .checkStop | .unlockStop | .dequeue
  | .unlock .. => true
  | _ => false

/-- The caller does. -/
def callerHolds : Caller → Bool
  | .push .. | .unlock => true
  | _ => false

/-- The thread does. -/
def Holds (s : State) : Thread → Prop
  | .worker i => workerHolds (s.workers i) = true
  | .caller c => callerHolds (s.callers c) = true

theorem Move.holds {pc pc' : Worker} (h : Move s pc pc') : workerHolds pc' = workerHolds pc := by
  cases h <;> rfl

/-- A worker goes on, the others stay. -/
theorem holds_goto_of_ne {i : ℕ} {pc : Worker} {t : Thread} (ht : t ≠ .worker i) :
    Holds (s.goto i pc) t ↔ Holds s t := by
  cases t with
  | worker j =>
    have hj : j ≠ i := fun hji => ht (by rw [hji])
    show workerHolds ((s.goto i pc).workers j) = true ↔ workerHolds (s.workers j) = true
    rw [workers_goto, if_neg hj]
  | caller c => exact Iff.rfl

theorem holds_goto_self {i : ℕ} {pc : Worker} :
    Holds (s.goto i pc) (.worker i) ↔ workerHolds pc = true := by
  show workerHolds ((s.goto i pc).workers i) = true ↔ _
  rw [workers_goto, if_pos rfl]

/-- A worker goes on and stays inside or outside. -/
theorem holds_goto {i : ℕ} {pc : Worker} (h : workerHolds pc = workerHolds (s.workers i))
    (t : Thread) : Holds (s.goto i pc) t ↔ Holds s t := by
  by_cases ht : t = .worker i
  · subst ht
    rw [holds_goto_self, h]
    exact Iff.rfl
  · exact holds_goto_of_ne ht

theorem holds_caller_of_ne {c : ℕ} {pc : Caller} {t : Thread} (ht : t ≠ .caller c) :
    Holds { s with callers := Function.update s.callers c pc } t ↔ Holds s t := by
  cases t with
  | worker i => exact Iff.rfl
  | caller d =>
    have hd : d ≠ c := fun hdc => ht (by rw [hdc])
    show callerHolds (Function.update s.callers c pc d) = true ↔ _
    rw [Function.update_of_ne hd]
    exact Iff.rfl

theorem holds_caller_self {c : ℕ} {pc : Caller} :
    Holds { s with callers := Function.update s.callers c pc } (.caller c) ↔
      callerHolds pc = true := by
  show callerHolds (Function.update s.callers c pc c) = true ↔ _
  rw [Function.update_self]

theorem holds_caller {c : ℕ} {pc : Caller} (h : callerHolds pc = callerHolds (s.callers c))
    (t : Thread) : Holds { s with callers := Function.update s.callers c pc } t ↔ Holds s t := by
  by_cases ht : t = .caller c
  · subst ht
    rw [holds_caller_self, h]
    exact Iff.rfl
  · exact holds_caller_of_ne ht

/-- **The mutex is held** by the thread inside its critical section. -/
theorem guarded_step {a : Act} (h : Guarded s.mutex (Holds s)) (hborn : Born s)
    (hs : Step s a s') : Guarded s'.mutex (Holds s') := by
  -- a thread that stays inside or outside
  have hworker : ∀ {i pc}, workerHolds pc = workerHolds (s.workers i) →
      Guarded s.mutex (Holds (s.goto i pc)) := fun hpc => h.congr (holds_goto hpc)
  have hcaller : ∀ {c pc}, callerHolds pc = callerHolds (s.callers c) →
      Guarded s.mutex (Holds { s with callers := Function.update s.callers c pc }) :=
    fun hpc => h.congr (holds_caller hpc)
  -- a thread that leaves
  have hleave : ∀ {i pc}, workerHolds (s.workers i) = true → workerHolds pc = false →
      Guarded none (Holds (s.goto i pc)) := by
    intro i pc hin hout
    rw [(h (.worker i)).mp hin] at h
    exact h.release (fun t ht => holds_goto_of_ne ht) fun hx => by
      rw [holds_goto_self, hout] at hx; cases hx
  cases hs with
  | acquire hpc hm =>
    rw [hm] at h
    exact h.acquire (fun t ht => holds_goto_of_ne ht) (holds_goto_self.mpr rfl)
  | move hpc => exact hworker hpc.holds
  | countDown hpc => exact hworker (by rw [hpc]; rfl)
  | block hpc => exact hleave (by rw [hpc]; rfl) rfl
  | exit hpc => exact hleave (by rw [hpc]; rfl) rfl
  | dequeue hpc hq => exact hworker (by rw [hpc]; rfl)
  | release hpc => exact hleave (by rw [hpc]; rfl) rfl
  | increment hpc => exact hworker (by rw [hpc]; rfl)
  | run hpc => exact hworker (by rw [hpc]; rfl)
  | decrement hpc => exact hworker (by rw [hpc]; rfl)
  | spurious hpc => exact hworker (by rw [hpc]; rfl)
  | create hpc hlt hnew => exact hworker (by rw [(hborn _).mpr (Nat.le_refl _)]; rfl)
  | callLock hpc hm =>
    rw [hm] at h
    exact h.acquire (fun t ht => holds_caller_of_ne ht) (holds_caller_self.mpr rfl)
  | callPush hpc => exact hcaller (by rw [hpc]; rfl)
  | callUnlock hpc =>
    rw [(h (.caller _)).mp (show callerHolds _ = true by rw [hpc]; rfl)] at h
    exact h.release (fun t ht => holds_caller_of_ne ht) fun hx => by
      have hout : callerHolds .signal = true := holds_caller_self.mp hx
      cases hout
  | callSignal hpc hi =>
    have h1 := h.congr (holds_goto (show workerHolds .woken = _ by rw [hi]; rfl))
    exact h1.congr (holds_caller (show _ = callerHolds (s.callers _) by rw [hpc]; rfl))
  | call hpc | callNoSignal hpc hno | callWarn hpc => exact hcaller (by rw [hpc]; rfl)
  | stopBroadcast hpc =>
    refine h.congr fun t => ?_
    cases t with
    | caller c => exact Iff.rfl
    | worker i =>
      show workerHolds (s.workers i).wake = true ↔ workerHolds (s.workers i) = true
      cases s.workers i <;> exact Iff.rfl
  | spuriousLatch | begin | created | pushBack | latch | stop | stopTest | stopSet | stopLoop
  | stopJoin | stopClear => exact h

/-! ### The test of the queue -/

/-- What a worker knows about the queue and about `m_stop`, by its program counter. -/
def Tested (s : State) : Worker → Prop
  | .getCount | .countDown | .wait => s.taskQue = []
  | .checkStop => s.stop = true ∨ s.taskQue ≠ []
  | .dequeue => s.taskQue ≠ []
  | _ => True

theorem tested_of_not_holds {pc : Worker} (h : workerHolds pc = false) : Tested s pc := by
  cases pc <;> trivial

theorem Tested.congr {pc : Worker} (h : Tested s pc) (hq : s'.taskQue = s.taskQue)
    (hs : s.stop = true → s'.stop = true) : Tested s' pc := by
  cases pc with
  | getCount | countDown | wait => exact hq.trans h
  | checkStop => exact h.imp hs fun hne => by rw [hq]; exact hne
  | dequeue => exact fun hx => h (hq.symm.trans hx)
  | _ => trivial

theorem Move.tested {pc pc' : Worker} (hm : Move s pc pc') (h : Tested s pc) : Tested s pc' := by
  cases hm with
  | stopped hs => exact Or.inl hs
  | empty hq => exact hq
  | notEmpty hq => exact Or.inr hq
  | count | counted => exact h
  | take hs =>
    rcases h with h | h
    · rw [hs] at h; cases h
    · exact h
  | notStopped | leave | finish => trivial

/-- **The queue does not change** under a worker that has tested it. -/
theorem tested_step {a : Act} (hg : Guarded s.mutex (Holds s)) (h : ∀ i, Tested s (s.workers i))
    (hs : Step s a s') : ∀ i, Tested s' (s'.workers i) := by
  -- the worker `i` goes on, and the queue stays
  have hgoto : ∀ {t : State} {i pc}, t.taskQue = s.taskQue → t.stop = s.stop →
      t.workers = Function.update s.workers i pc → Tested s pc → ∀ j, Tested t (t.workers j) := by
    intro t i pc hq hstop hw hpc j
    rw [hw, Function.update_apply]
    split_ifs
    · exact hpc.congr hq (fun hx => hstop.trans hx)
    · exact (h j).congr hq (fun hx => hstop.trans hx)
  have hsame : ∀ {t : State}, t.taskQue = s.taskQue → (s.stop = true → t.stop = true) →
      t.workers = s.workers → ∀ j, Tested t (t.workers j) := by
    intro t hq hstop hw j
    rw [hw]
    exact (h j).congr hq hstop
  cases hs with
  | acquire hpc hm => exact hgoto rfl rfl rfl trivial
  | move hpc => exact hgoto rfl rfl rfl (hpc.tested (h _))
  | @countDown i hpc =>
    have hi := h i
    rw [hpc] at hi
    exact hgoto rfl rfl rfl hi
  | block hpc | exit hpc | release hpc | increment hpc | run hpc | decrement hpc | spurious hpc =>
    exact hgoto rfl rfl rfl trivial
  | callSignal hpc hi => exact hgoto rfl rfl rfl trivial
  | create hpc hlt hnew => exact hgoto rfl rfl rfl trivial
  | @dequeue i task rest hpc hq =>
    intro j
    rw [workers_goto]
    split_ifs with hj
    · trivial
    · -- no other worker is inside
      refine tested_of_not_holds (Bool.eq_false_iff.mpr fun hx => hj ?_)
      have hi : Holds s (.worker i) := by
        show workerHolds (s.workers i) = true
        rw [hpc]; rfl
      exact Thread.worker.inj (hg.unique hi (u := .worker j) hx)
  | @callPush c target task hpc =>
    intro j
    refine tested_of_not_holds (Bool.eq_false_iff.mpr fun hx => ?_)
    have hc : Holds s (.caller c) := by
      show callerHolds (s.callers c) = true
      rw [hpc]; rfl
    cases hg.unique hc (u := .worker j) hx
  | stopBroadcast hpc =>
    intro j
    have hj := h j
    show Tested _ (s.workers j).wake
    cases hw : s.workers j <;> rw [hw] at hj <;> exact hj
  | stopSet hpc => exact hsame rfl (fun _ => rfl) rfl
  | spuriousLatch | begin | created | pushBack | latch | call | callLock | callUnlock
  | callNoSignal | callWarn | stop | stopTest | stopLoop | stopJoin | stopClear =>
    exact hsame rfl id rfl

end

/-! ### The invariant -/

/-- **The invariant of the pool.** -/
structure Inv (s : State) : Prop where
  born : Born s
  guarded : Guarded s.mutex (Holds s)
  tested : ∀ i, Tested s (s.workers i)

theorem inv_initial (n : ℕ) : Inv (initial n) where
  born i := ⟨fun _ => Nat.zero_le i, fun _ => rfl⟩
  guarded t := by cases t <;> exact ⟨nofun, nofun⟩
  tested i := trivial

theorem inv_step {s s' : State} {a : Act} (h : Inv s) (hs : Step s a s') : Inv s' :=
  ⟨born_step h.born hs, guarded_step h.guarded h.born hs, tested_step h.guarded h.tested hs⟩

/-- **The invariant rule**: what the steps keep is kept by a run. -/
theorem run_invariant {P : State → Prop} (hstep : ∀ t t' a, Inv t → P t → Step t a t' → P t')
    {s s' : State} {l : List Act} (hr : Run exec s l s') (h : Inv s) (h0 : P s) :
    Inv s' ∧ P s' :=
  hr.invariant_step (A := fun _ => True)
    (fun t a t' hinv (ha : exec t a = .ok t') => ⟨exec_step ha, inv_step hinv (exec_step ha)⟩)
    (fun t a t' _ hinv hP hs _ => hstep t t' a hinv hP hs) h h0 fun _ _ => trivial

/-- Every state of a run has the invariant. -/
theorem reachable_inv {n : ℕ} {l : List Act} {s : State} (hr : Run exec (initial n) l s) : Inv s :=
  (run_invariant (P := fun _ => True) (fun _ _ _ _ _ _ => trivial) hr (inv_initial n) trivial).1

/-- **No task is taken from an empty queue.** -/
theorem exec_no_fault {s : State} (h : Inv s) (a : Act) (f : Fault) :
    exec s a ≠ .error (.fault f) := by
  cases a with
  | worker i =>
    have hi := h.tested i
    show threadFunc i s ≠ _
    unfold threadFunc lock
    cases hpc : s.workers i with
    | dequeue =>
      rw [hpc] at hi
      cases hq : s.taskQue with
      | nil => exact absurd hq hi
      | cons task rest => exact nofun
    | lock | woken =>
      rw [bind_assoc]
      exact enable_bind_ne_fault nofun
    | _ => exact nofun
  | start ptid =>
    show start ptid s ≠ _
    unfold start
    cases s.starter with
    | creating =>
      dsimp only
      split_ifs
      · exact enable_bind_ne_fault nofun
      · exact nofun
    | _ => exact nofun
  | caller c target =>
    show callStep c target s ≠ _
    unfold callStep lock signal
    cases s.callers c with
    | lock task =>
      dsimp only
      rw [bind_assoc]
      exact enable_bind_ne_fault nofun
    | signal =>
      cases target <;> dsimp only <;> rw [bind_assoc] <;> exact enable_bind_ne_fault nofun
    | _ => exact nofun
  | stopper k =>
    show stopStep k s ≠ _
    unfold stopStep
    cases s.stoppers k with
    | joining rest =>
      cases rest with
      | nil => exact nofun
      | cons ptid rest => exact enable_bind_ne_fault nofun
    | _ => exact nofun
  | spurious | spuriousLatch | call | stop => exact enable_bind_ne_fault nofun

end ToolsCxx.ThreadPool.Steps
