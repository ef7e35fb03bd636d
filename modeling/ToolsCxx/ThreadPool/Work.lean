import ToolsCxx.Lib.Counting
import ToolsCxx.ThreadPool.Steps

/-! # `ThreadPool`: no worker sleeps while a task waits

`call` signals after it has released the mutex, and `pthread_cond_signal` wakes one worker. This is
enough: as long as a worker is blocked, every task in the queue has a worker of its own that will
look at the queue again, or a signal that is still to come.

`m_runningNum` is read outside the critical section. It is the number of the workers that are in a
task, and the warning of `call` means that all of them are.

* `work_conserved`: the first, in every state of every run before `stop`.
* `warns_when_full`: the second, in every state of every run. -/

namespace ToolsCxx.ThreadPool.Work

open ToolsCxx.Base ToolsCxx.Lib.Machine ToolsCxx.Lib.Counting
open ToolsCxx.ThreadPool.Model ToolsCxx.ThreadPool.Steps

/-! ### Who looks after the queue -/

/-- The worker will look at the queue before it blocks, or takes a task from it. -/
def seeking : Worker → Bool
  | .lock | .testStop | .testQueue | .woken | .checkStop | .dequeue => true
  | _ => false

/-- The caller has pushed its task, and will signal. -/
def signalling : Caller → Bool
  | .unlock | .signal => true
  | _ => false

/-- **While a worker is blocked**, the tasks are not more than the workers that seek one and the
signals to come. -/
structure Conserving (s : State) (n m : ℕ) : Prop where
  seekers : Tally seeking s.workers n
  signals : Tally signalling s.callers m
  bound : s.stop = false → ∀ i, s.workers i = .waiting → s.taskQue.length ≤ n + m

section
variable {s s' : State} {n m : ℕ} {a : Act}

/-- The worker `i` goes on: the queue is empty then, or the worker takes one task at most for
itself. -/
theorem Conserving.goto (h : Conserving s n m) {i : ℕ} {pc : Worker}
    (hworkers : s'.workers = Function.update s.workers i pc) (hcallers : s'.callers = s.callers)
    (hstop : s'.stop = s.stop) (hqueue : s.stop = false → s'.taskQue = [] ∨ pc ≠ .waiting ∧
      s'.taskQue.length + (seeking (s.workers i)).toNat ≤
        s.taskQue.length + (seeking pc).toNat) : ∃ n' m', Conserving s' n' m' := by
  obtain ⟨n', hn', hcount⟩ := h.seekers.update i pc
  refine ⟨n', m, hworkers ▸ hn', hcallers ▸ h.signals, fun hs j hj => ?_⟩
  rw [hstop] at hs
  rcases hqueue hs with hnil | ⟨hpc, hle⟩
  · rw [hnil]
    exact Nat.zero_le _
  · have hne : j ≠ i := by
      rintro rfl
      rw [hworkers, Function.update_self] at hj
      exact hpc hj
    rw [hworkers, Function.update_of_ne hne] at hj
    have := h.bound hs j hj
    omega

/-- The caller `c` goes on, and pushes a task only if it will signal. -/
theorem Conserving.caller (h : Conserving s n m) {c : ℕ} {pc : Caller}
    (hcallers : s'.callers = Function.update s.callers c pc) (hworkers : s'.workers = s.workers)
    (hstop : s'.stop = s.stop) (hqueue : s'.taskQue.length + (signalling (s.callers c)).toNat ≤
      s.taskQue.length + (signalling pc).toNat) : ∃ n' m', Conserving s' n' m' := by
  obtain ⟨m', hm', hcount⟩ := h.signals.update c pc
  refine ⟨n, m', hworkers ▸ h.seekers, hcallers ▸ hm', fun hs j hj => ?_⟩
  have := h.bound (hstop ▸ hs) j (hworkers ▸ hj)
  omega

theorem Conserving.congr (h : Conserving s n m) (hworkers : s'.workers = s.workers)
    (hcallers : s'.callers = s.callers) (hstop : s'.stop = false → s.stop = false)
    (hqueue : s'.taskQue = s.taskQue) : ∃ n' m', Conserving s' n' m' :=
  ⟨n, m, hworkers ▸ h.seekers, hcallers ▸ h.signals, fun hs i hi =>
    hqueue ▸ h.bound (hstop hs) i (hworkers ▸ hi)⟩

/-- A worker that goes on still seeks a task, unless the queue is empty or the pool stops. -/
theorem Move.seeking {pc pc' : Worker} (hm : Move s pc pc') :
    s.stop = true ∨ s.taskQue = [] ∨ (seeking pc).toNat ≤ (seeking pc').toNat := by
  cases hm with
  | stopped hs | leave hs => exact .inl hs
  | empty hq => exact .inr (.inl hq)
  | _ => exact .inr (.inr (by decide))

theorem conserving_step (hinv : Inv s) (h : Conserving s n m) (hs : Step s a s') :
    ∃ n' m', Conserving s' n' m' := by
  cases hs with
  | acquire hpc =>
    refine h.goto rfl rfl rfl fun _ => .inr ⟨nofun, ?_⟩
    rcases hpc with hpc | hpc <;> rw [hpc] <;> exact le_rfl
  | @move i pc hpc =>
    refine h.goto rfl rfl rfl fun hstop => ?_
    rcases Move.seeking hpc with hs | hq | hle
    · rw [hstop] at hs
      cases hs
    · exact .inl hq
    · exact .inr ⟨hpc.ne_waiting, Nat.add_le_add_left hle _⟩
  | @block i hpc =>
    -- the queue is empty when a worker blocks
    have htested := hinv.tested i
    rw [hpc] at htested
    exact h.goto rfl rfl rfl fun _ => .inl htested
  | exit hpc | release hpc | increment hpc | run hpc | decrement hpc | countDown hpc
  | spurious hpc =>
    refine h.goto rfl rfl rfl fun _ => .inr ⟨nofun, ?_⟩
    rw [hpc]
    exact Nat.add_le_add_left (Nat.zero_le _) _
  | @dequeue i task rest hpc hq =>
    refine h.goto rfl rfl rfl fun _ => .inr ⟨nofun, ?_⟩
    rw [hpc, hq]
    exact le_rfl
  | create hpc hlt hnew =>
    refine h.goto rfl rfl rfl fun _ => .inr ⟨nofun, ?_⟩
    rw [(hinv.born _).mpr le_rfl]
    exact Nat.add_le_add_left (Nat.zero_le _) _
  | callLock hpc | callWarn hpc | call hpc | callUnlock hpc =>
    refine h.caller rfl rfl rfl ?_
    rw [hpc]
    exact le_rfl
  | callPush hpc =>
    refine h.caller rfl rfl rfl ?_
    rw [hpc, List.length_append]
    exact le_rfl
  | @callSignal c i hpc hi =>
    obtain ⟨n', hn', hcount⟩ := h.seekers.update i .woken
    obtain ⟨m', hm', hcount'⟩ := h.signals.update c .warn
    refine ⟨n', m', hn', hm', fun hs j hj => ?_⟩
    have hbound := h.bound hs i hi
    rw [hi] at hcount
    rw [hpc] at hcount'
    change n' + 0 = n + 1 at hcount
    change m' + 1 = m + 0 at hcount'
    change s.taskQue.length ≤ n' + m'
    omega
  | @callNoSignal c hpc hno =>
    obtain ⟨m', hm', -⟩ := h.signals.update c .warn
    refine ⟨n, m', h.seekers, hm', fun _ j hj => ?_⟩
    -- no worker is blocked
    change s.workers j = .waiting at hj
    have hborn : j < s.created.length := by
      by_contra hge
      rw [(hinv.born j).mpr (not_lt.mp hge)] at hj
      cases hj
    exact absurd hj (hno j hborn)
  | stopBroadcast hpc =>
    -- no worker is blocked any more
    have hborn := born_step hinv.born (.stopBroadcast hpc)
    have hlt : ∀ i, seeking ((broadcast s).workers i) = true → i < s.created.length := by
      intro i hi
      by_contra hge
      have hun : (broadcast s).workers i = .unborn := (hborn i).mpr (not_lt.mp hge)
      rw [hun] at hi
      cases hi
    obtain ⟨n', hn'⟩ := Tally.exists hlt
    refine ⟨n', m, hn', h.signals, fun _ i hi => absurd hi ?_⟩
    show (s.workers i).wake ≠ .waiting
    cases s.workers i <;> nofun
  | stopSet hpc => exact h.congr rfl rfl nofun rfl
  | spuriousLatch | begin | created | pushBack | latch | stop | stopTest | stopLoop | stopJoin
  | stopClear => exact h.congr rfl rfl id rfl

theorem run_conserving {k : ℕ} {l : List Act} (hr : Run exec (initial k) l s) :
    ∃ n m, Conserving s n m :=
  (run_invariant (P := fun s => ∃ n m, Conserving s n m)
    (fun _ _ _ hinv ⟨_, _, h⟩ hs => conserving_step hinv h hs) hr (inv_initial k)
    ⟨0, 0, .zero fun _ => rfl, .zero fun _ => rfl, fun _ _ hi => nomatch hi⟩).2

/-- **No worker sleeps while a task waits**: as long as `stop` has not been called and a worker is
blocked, the tasks in the queue are not more than the workers that will look at it before they block
and the callers that will signal, taken together. -/
theorem work_conserved {k : ℕ} {l : List Act} (hr : Run exec (initial k) l s)
    (hstop : s.stop = false) {i : ℕ} (hi : s.workers i = .waiting) :
    ∃ T U : Finset ℕ, (∀ j ∈ T, seeking (s.workers j) = true) ∧
      (∀ c ∈ U, signalling (s.callers c) = true) ∧ s.taskQue.length ≤ T.card + U.card := by
  obtain ⟨n, m, ⟨T, hT, rfl⟩, ⟨U, hU, rfl⟩, hbound⟩ := run_conserving hr
  exact ⟨T, U, fun j hj => (hT j).mp hj, fun c hc => (hU c).mp hc, hbound hstop i hi⟩

/-- The only worker is blocked when a task is pushed. -/
def pushedAsleep : List Act :=
  [.start 7, .start 7, .start 7] ++ List.replicate 6 (.worker 0) ++
    .call 0 5 :: List.replicate 3 (.caller 0 none)

theorem work_conserved_asleep : let s := after exec (initial 1) pushedAsleep
    ∃ T U : Finset ℕ, (∀ j ∈ T, seeking (s.workers j) = true) ∧
      (∀ c ∈ U, signalling (s.callers c) = true) ∧ s.taskQue.length ≤ T.card + U.card :=
  work_conserved (run_after (l := pushedAsleep) rfl) rfl (i := 0) rfl

/-! ### The number of the running tasks -/

/-- The worker is counted in `m_runningNum`. -/
def busy : Worker → Bool
  | .start .. | .running | .decrement => true
  | _ => false

/-- **`m_runningNum`** is the number of those workers. -/
structure Counted (s : State) : Prop where
  running : ∃ n : ℕ, Tally busy s.workers n ∧ s.runningNum = n
  created : s.created = [] ∨ (s.created.length : ℤ) ≤ s.threadNum

theorem Counted.goto (h : Counted s) {i : ℕ} {pc : Worker}
    (hworkers : s'.workers = Function.update s.workers i pc) (hrunning : s'.runningNum +
      (busy (s.workers i)).toNat = s.runningNum + (busy pc).toNat)
    (hcreated : s'.created = [] ∨ (s'.created.length : ℤ) ≤ s'.threadNum) : Counted s' := by
  obtain ⟨n, hn, heq⟩ := h.running
  obtain ⟨n', hn', hcount⟩ := hn.update i pc
  exact ⟨⟨n', hworkers ▸ hn', by omega⟩, hcreated⟩

theorem Counted.congr (h : Counted s) (hworkers : ∀ i, busy (s'.workers i) = busy (s.workers i))
    (hrunning : s'.runningNum = s.runningNum) (hthreadNum : s'.threadNum = s.threadNum)
    (hcreated : s'.created = s.created) : Counted s' := by
  obtain ⟨n, hn, heq⟩ := h.running
  refine ⟨⟨n, hn.congr hworkers, hrunning.trans heq⟩, ?_⟩
  rw [hcreated, hthreadNum]
  exact h.created

theorem Move.busy {pc pc' : Worker} (hm : Move s pc pc') : busy pc' = busy pc := by
  cases hm <;> rfl

theorem counted_step (hinv : Inv s) (h : Counted s) (hs : Step s a s') : Counted s' := by
  cases hs with
  | acquire hpc =>
    refine h.goto rfl ?_ h.created
    rcases hpc with hpc | hpc <;> rw [hpc] <;> rfl
  | move hpc => exact h.goto rfl (by rw [Move.busy hpc]; rfl) h.created
  | block hpc | exit hpc | release hpc | countDown hpc | spurious hpc | dequeue hpc =>
    exact h.goto rfl (by rw [hpc]; rfl) h.created
  | run hpc => exact h.goto rfl (by rw [hpc]; rfl) h.created
  | increment hpc =>
    refine h.goto rfl ?_ h.created
    rw [hpc]
    exact Int.add_zero _
  | decrement hpc =>
    refine h.goto rfl ?_ h.created
    rw [hpc]
    exact (Int.sub_add_cancel _ _).trans (Int.add_zero _).symm
  | create hpc hlt hnew =>
    refine h.goto rfl (by rw [(hinv.born _).mpr le_rfl]; rfl) (.inr ?_)
    show ((s.created ++ [_]).length : ℤ) ≤ s.threadNum
    rw [List.length_append]
    exact hlt
  | callSignal hpc hi => exact h.goto rfl (by rw [hi]; rfl) h.created
  | stopBroadcast hpc =>
    refine h.congr (fun i => ?_) rfl rfl rfl
    show busy (s.workers i).wake = _
    cases s.workers i <;> rfl
  | callLock | callWarn | call | callUnlock | callPush | callNoSignal | stopSet | spuriousLatch
  | begin | created | pushBack | latch | stop | stopTest | stopLoop | stopJoin | stopClear =>
    exact h.congr (fun _ => rfl) rfl rfl rfl

theorem run_counted {k : ℕ} {l : List Act} (hr : Run exec (initial k) l s) : Inv s ∧ Counted s :=
  run_invariant (fun _ _ _ hinv h hs => counted_step hinv h hs) hr (inv_initial k)
    ⟨⟨0, .zero fun _ => rfl, rfl⟩, .inl rfl⟩

theorem full_iff (hinv : Inv s) (h : Counted s) : s.runningNum = s.threadNum ↔
    (s.created.length : ℤ) = s.threadNum ∧ ∀ i < s.created.length, busy (s.workers i) = true := by
  obtain ⟨n, hn, heq⟩ := h.running
  have hlt : ∀ i, busy (s.workers i) = true → i < s.created.length := fun i hi => by
    by_contra hge
    rw [(hinv.born i).mpr (not_lt.mp hge)] at hi
    cases hi
  have hle : n ≤ s.created.length := hn.le hlt
  constructor
  · intro hfull
    have hlen : s.created.length = n := by
      rcases h.created with hnil | hnum
      · rw [hnil] at hle ⊢
        exact (Nat.le_zero.mp hle).symm
      · omega
    exact ⟨by omega, hn.all_of_le hlt hlen.le⟩
  · rintro ⟨hlen, hall⟩
    have hm : Tally busy s.workers s.created.length :=
      .of_range fun i => ⟨hlt i, hall i⟩
    have := hn.unique hm
    omega

/-- **The warning of `call`** is given exactly when all workers of the pool have been created and
each of them is in a task; `m_runningNum` is their number in every state. -/
theorem warns_when_full {k : ℕ} {l : List Act} (hr : Run exec (initial k) l s) :
    (∃ T : Finset ℕ, (∀ i, i ∈ T ↔ busy (s.workers i) = true) ∧ s.runningNum = T.card) ∧
      ∀ c target s', s.callers c = .warn → exec s (.caller c target) = .ok s' →
        (s'.warnings = s.warnings + 1 ↔ (s.created.length : ℤ) = s.threadNum ∧
          ∀ i < s.created.length, busy (s.workers i) = true) := by
  obtain ⟨hinv, h⟩ := run_counted hr
  refine ⟨?_, fun c target s' hpc hs => ?_⟩
  · obtain ⟨n, ⟨T, hT, rfl⟩, heq⟩ := h.running
    exact ⟨T, hT, heq⟩
  · rw [← full_iff hinv h]
    change callStep c target s = .ok s' at hs
    unfold callStep at hs
    rw [hpc] at hs
    cases hs
    show (if s.runningNum = s.threadNum then s.warnings + 1 else s.warnings) = _ ↔ _
    split_ifs with hfull
    · exact iff_of_true rfl hfull
    · exact iff_of_false (Nat.ne_of_lt (Nat.lt_succ_self _)) hfull

/-- Two workers are in their tasks when the second call comes to its test. -/
def bothBusy : List Act :=
  [.start 0, .start 7, .start 0, .start 8, .start 0, .call 0 1] ++
    List.replicate 5 (.caller 0 none) ++ [.call 1 2] ++ List.replicate 4 (.caller 1 none) ++
    List.replicate 8 (.worker 0) ++ List.replicate 8 (.worker 1)

theorem warns_when_full_bothBusy : let s := after exec (initial 2) bothBusy
    (∃ T : Finset ℕ, (∀ i, i ∈ T ↔ busy (s.workers i) = true) ∧ s.runningNum = T.card) ∧
      s.runningNum = 2 ∧ (after exec s [.caller 1 none]).warnings = s.warnings + 1 := by
  intro s
  obtain ⟨hnum, hwarn⟩ := warns_when_full (run_after rfl : Run exec (initial 2) bothBusy s)
  have hbusy : ∀ i < s.created.length, busy (s.workers i) = true := by decide +kernel
  exact ⟨hnum, rfl, (hwarn 1 none _ rfl rfl).mpr ⟨rfl, hbusy⟩⟩

end

end ToolsCxx.ThreadPool.Work
