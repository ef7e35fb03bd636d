import ToolsCxx.ThreadPool.Steps

/-! # `ThreadPool`: the wake-up of `stop`

`stop` sets `m_stop` without the mutex, so a worker that has found it false and the queue empty may
not have blocked yet when the broadcast comes: it is `Committed` to blocking, and the broadcast does
not reach it. `stop_wakes`: the broadcast wakes every worker for good if and only if no worker is
committed at that moment; `not_stop_wakes` is the other case. -/

namespace ToolsCxx.ThreadPool.Stop

open ToolsCxx.Lib.Machine ToolsCxx.Lib.Lock
open ToolsCxx.ThreadPool.Model ToolsCxx.ThreadPool.Steps

/-- The worker has found `m_stop` false and the queue empty, and will block. -/
def Committed (s : State) : Worker → Prop
  | .testQueue => s.taskQue = []
  | .getCount | .countDown | .wait => True
  | _ => False

/-- `m_stop` is set, and no worker is blocked or will block. -/
def Woken (s : State) : Prop :=
  s.stop = true ∧ ∀ i, s.workers i ≠ .waiting ∧ ¬ Committed s (s.workers i)

section
variable {s s' : State} {a : Act}

theorem committed_congr (hq : s'.taskQue = s.taskQue) (pc : Worker) :
    Committed s' pc ↔ Committed s pc := by
  unfold Committed; rw [hq]

/-- A worker inside its critical section, or not at the test, cannot be made to block. -/
theorem Move.woken {pc pc' : Worker} (hm : Move s pc pc') (hs : s.stop = true)
    (h : ¬ Committed s pc) : pc' ≠ .waiting ∧ ¬ Committed s pc' := by
  cases hm with
  | notStopped hf => rw [hs] at hf; cases hf
  | empty hq => exact absurd hq h
  | count | counted => exact absurd trivial h
  | stopped | notEmpty | leave | take | finish => exact ⟨nofun, id⟩

/-- **No worker blocks again.** -/
theorem woken_step (hi : Inv s) (h : Woken s) (hs : Step s a s') : Woken s' := by
  obtain ⟨hstop, hw⟩ := h
  -- the worker `i` goes on, and the queue stays
  have hgoto : ∀ {t : State} {i pc}, t.taskQue = s.taskQue → t.stop = true →
      t.workers = Function.update s.workers i pc → (pc ≠ .waiting ∧ ¬ Committed s pc) →
      Woken t := by
    intro t i pc hq ht hu hpc
    refine ⟨ht, fun j => ?_⟩
    rw [hu, Function.update_apply, committed_congr hq]
    split_ifs
    · exact hpc
    · exact hw j
  have hsame : ∀ {t : State}, t.taskQue = s.taskQue → t.stop = true → t.workers = s.workers →
      Woken t := by
    intro t hq ht hu
    refine ⟨ht, fun j => ?_⟩
    rw [hu, committed_congr hq]
    exact hw j
  cases hs with
  | acquire | release | increment | run | decrement | exit | spurious | create =>
    exact hgoto rfl hstop rfl ⟨nofun, id⟩
  | callSignal => exact hgoto rfl hstop rfl ⟨nofun, id⟩
  | move hpc => exact hgoto rfl hstop rfl (Move.woken hpc hstop (hw _).2)
  | @countDown i hpc | @block i hpc => exact absurd (by rw [hpc]; trivial) (hw i).2
  | @dequeue i task rest hpc hq =>
    refine ⟨hstop, fun j => ?_⟩
    rw [workers_goto]
    split_ifs with hj
    · exact ⟨nofun, id⟩
    · -- no other worker is at the test
      refine ⟨(hw j).1, fun hc => hj ?_⟩
      have hheld : Holds s (.worker i) := by
        show workerHolds (s.workers i) = true
        rw [hpc]; rfl
      have hother : Holds s (.worker j) := by
        show workerHolds (s.workers j) = true
        cases hpcj : s.workers j <;> rw [hpcj] at hc <;> first | rfl | exact absurd hc id
      exact Thread.worker.inj (hi.guarded.unique hheld hother)
  | callPush hpc =>
    refine ⟨hstop, fun j => ⟨(hw j).1, fun hc => (hw j).2 ?_⟩⟩
    cases hpcj : s.workers j <;> rw [hpcj] at hc <;> try exact hc
    exact absurd hc (by simp [Committed])
  | stopBroadcast hpc =>
    refine ⟨hstop, fun j => ?_⟩
    have hj := hw j
    show (s.workers j).wake ≠ .waiting ∧ ¬ Committed s (s.workers j).wake
    cases hpcj : s.workers j <;> rw [hpcj] at hj <;> first | exact hj | exact ⟨nofun, id⟩
  | stopSet => exact hsame rfl rfl rfl
  | spuriousLatch | begin | created | pushBack | latch | call | callLock | callUnlock
  | callNoSignal | callWarn | stop | stopTest | stopLoop | stopJoin | stopClear =>
    exact hsame rfl hstop rfl

/-! ### The broadcast -/

/-- A thread that is at the broadcast has set `m_stop`. -/
def Stopping (s : State) : Prop := ∀ k, s.stoppers k = .broadcast → s.stop = true

theorem stopping_step (h : Stopping s) (hs : Step s a s') : Stopping s' := by
  -- the stopper `k` goes on, but not to the broadcast
  have hgoto : ∀ {t : State} {k pc}, t.stop = s.stop →
      t.stoppers = Function.update s.stoppers k pc → pc ≠ .broadcast → Stopping t := by
    intro t k pc hstop hu hpc j hj
    rw [hu, Function.update_apply] at hj
    split_ifs at hj
    · exact absurd hj hpc
    · exact hstop.trans (h j hj)
  cases hs with
  | stop | stopLoop | stopJoin | stopClear | stopBroadcast => exact hgoto rfl rfl nofun
  | stopTest => exact hgoto rfl rfl (by split_ifs <;> exact nofun)
  | stopSet => exact fun _ _ => rfl
  | acquire | move | countDown | block | exit | dequeue | release | increment | run | decrement
  | spurious | spuriousLatch | begin | create | created | pushBack | latch | call | callLock
  | callPush | callUnlock | callSignal | callNoSignal | callWarn => exact h

/-- A committed worker can go on until it blocks. -/
theorem exists_waiting {i : ℕ} (h : Committed s (s.workers i)) :
    ∃ l s', Run exec s l s' ∧ s'.workers i = .waiting := by
  have hwait : ∀ {t : State}, t.workers i = .wait →
      ∃ l s', Run exec t l s' ∧ s'.workers i = .waiting := fun {t} hpc => by
    refine ⟨[.worker i], (unlock t).goto i .waiting, run_cons.mpr ⟨_, ?_, run_nil.mpr rfl⟩, ?_⟩
    · show threadFunc i t = _
      unfold threadFunc
      rw [hpc]
    · rw [workers_goto, if_pos rfl]
  have hdown : ∀ {t : State}, t.workers i = .countDown →
      ∃ l s', Run exec t l s' ∧ s'.workers i = .waiting := fun {t} hpc => by
    obtain ⟨l, s', hr, hw⟩ := hwait (t := (countDown t).goto i .wait)
      (by rw [workers_goto, if_pos rfl])
    refine ⟨.worker i :: l, s', run_cons.mpr ⟨_, ?_, hr⟩, hw⟩
    show threadFunc i t = _
    unfold threadFunc
    rw [hpc]
  have hcount : ∀ {t : State}, t.workers i = .getCount →
      ∃ l s', Run exec t l s' ∧ s'.workers i = .waiting := fun {t} hpc => by
    have hstep : exec t (.worker i) =
        .ok (t.goto i (if t.count ≠ 0 then .countDown else .wait)) := by
      show threadFunc i t = _
      unfold threadFunc
      rw [hpc]
    by_cases hc : t.count ≠ 0
    · rw [if_pos hc] at hstep
      obtain ⟨l, s', hr, hw⟩ := hdown (t := t.goto i .countDown) (by rw [workers_goto, if_pos rfl])
      exact ⟨.worker i :: l, s', run_cons.mpr ⟨_, hstep, hr⟩, hw⟩
    · rw [if_neg hc] at hstep
      obtain ⟨l, s', hr, hw⟩ := hwait (t := t.goto i .wait) (by rw [workers_goto, if_pos rfl])
      exact ⟨.worker i :: l, s', run_cons.mpr ⟨_, hstep, hr⟩, hw⟩
  cases hpc : s.workers i with
  | wait => exact hwait hpc
  | countDown => exact hdown hpc
  | getCount => exact hcount hpc
  | testQueue =>
    rw [hpc] at h
    have hq : s.taskQue = [] := h
    obtain ⟨l, s', hr, hw⟩ := hcount (t := s.goto i .getCount) (by rw [workers_goto, if_pos rfl])
    refine ⟨.worker i :: l, s', run_cons.mpr ⟨_, ?_, hr⟩, hw⟩
    show threadFunc i s = _
    unfold threadFunc
    rw [hpc]
    dsimp only
    rw [if_pos hq]
  | _ => rw [hpc] at h; exact absurd h id

end

section
variable {n k : ℕ} {l₁ : List Act} {s₁ s₂ : State}

/-- **The broadcast of `stop` wakes every worker for good** if and only if none is committed to
blocking. -/
theorem stop_wakes (h₁ : Run exec (initial n) l₁ s₁) (hpc : s₁.stoppers k = .broadcast)
    (h₂ : exec s₁ (.stopper k) = .ok s₂) :
    (∀ l s, Run exec s₂ l s → ∀ i, s.workers i ≠ .waiting) ↔
      ∀ i, ¬ Committed s₁ (s₁.workers i) := by
  obtain ⟨hinv, hstop⟩ := run_invariant (fun _ _ _ _ h hs => stopping_step h hs) h₁
    (inv_initial n) (nofun : Stopping (initial n))
  have hbroadcast : s₂ = { broadcast s₁ with stoppers := Function.update s₁.stoppers k .loop } := by
    have hstep : stopStep k s₁ = .ok s₂ := h₂
    unfold stopStep at hstep
    rw [hpc] at hstep
    exact (Except.ok.inj hstep).symm
  have hinv₂ := inv_step hinv (exec_step h₂)
  subst hbroadcast
  constructor
  · intro hquiet i hc
    -- the broadcast leaves a committed worker where it is
    have hsame : (s₁.workers i).wake = s₁.workers i := by
      cases hw : s₁.workers i with
      | waiting => rw [hw] at hc; exact absurd hc id
      | _ => rfl
    obtain ⟨l, s, hr, hw⟩ := exists_waiting (i := i)
      (s := { broadcast s₁ with stoppers := Function.update s₁.stoppers k .loop })
      (show Committed s₁ (s₁.workers i).wake by rw [hsame]; exact hc)
    exact hquiet l s hr i hw
  · intro hno l s hr i
    have hwoken : Woken { broadcast s₁ with stoppers := Function.update s₁.stoppers k .loop } := by
      refine ⟨hstop k hpc, fun j => ?_⟩
      have hj := hno j
      show (s₁.workers j).wake ≠ .waiting ∧ ¬ Committed s₁ (s₁.workers j).wake
      cases hw : s₁.workers j <;> rw [hw] at hj <;> exact ⟨nofun, hj⟩
    exact ((run_invariant (fun _ _ _ hi h hs => woken_step hi h hs) hr hinv₂ hwoken).2.2 i).1

/-- A pool of one worker: `start` has returned, the worker is at `pthread_cond_wait`, and `stop` is
at the broadcast. -/
def window : List Act :=
  [.start 0, .start 7, .start 0, .start 0, .worker 0, .worker 0, .worker 0, .worker 0, .worker 0,
    .start 0, .stop 0, .stopper 0, .stopper 0]

/-- If the worker blocks before the broadcast, it is woken. -/
theorem stop_wakes_blocked :
    (after exec (after exec (initial 1) (window ++ [.worker 0] ++ [.stopper 0]))
      [.worker 0]).workers 0 ≠ .waiting := by
  have hrun : Run exec (initial 1) (window ++ [.worker 0])
      (after exec (initial 1) (window ++ [.worker 0])) := run_after (by decide)
  refine (stop_wakes hrun (by decide) (exec_after (by decide))).mpr (fun i => ?_) [.worker 0] _
    (run_after (by decide)) 0
  by_cases hi : i = 0
  · have h0 : (after exec (initial 1) (window ++ [.worker 0])).workers 0 = .waiting := by decide
    rw [hi, h0]
    exact id
  · have hborn := ((reachable_inv hrun).born i).mpr (Nat.one_le_iff_ne_zero.mpr hi)
    rw [hborn]
    exact id

/-- If it blocks after the broadcast, nothing wakes it. -/
theorem not_stop_wakes :
    ¬ ∀ (n k : ℕ) (l₁ : List Act) (s₁ s₂ : State), Run exec (initial n) l₁ s₁ →
      s₁.stoppers k = .broadcast → exec s₁ (.stopper k) = .ok s₂ →
      ∀ l s, Run exec s₂ l s → ∀ i, s.workers i ≠ .waiting := by
  intro hall
  exact hall 1 0 window _ _ (run_after (by decide)) (by decide) (exec_after (by decide)) [.worker 0]
    _ (run_after (by decide)) 0 (by decide)

end

end ToolsCxx.ThreadPool.Stop
