import ToolsCxx.ThreadPool.Steps
import Mathlib.Data.List.Perm.Subperm
import Mathlib.Data.List.Nodup

/-! # `ThreadPool`: the workers that are ready when `start` returns

A worker counts `m_latch` down at every pass of its wait loop, as long as the count is not 0. The
count is tested and changed inside one critical section of `m_mutex`, so it is `numThreads` less the
number of count-downs and does not go below zero (`Counted`). It says how often the workers counted
down, and not which of them: `ready_iff`: each worker has done so when `start` returns if and only
if none has done so twice. -/

namespace ToolsCxx.ThreadPool.Ready

open ToolsCxx.Base ToolsCxx.Lib.Machine ToolsCxx.Lib.Lock
open ToolsCxx.ThreadPool.Model ToolsCxx.ThreadPool.Steps

/-! ### The property -/

/-- The worker that calls `count_down`. -/
def countsDown (s : State) : Act → Option ℕ
  | .worker i => if s.workers i = .countDown then some i else none
  | _ => none

/-- The workers that have called `count_down`, in the order of the calls. -/
def countDowns (n : ℕ) (l : List Act) : List ℕ := seen exec countsDown (initial n) l

/-- **`start` returns only when every worker is ready**, and the count is never negative: in every
state of the run. -/
def StaysReady (n : ℕ) (l : List Act) : Prop :=
  ∀ l' s', l' <+: l → Run exec (initial n) l' s' →
    0 ≤ s'.count ∧ (s'.starter = .returned → ∀ i < n, i ∈ countDowns n l')

/-! ### The count -/

/-- **The count and the count-downs** `d` that have been made. -/
structure Counted (n : ℕ) (s : State) (d : List ℕ) : Prop where
  threadNum : s.threadNum = int32 n
  count : s.count = int32 n - d.length
  nonneg : 0 ≤ s.count
  testing : ∀ i, s.workers i = .countDown → s.count ≠ 0
  born : ∀ i ∈ d, i < s.created.length
  created : (s.created.length : ℤ) ≤ int32 n
  returned : s.starter = .returned → s.count = 0

theorem counted_initial {n : ℕ} (h : 0 ≤ int32 n) : Counted n (initial n) [] := by
  -- `int32 n` is not to be evaluated
  obtain ⟨k, hk⟩ : ∃ k, int32 n = k := ⟨_, rfl⟩
  unfold initial
  rw [hk] at h ⊢
  exact ⟨hk.symm, by rw [hk]; exact (Int.sub_zero k).symm, h, fun _ => nofun,
    fun _ hi => absurd hi List.not_mem_nil, by rw [hk]; exact h, nofun⟩

section
variable {n : ℕ} {s s' : State} {a : Act} {d : List ℕ}

/-- A step that leaves the count. -/
theorem Counted.congr (h : Counted n s d) (hn : s'.threadNum = s.threadNum)
    (hc : s'.count = s.count)
    (hw : ∀ i, s'.workers i = .countDown → s.workers i = .countDown ∨ s.count ≠ 0)
    (hl : s.created.length ≤ s'.created.length) (hb : (s'.created.length : ℤ) ≤ int32 n)
    (hst : s'.starter = .returned → s.starter = .returned ∨ s.count ≤ 0) : Counted n s' d where
  threadNum := hn.trans h.threadNum
  count := hc.trans h.count
  nonneg := hc ▸ h.nonneg
  testing i hi := hc ▸ (hw i hi).elim (h.testing i) id
  born i hi := lt_of_lt_of_le (h.born i hi) hl
  created := hb
  returned hr := hc ▸ (hst hr).elim h.returned fun hle => le_antisymm hle h.nonneg

/-- A worker goes on, to another place than the count-down. -/
theorem Counted.goto (h : Counted n s d) {i : ℕ} {pc : Worker} (hn : s'.threadNum = s.threadNum)
    (hc : s'.count = s.count) (hw : s'.workers = Function.update s.workers i pc)
    (hpc : pc = .countDown → s.count ≠ 0) (hcr : s'.created = s.created)
    (hst : s'.starter = s.starter) : Counted n s' d := by
  refine h.congr hn hc (fun j hj => ?_) (by rw [hcr]) (hcr ▸ h.created) fun hr =>
    Or.inl (hst ▸ hr)
  rw [hw, Function.update_apply] at hj
  split_ifs at hj
  · exact Or.inr (hpc hj)
  · exact Or.inl hj

/-- **A count-down**: the count is still the one that has been tested. -/
theorem Counted.countDown (h : Counted n s d) (hinv : Inv s) {i : ℕ}
    (hpc : s.workers i = .countDown) : Counted n ((countDown s).goto i .wait) (d ++ [i]) := by
  have hcount := h.testing i hpc
  have hpos : 0 < s.count := lt_of_le_of_ne h.nonneg (Ne.symm hcount)
  have hi : Holds s (.worker i) := by
    show workerHolds (s.workers i) = true
    rw [hpc]; rfl
  refine ⟨h.threadNum, ?_, Int.sub_nonneg.mpr hpos, fun j hj => ?_, fun j hj => ?_, h.created,
    fun hr => ?_⟩
  · show s.count - 1 = int32 n - ((d ++ [i]).length : ℕ)
    rw [h.count, List.length_append, List.length_singleton]
    push_cast
    omega
  · rw [workers_goto] at hj
    split_ifs at hj with hji
    -- no other worker is inside
    have hj' : Holds s (.worker j) := by
      show workerHolds (s.workers j) = true
      rw [show s.workers j = .countDown from hj]; rfl
    exact absurd (Thread.worker.inj (hinv.guarded.unique hi hj')) hji
  · rcases List.mem_append.mp hj with hj | hj
    · exact h.born j hj
    · rw [List.mem_singleton.mp hj]
      by_contra hge
      rw [(hinv.born i).mpr (not_lt.mp hge)] at hpc
      cases hpc
  · have hst : s.starter = .returned := by
      have hr : (if s.count - 1 = 0 ∧ s.starter = .latchWaiting then Starter.latch
        else s.starter) = .returned := hr
      split_ifs at hr
      exact hr
    exact absurd (h.returned hst) hcount

/-- No worker counts down in the step. -/
theorem Counted.unseen (h : Counted n s' d) (hno : countsDown s a = none) :
    Counted n s' (d ++ (countsDown s a).toList) := by
  rw [hno, Option.toList_none, List.append_nil]
  exact h

theorem counted_step (h : Counted n s d) (hinv : Inv s) (hs : Step s a s') :
    Counted n s' (d ++ (countsDown s a).toList) := by
  cases hs with
  | @countDown i hpc =>
    rw [countsDown, if_pos hpc]
    exact h.countDown hinv hpc
  | acquire hpc =>
    refine Counted.unseen (h.goto rfl rfl rfl nofun rfl rfl) (if_neg ?_)
    rcases hpc with hpc | hpc <;> rw [hpc] <;> exact nofun
  | @move i pc hpc =>
    refine Counted.unseen (h.goto rfl rfl rfl (fun hx => ?_) rfl rfl) (if_neg fun hx => ?_)
    · rw [hx] at hpc
      generalize s.workers i = pc' at hpc
      cases hpc with
      | count hc => exact hc
    · rw [hx] at hpc
      cases hpc
  | block hpc | exit hpc | dequeue hpc | release hpc | increment hpc | run hpc | decrement hpc =>
    exact Counted.unseen (h.goto rfl rfl rfl nofun rfl rfl) (if_neg (by rw [hpc]; exact nofun))
  | spurious hpc | callSignal hpc hi =>
    exact Counted.unseen (h.goto rfl rfl rfl nofun rfl rfl) rfl
  | @create ptid hpc hlt hnew =>
    have hlen : (s.created ++ [ptid]).length = s.created.length + 1 := List.length_append
    rw [h.threadNum] at hlt
    refine Counted.unseen (h.congr rfl rfl (fun j hj => Or.inl ?_) ?_ ?_ nofun) rfl
    · have hj : (s.goto s.created.length .lock).workers j = .countDown := hj
      rw [workers_goto] at hj
      split_ifs at hj
      exact hj
    · exact hlen ▸ Nat.le_succ _
    · show ((s.created ++ [ptid]).length : ℤ) ≤ _
      rw [hlen]
      push_cast
      omega
  | latch hpc =>
    refine Counted.unseen (h.congr rfl rfl (fun _ => Or.inl) le_rfl h.created fun hr =>
      Or.inr ?_) rfl
    have hr : (if 0 < s.count then Starter.latchWaiting else .returned) = .returned := hr
    split_ifs at hr with hpos
    exact not_lt.mp hpos
  | spuriousLatch hpc | begin hpc | created hpc | pushBack hpc =>
    exact Counted.unseen (h.congr rfl rfl (fun _ => Or.inl) le_rfl h.created
      fun hr => (by cases hr)) rfl
  | stopBroadcast hpc =>
    refine Counted.unseen (h.congr rfl rfl (fun j hj => Or.inl ?_) le_rfl h.created Or.inl) rfl
    have hj : (s.workers j).wake = .countDown := hj
    cases hw : s.workers j <;> rw [hw] at hj <;> first | rfl | cases hj
  | call | callLock | callPush | callUnlock | callNoSignal | callWarn | stop | stopTest | stopSet
  | stopLoop | stopJoin | stopClear =>
    exact Counted.unseen (h.congr rfl rfl (fun _ => Or.inl) le_rfl h.created Or.inl) rfl

/-- The count along a run. -/
theorem counted_of_run {l : List Act} (h0 : 0 ≤ int32 n) (hr : Run exec (initial n) l s) :
    Counted n s (countDowns n l) := by
  refine Run.induction (P := fun l t => Counted n t (countDowns n l)) (counted_initial h0) ?_ hr
  intro l t a t' hl h ha
  rw [countDowns, seen_snoc hl]
  exact counted_step h (reachable_inv hl) (exec_step ha)

/-- `start` returns once. -/
theorem returned_step (h : s.starter = .returned) (hs : Step s a s') : s'.starter = .returned := by
  cases hs with
  | countDown hpc =>
    show (if s.count - 1 = 0 ∧ s.starter = .latchWaiting then Starter.latch else s.starter) = _
    rw [if_neg (by rw [h]; exact fun hx => (by cases hx.2)), h]
  | spuriousLatch hpc | begin hpc | create hpc | created hpc | pushBack hpc | latch hpc =>
    rw [h] at hpc; cases hpc
  | _ => exact h

theorem returned_run {l : List Act} (h : s.starter = .returned) (hr : Run exec s l s') :
    s'.starter = .returned :=
  Run.invariant_of (P := fun t => t.starter = .returned) (A := fun _ => True)
    (fun _ _ _ ht _ ha => returned_step ht (exec_step ha)) h (fun _ _ => trivial) hr

/-! ### Counting the workers -/

/-- `n` workers of which each has counted down, in `n` count-downs. -/
theorem nodup_of_all (hlen : d.length = n) (hall : ∀ i < n, i ∈ d) : d.Nodup := by
  have hsub : List.range n ⊆ d := fun i hi => hall i (List.mem_range.mp hi)
  have hperm := (List.subperm_of_subset List.nodup_range hsub).perm_of_length_le
    (by rw [List.length_range, hlen])
  exact hperm.nodup List.nodup_range

theorem all_of_nodup (hlen : d.length = n) (hd : d.Nodup) (hlt : ∀ i ∈ d, i < n) :
    ∀ i < n, i ∈ d := fun i hi => by
  have hsub : d ⊆ List.range n := fun j hj => List.mem_range.mpr (hlt j hj)
  have hperm := (List.subperm_of_subset hd hsub).perm_of_length_le
    (by rw [List.length_range, hlen])
  exact hperm.mem_iff.mpr (List.mem_range.mpr hi)

/-- **`start` returns only when every worker is ready**, and the count is never negative, if and
only if `numThreads` fits an `int` and no worker has counted down twice when `start` returns. -/
theorem ready_iff {l : List Act} (hr : Run exec (initial n) l s) :
    StaysReady n l ↔
      0 ≤ int32 n ∧ (s.starter = .returned → n < 2 ^ 31 ∧ (countDowns n l).Nodup) := by
  constructor
  · intro h
    have h0 : 0 ≤ (initial n).count := (h [] (initial n) List.nil_prefix (run_nil.mpr rfl)).1
    simp only [initial] at h0
    refine ⟨h0, fun hret => ?_⟩
    have hall := (h l s (List.prefix_refl l) hr).2 hret
    have hc := counted_of_run h0 hr
    have hlen : ((countDowns n l).length : ℤ) = int32 n := by
      have := hc.count
      rw [hc.returned hret] at this
      omega
    have hle : n ≤ (countDowns n l).length := by
      have hsub : List.range n ⊆ countDowns n l := fun i hi => hall i (List.mem_range.mp hi)
      simpa using (List.subperm_of_subset List.nodup_range hsub).length_le
    have hn : n < 2 ^ 31 := by
      have := int32_lt n
      omega
    rw [int32_natCast hn] at hlen
    exact ⟨hn, nodup_of_all (by omega) hall⟩
  · rintro ⟨h0, hret⟩ l' s' hl' hr'
    have hc := counted_of_run h0 hr'
    refine ⟨hc.nonneg, fun hst => ?_⟩
    obtain ⟨l₂, rfl⟩ := hl'
    obtain ⟨t, ht, hr₂⟩ := run_append.mp hr
    obtain rfl : t = s' := by
      have hok : Except.ok t = Except.ok s' := ht.symm.trans hr'
      exact Except.ok.inj hok
    obtain ⟨hn, hnodup⟩ := hret (returned_run hst hr₂)
    have hd : (countDowns n l').Nodup := by
      rw [countDowns, seen_append ht] at hnodup
      exact hnodup.of_append_left
    have hcount := hc.count
    have hcreated := hc.created
    rw [int32_natCast hn] at hcount hcreated
    rw [hc.returned hst] at hcount
    exact all_of_nodup (by omega) hd fun i hi => by
      have := hc.born i hi
      omega

end

/-! ### A worker that counts down twice -/

/-- Two workers are created. -/
def twoWorkers : List Act :=
  [.start 0, .start 1, .start 0, .start 2, .start 0, .start 0]

/-- The worker `i` passes the loop once, from the mutex to `pthread_cond_wait`. -/
def pass (i : ℕ) : List Act := List.replicate 6 (.worker i)

/-- Each of the two passes its loop, and `start` returns. -/
def bothCount : List Act := twoWorkers ++ pass 0 ++ pass 1 ++ [.start 0]

/-- The condition holds in a run in which `start` returns. -/
theorem ready_iff_bothCount : StaysReady 2 bothCount := by
  have hrun : Run exec (initial 2) bothCount (after exec (initial 2) bothCount) :=
    run_after (by decide +kernel)
  exact (ready_iff hrun).mpr ⟨by decide +kernel, fun _ => by decide +kernel⟩

/-- The first worker wakes up by itself and counts down again; the other one has not been
scheduled. -/
def firstTwice : List Act := twoWorkers ++ pass 0 ++ [.spurious 0] ++ pass 0 ++ [.start 0]

/-- `start` returns before the second worker is ready. -/
theorem not_stays_ready : ¬ StaysReady 2 firstTwice := by
  intro h
  have hrun : Run exec (initial 2) firstTwice (after exec (initial 2) firstTwice) :=
    run_after (by decide +kernel)
  have hmem := (h _ _ (List.prefix_refl _) hrun).2 (by decide +kernel) 1 (by decide)
  exact absurd hmem (by decide +kernel)

end ToolsCxx.ThreadPool.Ready
