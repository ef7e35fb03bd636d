import ToolsCxx.ThreadPool.Steps

/-! # `ThreadPool`: the threads that `stop` joins

The constructor gives `m_threads` as many elements as there will be threads, all of them zero, and
`start` appends the ids of the threads to these. The loop of `stop` therefore begins by joining a
zero, and `joins_own_iff`: the pool joins exactly its own threads if and only if it has none. -/

namespace ToolsCxx.ThreadPool.Join

open ToolsCxx.Base ToolsCxx.Lib.Machine ToolsCxx.ThreadPool.Model ToolsCxx.ThreadPool.Steps

/-! ### The property -/

/-- `start` has created the workers. -/
def Created (s : State) : Prop :=
  s.starter = .latch ∨ s.starter = .latchWaiting ∨ s.starter = .returned

/-- `stop` has been called, and every call of it has returned. -/
def Over (s : State) : Prop :=
  (∃ k, s.stoppers k = .done) ∧ ∀ k, s.stoppers k = .idle ∨ s.stoppers k = .done

/-- **The pool joins exactly its own threads.** -/
structure JoinsOwn (s : State) : Prop where
  own : ∀ ptid ∈ s.joined, ptid ∈ s.created
  once : ∀ ptid ∈ s.created, s.joined.count ptid ≤ 1
  all : Over s → ∀ ptid ∈ s.created, s.joined.count ptid = 1

/-- A pool of `n` threads does so, if `stop` is not called before the workers have been created. -/
def AlwaysJoinsOwn (n : ℕ) : Prop :=
  ∀ l₁ l₂ s₁ s₂, Run exec (initial n) l₁ s₁ → Created s₁ → (∀ k, s₁.stoppers k = .idle) →
    Run exec s₁ l₂ s₂ → JoinsOwn s₂

/-! ### A pool without threads -/

/-- There is no thread, and none will be joined. -/
structure Empty (s : State) : Prop where
  threadNum : s.threadNum = 0
  created : s.created = []
  threads : s.threads = []
  joined : s.joined = []
  starter : ∀ ptid, s.starter ≠ .pushing ptid
  stoppers : ∀ k rest, s.stoppers k = .joining rest → rest = []

theorem empty_initial : Empty (initial 0) where
  threadNum := rfl
  created := rfl
  threads := rfl
  joined := rfl
  starter _ := nofun
  stoppers _ _ := nofun

section
variable {s s' : State} {a : Act}

/-- The stopper `k` goes on. -/
theorem Empty.stopper (h : Empty s) {k : ℕ} {pc : Stopper} (hn : s'.threadNum = s.threadNum)
    (hc : s'.created = s.created) (ht : s'.threads = []) (hj : s'.joined = s.joined)
    (hst : s'.starter = s.starter) (hk : s'.stoppers = Function.update s.stoppers k pc)
    (hpc : ∀ rest, pc = .joining rest → rest = []) : Empty s' where
  threadNum := hn.trans h.threadNum
  created := hc.trans h.created
  threads := ht
  joined := hj.trans h.joined
  starter ptid := by rw [hst]; exact h.starter ptid
  stoppers j rest hj := by
    rw [hk, Function.update_apply] at hj
    split_ifs at hj
    · exact hpc rest hj
    · exact h.stoppers j rest hj

theorem empty_step (h : Empty s) (hs : Step s a s') : Empty s' := by
  obtain ⟨h1, h2, h3, h4, h5, h6⟩ := h
  have h : Empty s := ⟨h1, h2, h3, h4, h5, h6⟩
  cases hs with
  | create hpc hlt hnew =>
    rw [h1, h2] at hlt
    exact absurd hlt (by decide)
  | pushBack hpc => exact absurd hpc (h5 _)
  | begin | created | spuriousLatch => exact ⟨h1, h2, h3, h4, fun _ => nofun, h6⟩
  | latch hpc =>
    refine ⟨h1, h2, h3, h4, fun ptid => ?_, h6⟩
    show (if 0 < s.count then Starter.latchWaiting else .returned) ≠ _
    split_ifs <;> exact nofun
  | countDown hpc =>
    refine ⟨h1, h2, h3, h4, fun ptid => ?_, h6⟩
    show (if s.count - 1 = 0 ∧ s.starter = .latchWaiting then Starter.latch else s.starter) ≠ _
    split_ifs
    · exact nofun
    · exact h5 ptid
  | stop | stopSet | stopBroadcast => exact h.stopper rfl rfl h3 rfl rfl rfl nofun
  | stopTest => exact h.stopper rfl rfl h3 rfl rfl rfl fun _ => by split_ifs <;> exact nofun
  | stopLoop =>
    refine h.stopper rfl rfl h3 rfl rfl rfl fun rest hr => ?_
    cases hr
    exact h3
  | stopJoin hpc => exact absurd (h6 _ _ hpc) nofun
  | stopClear => exact h.stopper rfl rfl rfl rfl rfl rfl nofun
  | acquire | move | block | exit | dequeue | release | increment | run | decrement | spurious
  | call | callLock | callPush | callUnlock | callSignal | callNoSignal | callWarn =>
    exact ⟨h1, h2, h3, h4, h5, h6⟩

theorem Empty.joinsOwn (h : Empty s) : JoinsOwn s where
  own ptid hp := by rw [h.joined] at hp; exact absurd hp List.not_mem_nil
  once ptid hp := by rw [h.created] at hp; exact absurd hp List.not_mem_nil
  all _ ptid hp := by rw [h.created] at hp; exact absurd hp List.not_mem_nil

/-! ### A pool with threads -/

/-- `start` has created the threads `1`, .., `m`, and is at the test of its loop. -/
structure CreatedUpTo (n m : ℕ) (s : State) : Prop where
  threadNum : s.threadNum = int32 n
  created : s.created = (List.range m).map (· + 1)
  threads : s.threads = List.replicate n 0 ++ s.created
  starter : s.starter = .creating
  stop : s.stop = false
  stoppers : ∀ k, s.stoppers k = .idle

theorem createdUpTo_zero (n : ℕ) : CreatedUpTo n 0 { initial n with starter := .creating } := by
  -- `int32 n` is not to be evaluated
  obtain ⟨k, hk⟩ : ∃ k, int32 n = k := ⟨_, rfl⟩
  unfold initial
  rw [hk]
  exact ⟨hk.symm, rfl, (List.append_nil _).symm, rfl, rfl, fun _ => rfl⟩

theorem start_idle {ptid : PthreadT} (h : s.starter = .idle) :
    exec s (.start ptid) = .ok { s with starter := .creating } := by
  show start ptid s = _
  unfold start
  rw [h]

/-- One more thread: the two steps of an iteration. -/
theorem CreatedUpTo.succ {n m : ℕ} (h : CreatedUpTo n m s) (hm : (m : ℤ) < int32 n) :
    ∃ s', Run exec s [.start (m + 1), .start 0] s' ∧ CreatedUpTo n (m + 1) s' := by
  have hlen : s.created.length = m := by rw [h.created]; simp
  have hlt : (s.created.length : ℤ) < s.threadNum := by rw [hlen, h.threadNum]; exact hm
  have hnew : m + 1 ∉ s.created := by rw [h.created]; simp
  let s₁ : State := { s.goto s.created.length .lock with
    created := s.created ++ [m + 1]
    starter := .pushing (m + 1) }
  have h₁ : exec s (.start (m + 1)) = .ok s₁ := by
    show start (m + 1) s = _
    unfold start
    rw [h.starter]
    dsimp only
    rw [if_pos hlt, enable_bind_of hnew]
    rfl
  have hcreated : s.created ++ [m + 1] = (List.range (m + 1)).map (· + 1) := by
    rw [h.created, List.range_succ, List.map_append]
    rfl
  have hthreads : s.threads ++ [m + 1] = List.replicate n 0 ++ (s.created ++ [m + 1]) := by
    rw [h.threads, List.append_assoc]
  exact ⟨{ s₁ with threads := s₁.threads ++ [m + 1], starter := .creating },
    run_cons.mpr ⟨s₁, h₁, run_cons.mpr ⟨_, rfl, run_nil.mpr rfl⟩⟩,
    h.threadNum, hcreated, hthreads, rfl, h.stop, h.stoppers⟩

theorem exists_createdUpTo {n : ℕ} (m : ℕ) (hm : (m : ℤ) ≤ max (int32 n) 0) :
    ∃ l s, Run exec (initial n) l s ∧ CreatedUpTo n m s := by
  generalize hk : int32 n = k at hm
  induction m with
  | zero =>
    exact ⟨[.start 0], _, run_cons.mpr ⟨_, start_idle rfl, run_nil.mpr rfl⟩, createdUpTo_zero n⟩
  | succ m ih =>
    obtain ⟨l, s, hr, h⟩ := ih (by push_cast at hm; omega)
    obtain ⟨s', hr', h'⟩ := h.succ (by rw [hk]; push_cast at hm; omega)
    exact ⟨_, s', hr.trans hr', h'⟩

theorem stop_set {k : ℕ} (h : s.stoppers k = .set) : exec s (.stopper k) =
    .ok { s with stop := true, stoppers := Function.update s.stoppers k .broadcast } := by
  show stopStep k s = _
  unfold stopStep
  rw [h]

/-- If the first element of `m_threads` is no thread's id, `stop` joins it all the same. -/
theorem exists_joined {ptid : PthreadT} {rest : List PthreadT} (hstop : s.stop = false)
    (hidle : s.stoppers 0 = .idle) (ht : s.threads = ptid :: rest) (hno : ptid ∉ s.created) :
    ∃ l s', Run exec s l s' ∧ ptid ∈ s'.joined ∧ s'.created = s.created := by
  have hcall : exec s (.stop 0) = .ok { s with stoppers := Function.update s.stoppers 0 .test } :=
    enable_bind_of hidle
  obtain ⟨s₁, hs₁, hpc₁, ht₁, hc₁⟩ : ∃ s', Run exec s [.stop 0, .stopper 0] s' ∧
      s'.stoppers 0 = .set ∧ s'.threads = s.threads ∧ s'.created = s.created := by
    refine ⟨_, run_cons.mpr ⟨_, hcall, run_cons.mpr ⟨_, rfl, run_nil.mpr rfl⟩⟩, ?_, rfl, rfl⟩
    show (if s.stop then Stopper.done else .set) = _
    rw [hstop]
    rfl
  obtain ⟨s₂, hs₂, hpc₂, hc₂⟩ : ∃ s', Run exec s₁ [.stopper 0, .stopper 0, .stopper 0] s' ∧
      s'.stoppers 0 = .joining (ptid :: rest) ∧ s'.created = s.created := by
    refine ⟨_, run_cons.mpr ⟨_, stop_set hpc₁, run_cons.mpr ⟨_, rfl, run_cons.mpr
      ⟨_, rfl, run_nil.mpr rfl⟩⟩⟩, ?_, hc₁⟩
    show Stopper.joining s₁.threads = _
    rw [ht₁, ht]
  have hjoinable : Joinable s₂ ptid := fun i _ hi =>
    absurd (hc₂ ▸ List.mem_of_getElem? hi) hno
  have hjoin : exec s₂ (.stopper 0) = .ok { s₂ with
      joined := s₂.joined ++ [ptid]
      stoppers := Function.update s₂.stoppers 0 (.joining rest) } := by
    show stopStep 0 s₂ = _
    unfold stopStep
    rw [hpc₂]
    exact enable_bind_of hjoinable
  exact ⟨_, _, (hs₁.trans hs₂).snoc hjoin, by simp, hc₂⟩

/-- **The pool joins exactly its own threads** if and only if it has none. -/
theorem joins_own_iff (n : ℕ) : AlwaysJoinsOwn n ↔ n = 0 := by
  constructor
  · intro hall
    by_contra hn
    obtain ⟨l, s, hr, h⟩ := exists_createdUpTo (n := n) (int32 n).toNat (by omega)
    let s₁ : State := { s with starter := .latch }
    have hall_created : ¬ (s.created.length : ℤ) < s.threadNum := by
      rw [h.created, h.threadNum, List.length_map, List.length_range]
      generalize int32 n = k
      omega
    have h₁ : exec s (.start 0) = .ok s₁ := by
      show start 0 s = _
      unfold start
      rw [h.starter]
      dsimp only
      rw [if_neg hall_created]
    obtain ⟨k, rfl⟩ := Nat.exists_eq_succ_of_ne_zero hn
    have hzero : 0 ∉ s.created := by rw [h.created]; simp
    obtain ⟨l', s₂, hr₂, hjoined, hcreated⟩ := exists_joined (s := s₁) h.stop (h.stoppers 0)
      (by show s.threads = _; rw [h.threads, List.replicate_succ, List.cons_append]) hzero
    have hown := (hall _ l' s₁ s₂ (hr.snoc h₁) (Or.inl rfl) h.stoppers hr₂).own 0 hjoined
    rw [hcreated] at hown
    exact hzero hown
  · rintro rfl l₁ l₂ s₁ s₂ h₁ - - h₂
    exact (run_invariant (fun _ _ _ _ h hs => empty_step h hs) (h₁.trans h₂) (inv_initial 0)
      empty_initial).2.joinsOwn

end

/-- The pool has one thread, with the id 7. -/
def oneThread : List Act := [.start 0, .start 7, .start 7, .start 7]

/-- A thread that calls `stop` joins 0. -/
def joinsZero : List Act :=
  [.stop 0, .stopper 0, .stopper 0, .stopper 0, .stopper 0, .stopper 0]

/-- A pool of one thread does not join exactly its own threads. -/
theorem not_joins_own : ¬ AlwaysJoinsOwn 1 := by
  intro hall
  let s : State := after exec (initial 1) oneThread
  have h₁ : Run exec (initial 1) oneThread s := run_after (by decide +kernel)
  have h₂ : Run exec s joinsZero (after exec s joinsZero) := run_after (by decide +kernel)
  have hown := (hall _ _ _ _ h₁ (Or.inl (by decide +kernel)) (fun _ => rfl) h₂).own 0
    (by decide +kernel)
  exact absurd hown (by decide +kernel)

end ToolsCxx.ThreadPool.Join
