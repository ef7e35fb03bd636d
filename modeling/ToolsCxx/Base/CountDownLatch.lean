import ToolsCxx.Base.Integers
import ToolsCxx.Lib.Lock
import ToolsCxx.Lib.Machine

/-! # `CountDownLatch`

The latch with any number of threads in `wait`, `count_down` and `get_count`. A step is an operation
on `m_mutex` or `m_cond`, or a use of `m_count` inside the critical section. `m_cond.wait` releases
the mutex and blocks in one step, and a wake-up, by `notify_all` or spuriously, makes the thread
compete for the mutex again.

* `Latched`: what holds of the count, the calls and the blocked threads.
* `latch_ok`: `wait` returns after enough `count_down`s and not before, and no wake-up is lost. -/

namespace ToolsCxx.Base.CountDownLatch

open ToolsCxx.Lib.Machine ToolsCxx.Lib.Lock

/-! ### The state and the operations -/

/-- Where a thread is. -/
inductive Pc where
  | idle
  /-- in `wait`: at the lock -/
  | waitLock
  /-- at `m_count > 0` -/
  | waitTest
  /-- blocked in `m_cond.wait` -/
  | waiting
  /-- woken, and not holding the mutex yet -/
  | woken
  /-- at the unlock -/
  | waitUnlock
  /-- in `count_down`: at the lock -/
  | downLock
  /-- at `-- m_count` -/
  | decrement
  /-- at `m_cond.notify_all()` -/
  | notify
  /-- at the unlock -/
  | downUnlock
  /-- in `get_count`: at the lock -/
  | getLock
  /-- at `return m_count` -/
  | read
  /-- at the unlock -/
  | getUnlock
  deriving DecidableEq

structure State where
  count : ℤ
  mutex : Option ℕ
  threads : ℕ → Pc
  -- history: the decrements, the calls of `wait` that have returned, the values `get_count` read
  downs : ℕ
  waits : ℕ
  counts : List ℤ

/-- `CountDownLatch::CountDownLatch`. -/
def initial (count : ℤ) : State where
  count := count
  mutex := none
  threads := fun _ => .idle
  downs := 0
  waits := 0
  counts := []

/-- What can go wrong. -/
inductive Fault where
  /-- `m_count` leaves the range of `int` -/
  | overflow
  deriving DecidableEq, Repr

abbrev Result (α : Type) := Except (Halt Fault) α

/-- The thread goes on at `pc`. -/
def State.goto (s : State) (t : ℕ) (pc : Pc) : State :=
  { s with threads := Function.update s.threads t pc }

/-- A blocked thread is woken. -/
def Pc.wake : Pc → Pc
  | .waiting => .woken
  | pc => pc

/-- The lock of `m_mutex`. -/
def lock (t : ℕ) (pc : Pc) (s : State) : Result State := do
  enable (s.mutex = none)
  return { s.goto t pc with mutex := some t }

/-- The unlock of `m_mutex`. -/
def unlock (t : ℕ) (pc : Pc) (s : State) : State := { s.goto t pc with mutex := none }

/-- `m_cond.notify_all()`. -/
def notifyAll (s : State) : State := { s with threads := fun t => (s.threads t).wake }

/-- `wait`, `count_down` and `get_count`: the next step of a thread. -/
def next (t : ℕ) (s : State) : Result State :=
  match s.threads t with
  | .idle | .waiting => .error .disabled
  | .waitLock | .woken => lock t .waitTest s
  | .waitTest => .ok (if 0 < s.count then unlock t .waiting s else s.goto t .waitUnlock)
  | .waitUnlock => .ok { unlock t .idle s with waits := s.waits + 1 }
  | .downLock => lock t .decrement s
  | .decrement => do
    check (-2 ^ 31 < s.count) .overflow
    return { s.goto t (if s.count - 1 = 0 then .notify else .downUnlock) with
      count := s.count - 1
      downs := s.downs + 1 }
  | .notify => .ok ((notifyAll s).goto t .downUnlock)
  | .downUnlock => .ok (unlock t .idle s)
  | .getLock => lock t .read s
  | .read => .ok { s.goto t .getUnlock with counts := s.counts ++ [s.count] }
  | .getUnlock => .ok (unlock t .idle s)

/-- The actions. -/
inductive Act where
  /-- a call of `wait`, `count_down` or `get_count` -/
  | wait (t : ℕ)
  | countDown (t : ℕ)
  | getCount (t : ℕ)
  /-- the next step of a thread -/
  | next (t : ℕ)
  /-- a thread wakes up by itself -/
  | spurious (t : ℕ)
  deriving DecidableEq

/-- What an action does. -/
def exec (s : State) : Act → Result State
  | .wait t => do
    enable (s.threads t = .idle)
    return s.goto t .waitLock
  | .countDown t => do
    enable (s.threads t = .idle)
    return s.goto t .downLock
  | .getCount t => do
    enable (s.threads t = .idle)
    return s.goto t .getLock
  | .next t => next t s
  | .spurious t => do
    enable (s.threads t = .waiting)
    return s.goto t .woken

/-! ### The steps -/

/-- The steps of the threads. -/
inductive Step (s : State) : State → Prop where
  | call {t : ℕ} {pc : Pc} (hpc : s.threads t = .idle)
    (hcall : pc = .waitLock ∨ pc = .downLock ∨ pc = .getLock) : Step s (s.goto t pc)
  | acquire {t : ℕ} {pc : Pc} (hm : s.mutex = none)
    (hpc : (s.threads t = .waitLock ∨ s.threads t = .woken) ∧ pc = .waitTest ∨
      s.threads t = .downLock ∧ pc = .decrement ∨ s.threads t = .getLock ∧ pc = .read) :
    Step s { s.goto t pc with mutex := some t }
  | block {t : ℕ} (hpc : s.threads t = .waitTest) (hcount : 0 < s.count) :
    Step s (unlock t .waiting s)
  | pass {t : ℕ} (hpc : s.threads t = .waitTest) (hcount : s.count ≤ 0) :
    Step s (s.goto t .waitUnlock)
  | leave {t : ℕ} (hpc : s.threads t = .waitUnlock) :
    Step s { unlock t .idle s with waits := s.waits + 1 }
  | decrement {t : ℕ} (hpc : s.threads t = .decrement) :
    Step s { s.goto t (if s.count - 1 = 0 then .notify else .downUnlock) with
      count := s.count - 1
      downs := s.downs + 1 }
  | notify {t : ℕ} (hpc : s.threads t = .notify) : Step s ((notifyAll s).goto t .downUnlock)
  | release {t : ℕ} (hpc : s.threads t = .downUnlock ∨ s.threads t = .getUnlock) :
    Step s (unlock t .idle s)
  | read {t : ℕ} (hpc : s.threads t = .read) :
    Step s { s.goto t .getUnlock with counts := s.counts ++ [s.count] }
  | spurious {t : ℕ} (hpc : s.threads t = .waiting) : Step s (s.goto t .woken)

section
variable {s s' : State}

theorem lock_step {t : ℕ} {pc : Pc} (h : lock t pc s = .ok s')
    (hpc : (s.threads t = .waitLock ∨ s.threads t = .woken) ∧ pc = .waitTest ∨
      s.threads t = .downLock ∧ pc = .decrement ∨ s.threads t = .getLock ∧ pc = .read) :
    Step s s' := by
  obtain ⟨hm, h⟩ := enable_bind_eq_ok.mp h
  cases h
  exact .acquire hm hpc

/-- **The actions are the steps.** -/
theorem exec_step {a : Act} (h : exec s a = .ok s') : Step s s' := by
  cases a with
  | wait t =>
    obtain ⟨hpc, h⟩ := enable_bind_eq_ok.mp h
    cases h
    exact .call hpc (.inl rfl)
  | countDown t =>
    obtain ⟨hpc, h⟩ := enable_bind_eq_ok.mp h
    cases h
    exact .call hpc (.inr (.inl rfl))
  | getCount t =>
    obtain ⟨hpc, h⟩ := enable_bind_eq_ok.mp h
    cases h
    exact .call hpc (.inr (.inr rfl))
  | spurious t =>
    obtain ⟨hpc, h⟩ := enable_bind_eq_ok.mp h
    cases h
    exact .spurious hpc
  | next t =>
    change next t s = .ok s' at h
    unfold next at h
    cases hpc : s.threads t with
    | idle | waiting => simp only [hpc] at h; cases h
    | waitLock =>
      simp only [hpc] at h
      exact lock_step h (.inl ⟨.inl hpc, rfl⟩)
    | woken =>
      simp only [hpc] at h
      exact lock_step h (.inl ⟨.inr hpc, rfl⟩)
    | downLock =>
      simp only [hpc] at h
      exact lock_step h (.inr (.inl ⟨hpc, rfl⟩))
    | getLock =>
      simp only [hpc] at h
      exact lock_step h (.inr (.inr ⟨hpc, rfl⟩))
    | waitTest =>
      simp only [hpc] at h
      cases h
      split_ifs with hcount
      · exact .block hpc hcount
      · exact .pass hpc (not_lt.mp hcount)
    | waitUnlock =>
      simp only [hpc] at h
      cases h
      exact .leave hpc
    | decrement =>
      simp only [hpc] at h
      obtain ⟨-, h⟩ := check_bind_eq_ok.mp h
      cases h
      exact .decrement hpc
    | notify =>
      simp only [hpc] at h
      cases h
      exact .notify hpc
    | downUnlock =>
      simp only [hpc] at h
      cases h
      exact .release (.inl hpc)
    | getUnlock =>
      simp only [hpc] at h
      cases h
      exact .release (.inr hpc)
    | read =>
      simp only [hpc] at h
      cases h
      exact .read hpc

end

/-! ### The invariant -/

/-- The thread is in the critical section. -/
def Pc.holds : Pc → Bool
  | .waitTest | .waitUnlock | .decrement | .notify | .downUnlock | .read | .getUnlock => true
  | _ => false

/-- **What holds of a latch** whose count was `n`. -/
structure Latched (n : ℤ) (s : State) : Prop where
  guarded : Guarded s.mutex fun t => (s.threads t).holds = true
  count : s.count = n - s.downs
  leaving : ∀ t, s.threads t = .waitUnlock → s.count ≤ 0
  left : 0 < s.waits → s.count ≤ 0
  notifying : ∀ t, s.threads t = .notify → s.count = 0
  asleep : ∀ t, s.threads t = .waiting → 0 < s.count ∨ ∃ u, s.threads u = .notify
  counts : (s.counts ++ [s.count]).Pairwise (· ≥ ·)

theorem latched_initial (n : ℤ) : Latched n (initial n) where
  guarded t := iff_of_false Bool.false_ne_true nofun
  count := (Int.sub_zero n).symm
  leaving _ h := by cases h
  left h := absurd h (Nat.lt_irrefl 0)
  notifying _ h := by cases h
  asleep _ h := by cases h
  counts := List.pairwise_singleton _ _

section
variable {n : ℤ} {s s' : State} {t : ℕ} {pc : Pc}

theorem goto_threads_self : (s.goto t pc).threads t = pc := Function.update_self _ _ _

theorem goto_threads_of_ne {u : ℕ} (hu : u ≠ t) : (s.goto t pc).threads u = s.threads u :=
  Function.update_of_ne hu _ _

theorem holds_goto_of_ne {u : ℕ} (hu : u ≠ t) :
    ((s.goto t pc).threads u).holds = true ↔ (s.threads u).holds = true := by
  rw [goto_threads_of_ne hu]

theorem Latched.guarded_goto (h : Latched n s) (hpc : pc.holds = (s.threads t).holds) :
    Guarded s.mutex fun u => ((s.goto t pc).threads u).holds = true :=
  h.guarded.congr fun u => by
    rcases eq_or_ne u t with rfl | hu
    · rw [goto_threads_self, hpc]
    · exact holds_goto_of_ne hu

theorem Latched.guarded_unlock (h : Latched n s) (hold : (s.threads t).holds = true)
    (hpc : pc.holds = false) :
    Guarded none fun u => ((s.goto t pc).threads u).holds = true := by
  have hm := (h.guarded t).mp hold
  have hguarded := h.guarded
  rw [hm] at hguarded
  refine hguarded.release (fun u hu => holds_goto_of_ne hu) fun hx => ?_
  rw [goto_threads_self, hpc] at hx
  cases hx

/-- A thread goes on to where it neither blocks nor notifies, and the count stays. -/
theorem Latched.goto (h : Latched n s) (hthreads : s'.threads = (s.goto t pc).threads)
    (hguarded : Guarded s'.mutex fun u => ((s.goto t pc).threads u).holds = true)
    (hcount : s'.count = s.count) (hdowns : s'.downs = s.downs)
    (hcounts : (s'.counts ++ [s'.count]).Pairwise (· ≥ ·)) (hleft : 0 < s'.waits → s.count ≤ 0)
    (hleaving : pc = .waitUnlock → s.count ≤ 0) (hnotify : pc ≠ .notify)
    (hold : s.threads t ≠ .notify) (hwaiting : pc = .waiting → 0 < s.count) : Latched n s' := by
  refine ⟨hthreads ▸ hguarded, by rw [hcount, hdowns]; exact h.count, fun u hu => ?_,
    fun hw => by rw [hcount]; exact hleft hw, fun u hu => ?_, fun u hu => ?_, hcounts⟩
  · rw [hcount]
    rw [hthreads] at hu
    rcases eq_or_ne u t with rfl | hne
    · rw [goto_threads_self] at hu
      exact hleaving hu
    · rw [goto_threads_of_ne hne] at hu
      exact h.leaving u hu
  · rw [hcount]
    rw [hthreads] at hu
    rcases eq_or_ne u t with rfl | hne
    · rw [goto_threads_self] at hu
      exact absurd hu hnotify
    · rw [goto_threads_of_ne hne] at hu
      exact h.notifying u hu
  · rw [hcount]
    rw [hthreads] at hu
    rcases eq_or_ne u t with rfl | hne
    · rw [goto_threads_self] at hu
      exact .inl (hwaiting hu)
    · rw [goto_threads_of_ne hne] at hu
      refine (h.asleep u hu).imp_right fun ⟨v, hv⟩ => ⟨v, ?_⟩
      have hvt : v ≠ t := fun heq => hold (heq ▸ hv)
      rw [hthreads, goto_threads_of_ne hvt]
      exact hv

/-- The thread in the critical section takes one from the count. -/
theorem Latched.decrement (h : Latched n s) (hpc : s.threads t = .decrement) :
    Latched n { s.goto t (if s.count - 1 = 0 then .notify else .downUnlock) with
      count := s.count - 1
      downs := s.downs + 1 } := by
  have hholds : (s.threads t).holds = true := by
    rw [hpc]
    rfl
  -- no other thread is in the critical section
  have halone : ∀ u, u ≠ t → (s.threads u).holds = false := fun u hu =>
    Bool.eq_false_iff.mpr fun hx => hu (h.guarded.unique hholds hx)
  refine ⟨h.guarded_goto ?_, ?_, fun u hu => ?_, fun hw => ?_, fun u hu => ?_, fun u hu => ?_, ?_⟩
  · rw [hpc]
    split_ifs <;> rfl
  · show s.count - 1 = n - (s.downs + 1 : ℕ)
    have := h.count
    omega
  · change (s.goto t _).threads u = .waitUnlock at hu
    rcases eq_or_ne u t with rfl | hne
    · rw [goto_threads_self] at hu
      split_ifs at hu
    · rw [goto_threads_of_ne hne] at hu
      have hfalse := halone u hne
      rw [hu] at hfalse
      cases hfalse
  · show s.count - 1 ≤ 0
    have := h.left hw
    omega
  · change (s.goto t _).threads u = .notify at hu
    show s.count - 1 = 0
    rcases eq_or_ne u t with rfl | hne
    · rw [goto_threads_self] at hu
      split_ifs at hu with hzero
      exact hzero
    · rw [goto_threads_of_ne hne] at hu
      have hfalse := halone u hne
      rw [hu] at hfalse
      cases hfalse
  · change (s.goto t _).threads u = .waiting at hu
    show 0 < s.count - 1 ∨ ∃ v, (s.goto t _).threads v = .notify
    have hne : u ≠ t := by
      rintro rfl
      rw [goto_threads_self] at hu
      split_ifs at hu
    rw [goto_threads_of_ne hne] at hu
    rcases h.asleep u hu with hpos | ⟨v, hv⟩
    · by_cases hzero : s.count - 1 = 0
      · exact .inr ⟨t, by rw [goto_threads_self, if_pos hzero]⟩
      · exact .inl (by omega)
    · have hvt : v ≠ t := by
        rintro rfl
        rw [hpc] at hv
        cases hv
      have hfalse := halone v hvt
      rw [hv] at hfalse
      cases hfalse
  · show (s.counts ++ [s.count - 1]).Pairwise (· ≥ ·)
    obtain ⟨h1, -, h2⟩ := List.pairwise_append.mp h.counts
    refine List.pairwise_append.mpr ⟨h1, List.pairwise_singleton _ _, fun x hx y hy => ?_⟩
    have := h2 x hx s.count (List.mem_singleton_self _)
    rw [List.mem_singleton.mp hy]
    omega

/-- The notifying thread wakes all that are blocked. -/
theorem Latched.notify (h : Latched n s) (hpc : s.threads t = .notify) :
    Latched n ((notifyAll s).goto t .downUnlock) := by
  have hwake : ∀ pc : Pc, pc.wake.holds = pc.holds := fun pc => by cases pc <;> rfl
  have hzero := h.notifying t hpc
  have hne : ∀ {u pc}, ((notifyAll s).goto t .downUnlock).threads u = pc → pc ≠ .downUnlock →
      u ≠ t ∧ (s.threads u).wake = pc := by
    intro u pc hu hpc'
    have hut : u ≠ t := by
      rintro rfl
      rw [goto_threads_self] at hu
      exact hpc' hu.symm
    rw [goto_threads_of_ne hut] at hu
    exact ⟨hut, hu⟩
  refine ⟨h.guarded.congr fun u => ?_, h.count, fun u hu => Int.le_of_eq hzero, h.left,
    fun u hu => hzero, fun u hu => ?_, h.counts⟩
  · rcases eq_or_ne u t with rfl | hu
    · rw [goto_threads_self, hpc]
      exact Iff.rfl
    · rw [goto_threads_of_ne hu]
      show (s.threads u).wake.holds = true ↔ _
      rw [hwake]
  · obtain ⟨-, hw⟩ := hne hu nofun
    cases hpc' : s.threads u <;> rw [hpc'] at hw <;> cases hw

theorem latched_step (h : Latched n s) (hs : Step s s') : Latched n s' := by
  cases hs with
  | @call t pc hpc hcall =>
    have hholds : pc.holds = (s.threads t).holds := by
      rw [hpc]
      rcases hcall with rfl | rfl | rfl <;> rfl
    refine h.goto rfl (h.guarded_goto hholds) rfl rfl h.counts h.left ?_ ?_ (by rw [hpc]; nofun) ?_
    all_goals rcases hcall with rfl | rfl | rfl <;> nofun
  | @acquire t pc hm hpc =>
    have hholds : pc.holds = true := by
      rcases hpc with ⟨-, rfl⟩ | ⟨-, rfl⟩ | ⟨-, rfl⟩ <;> rfl
    have hguarded := h.guarded
    rw [hm] at hguarded
    have hguarded' : Guarded (some t) fun u => ((s.goto t pc).threads u).holds = true :=
      hguarded.acquire (fun u hu => holds_goto_of_ne hu) (by rw [goto_threads_self, hholds])
    refine h.goto rfl hguarded' rfl rfl h.counts h.left ?_ ?_ ?_ ?_
    · rcases hpc with ⟨-, rfl⟩ | ⟨-, rfl⟩ | ⟨-, rfl⟩ <;> nofun
    · rcases hpc with ⟨-, rfl⟩ | ⟨-, rfl⟩ | ⟨-, rfl⟩ <;> nofun
    · rcases hpc with ⟨hpc | hpc, -⟩ | ⟨hpc, -⟩ | ⟨hpc, -⟩ <;> rw [hpc] <;> nofun
    · rcases hpc with ⟨-, rfl⟩ | ⟨-, rfl⟩ | ⟨-, rfl⟩ <;> nofun
  | block hpc hcount =>
    exact h.goto rfl (h.guarded_unlock (by rw [hpc]; rfl) rfl) rfl rfl h.counts h.left nofun nofun
      (by rw [hpc]; nofun) fun _ => hcount
  | pass hpc hcount =>
    exact h.goto rfl (h.guarded_goto (by rw [hpc]; rfl)) rfl rfl h.counts h.left (fun _ => hcount)
      nofun (by rw [hpc]; nofun) nofun
  | leave hpc =>
    exact h.goto rfl (h.guarded_unlock (by rw [hpc]; rfl) rfl) rfl rfl h.counts
      (fun _ => h.leaving _ hpc) nofun nofun (by rw [hpc]; nofun) nofun
  | decrement hpc => exact h.decrement hpc
  | notify hpc => exact h.notify hpc
  | release hpc =>
    refine h.goto rfl (h.guarded_unlock ?_ rfl) rfl rfl h.counts h.left nofun nofun ?_ nofun
    · rcases hpc with hpc | hpc <;> rw [hpc] <;> rfl
    · rcases hpc with hpc | hpc <;> rw [hpc] <;> nofun
  | read hpc =>
    refine h.goto rfl (h.guarded_goto (by rw [hpc]; rfl)) rfl rfl ?_ h.left nofun nofun
      (by rw [hpc]; nofun) nofun
    show ((s.counts ++ [s.count]) ++ [s.count]).Pairwise (· ≥ ·)
    refine List.pairwise_append.mpr ⟨h.counts, List.pairwise_singleton _ _, fun x hx y hy => ?_⟩
    rw [List.mem_singleton.mp hy]
    rcases List.mem_append.mp hx with hx | hx
    · exact (List.pairwise_append.mp h.counts).2.2 x hx _ (List.mem_singleton_self _)
    · rw [List.mem_singleton.mp hx]
  | spurious hpc =>
    exact h.goto rfl (h.guarded_goto (by rw [hpc]; rfl)) rfl rfl h.counts h.left nofun nofun
      (by rw [hpc]; nofun) nofun

end

/-! ### The runs -/

theorem run_latched {n : ℤ} {s : State} {l : List Act} (hr : Run exec (initial n) l s) :
    Latched n s :=
  Run.induction (P := fun _ s => Latched n s) (latched_initial n)
    (fun _ _ _ _ _ h ha => latched_step h (exec_step ha)) hr

/-- A thread that competes for the free mutex leaves `wait` if the count has come down. -/
theorem wait_returns {s : State} {t : ℕ} (hm : s.mutex = none) (hcount : s.count ≤ 0)
    (hpc : s.threads t = .waitLock ∨ s.threads t = .woken) :
    ∃ s', Run exec s [.next t, .next t, .next t] s' ∧ s'.threads t = .idle ∧
      s'.waits = s.waits + 1 := by
  have h1 : exec s (.next t) = .ok { s.goto t .waitTest with mutex := some t } := by
    show next t s = _
    unfold next
    rcases hpc with hpc | hpc <;> rw [hpc] <;> exact enable_bind_of hm
  have h2 : exec { s.goto t .waitTest with mutex := some t } (.next t) =
      .ok (State.goto { s.goto t .waitTest with mutex := some t } t .waitUnlock) := by
    show next t _ = _
    unfold next
    have hself : ({ s.goto t .waitTest with mutex := some t } : State).threads t = .waitTest :=
      goto_threads_self
    rw [hself]
    exact congrArg _ (if_neg (not_lt.mpr hcount))
  have h3 : ∀ {u : State}, u.threads t = .waitUnlock →
      exec u (.next t) = .ok { unlock t .idle u with waits := u.waits + 1 } := fun hu => by
    show next t _ = _
    unfold next
    rw [hu]
  refine ⟨_, run_cons.mpr ⟨_, h1, run_cons.mpr ⟨_, h2, run_cons.mpr ⟨_, h3 ?_, run_nil.mpr rfl⟩⟩⟩,
    ?_, rfl⟩
  · exact goto_threads_self
  · exact goto_threads_self

/-- **The latch** opens after `n` calls of `count_down` and not before, and no thread is left
behind: in every state of every run a call of `wait` has returned only if they have been made, and
if they have, no thread is blocked while the mutex is free, and each thread in `wait` that gets the
mutex returns. The values that `get_count` reads do not increase. -/
theorem latch_ok {n : ℤ} {s : State} {l : List Act} (hr : Run exec (initial n) l s) :
    s.count = n - s.downs ∧ (0 < s.waits → n ≤ s.downs) ∧ s.counts.Pairwise (· ≥ ·) ∧
      (n ≤ s.downs → s.mutex = none → ∀ t, s.threads t ≠ .waiting ∧
        (s.threads t = .waitLock ∨ s.threads t = .woken →
          ∃ s', Run exec s [.next t, .next t, .next t] s' ∧ s'.threads t = .idle ∧
            s'.waits = s.waits + 1)) := by
  have h := run_latched hr
  have hcount := h.count
  refine ⟨hcount, fun hw => ?_, (List.pairwise_append.mp h.counts).1, fun hdowns hm t => ⟨?_, ?_⟩⟩
  · have := h.left hw
    omega
  · intro hwaiting
    rcases h.asleep t hwaiting with hpos | ⟨u, hu⟩
    · omega
    · -- the notifying thread would hold the mutex
      have hholds := (h.guarded u).mp (show (s.threads u).holds = true by rw [hu]; rfl)
      rw [hm] at hholds
      cases hholds
  · exact wait_returns hm (by omega)

/-- Two threads are blocked when the second of two `count_down`s is about to notify them. -/
def twoBlocked : List Act :=
  [.wait 0, .next 0, .next 0, .wait 1, .next 1, .next 1, .countDown 2] ++
    List.replicate 3 (.next 2) ++ [.getCount 2, .next 2, .next 2, .next 2, .countDown 2, .next 2,
      .next 2, .next 2, .next 2]

theorem latch_ok_twoBlocked : let s := after exec (initial 2) twoBlocked
    s.count = 2 - s.downs ∧ (0 < s.waits → (2 : ℤ) ≤ s.downs) ∧ s.counts.Pairwise (· ≥ ·) ∧
      ((2 : ℤ) ≤ s.downs → s.mutex = none → ∀ t, s.threads t ≠ .waiting ∧
        (s.threads t = .waitLock ∨ s.threads t = .woken →
          ∃ s', Run exec s [.next t, .next t, .next t] s' ∧ s'.threads t = .idle ∧
            s'.waits = s.waits + 1)) :=
  latch_ok (run_after (l := twoBlocked) rfl)

end ToolsCxx.Base.CountDownLatch
