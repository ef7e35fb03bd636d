import ToolsCxx.Lib.Transitions
import ToolsCxx.SchedulerThread.Steps

/-! # The scheduler threads: `start`

The owner waits in `start` until the worker has stored `m_scheduler`. The worker notifies after it
has released the mutex, and only once; nevertheless the owner is not blocked when the worker has
notified (`Heard`). `start_returns`: in every state of a run `start` can still be brought to its end
by the two threads alone, in a bounded number of steps, and the pointer it returns is not null. -/

namespace ToolsCxx.SchedulerThread.Startup

open ToolsCxx.Lib.Machine ToolsCxx.Lib.Lock
open ToolsCxx.SchedulerThread.Model ToolsCxx.SchedulerThread.Steps

/-- The owner is in `start`. -/
def inStart : Owner → Bool
  | .create | .lock | .test | .wait | .waiting | .woken | .copy | .unlock | .read => true
  | _ => false

/-- The worker has still to notify. -/
def Notifies : Worker → Prop
  | .construct | .lock | .publish | .unlock | .notify => True
  | _ => False

/-- **The notification is heard**: an owner that blocks has found `m_scheduler` null, and one that
is blocked will be notified. -/
structure Heard (s : State) : Prop where
  born : inStart s.owner = true → s.worker = .unborn → s.owner = .create
  null : s.owner = .wait → s.scheduler = false
  blocked : s.owner = .waiting → Notifies s.worker

theorem heard_initial : Heard initial := ⟨nofun, nofun, nofun⟩

section
variable {k : Kind} {s s' : State} {a : Act}

/-- The worker has been created. -/
theorem Heard.ne_unborn (h : Heard s) {o : Owner} (ho : s.owner = o) (hin : inStart o = true)
    (hne : o ≠ .create) : s.worker ≠ .unborn :=
  fun hw => hne (ho.symm.trans (h.born (ho.symm ▸ hin) hw))

theorem heard_move {o o' : Owner} (h : Heard s) (ho : s.owner = o) (hm : Move k s a o o') :
    Heard { s with owner := o' } := by
  cases hm with
  | null hnull =>
    exact ⟨fun _ hw => absurd hw (h.ne_unborn ho rfl nofun), fun _ => hnull, nofun⟩
  | seenTimer | seenCo | copy | spurious =>
    exact ⟨fun _ hw => absurd hw (h.ne_unborn ho rfl nofun), nofun, nofun⟩
  | start => exact ⟨fun _ _ => rfl, nofun, nofun⟩
  | read | dtorQuit | dtorNull | join | dtorIdle | dtorFree | quit | use =>
    exact ⟨nofun, nofun, nofun⟩

/-- The worker goes on. -/
theorem Heard.worker {o : Owner} {w : Worker} (h : Heard s) (ho : s'.owner = o)
    (hw : s'.worker = w) (howner : o = s.owner ∨ o = .woken) (hborn : w ≠ .unborn)
    (hnull : o = .wait → s'.scheduler = s.scheduler) (hnotifies : o = .waiting → Notifies w) :
    Heard s' where
  born _ hu := absurd (hw.symm.trans hu) hborn
  null hwait := by
    rw [ho] at hwait
    rcases howner with howner | howner
    · exact (hnull hwait).trans (h.null (howner.symm.trans hwait))
    · exact nomatch howner.symm.trans hwait
  blocked hwaiting := hw ▸ hnotifies (ho.symm.trans hwaiting)

theorem heard_step (hi : Inv s) (h : Heard s) (hs : Step k s a s') : Heard s' := by
  -- an owner that is blocked has not been notified
  have hblocked : ∀ {w}, s.worker = w → ¬ Notifies w → s.owner ≠ .waiting := fun hw hno ho =>
    hno (hw ▸ h.blocked ho)
  cases hs with
  | move hpc => exact heard_move h rfl hpc
  | create => exact ⟨nofun, nofun, nofun⟩
  | acquire hpc =>
    refine ⟨fun _ hw => absurd hw ?_, nofun, nofun⟩
    rcases hpc with hpc | hpc
    · exact h.ne_unborn hpc rfl nofun
    · exact h.ne_unborn hpc rfl nofun
  | wait hpc =>
    have hborn := h.ne_unborn hpc rfl nofun
    refine ⟨fun _ hw => absurd hw hborn, nofun, fun _ => ?_⟩
    have hnull := h.null hpc
    show Notifies s.worker
    by_contra hno
    have hpublished : Published s.worker := by
      cases hw : s.worker <;> rw [hw] at hno hborn <;>
        first | exact trivial | exact absurd trivial hno | exact absurd rfl hborn
    rw [hi.published.mpr hpublished] at hnull
    cases hnull
  | release hpc hk =>
    refine ⟨fun _ hw => absurd hw (h.ne_unborn hpc rfl nofun), ?_, ?_⟩
    · rcases hk with rfl | rfl <;> exact nofun
    · rcases hk with rfl | rfl <;> exact nofun
  | @quit pc dtor =>
    cases pc <;> cases k <;> cases dtor <;> exact ⟨nofun, nofun, nofun⟩
  | construct hpc | workerAcquire hpc | workerRelease hpc =>
    exact h.worker rfl rfl (.inl rfl) nofun (fun _ => rfl) fun _ => trivial
  | publish hpc =>
    refine h.worker rfl rfl (.inl rfl) nofun (fun ho => ?_) fun _ => trivial
    -- both would hold the mutex
    have hholds : Holds s.owner s.worker .owner := by rw [ho]; rfl
    have := hi.guarded.unique hholds (u := .worker) (by rw [hpc]; rfl)
    cases this
  | notify hpc =>
    refine h.worker rfl rfl ?_ nofun (fun _ => rfl) ?_
    · split_ifs
      · exact .inr rfl
      · exact .inl rfl
    · split_ifs with ho
      · exact nofun
      · exact fun hwaiting => absurd hwaiting ho
  | clear hpc | again hpc | leave hpc | body hpc | destroy hpc =>
    exact h.worker rfl rfl (.inl rfl) nofun (fun _ => rfl)
      fun ho => absurd ho (hblocked hpc nofun)
  | callback | share | clientCall | clientQuit => exact ⟨h.born, h.null, h.blocked⟩

/-! ### Progress -/

/-- How far the owner is from the end of `start`. -/
def ownerRank : Owner → ℕ
  | .create => 8
  | .lock | .woken => 7
  | .test => 6
  | .wait => 5
  | .waiting => 4
  | .copy => 3
  | .unlock => 2
  | .read => 1
  | _ => 0

/-- How far the worker is from having notified. -/
def workerRank : Worker → ℕ
  | .unborn => 6
  | .construct => 5
  | .lock => 4
  | .publish => 3
  | .unlock => 2
  | .notify => 1
  | _ => 0

/-- What is left to do: an owner that is woken goes back, once. -/
def remaining (s : State) : ℕ := 8 * workerRank s.worker + ownerRank s.owner

theorem remaining_le (s : State) : remaining s ≤ 56 := by
  have hworker : ∀ w, workerRank w ≤ 6 := by rintro (_ | _) <;> decide
  have howner : ∀ o, ownerRank o ≤ 8 := by rintro (_ | _) <;> exact Nat.le_of_ble_eq_true rfl
  exact Nat.add_le_add (Nat.mul_le_mul_left 8 (hworker s.worker)) (howner s.owner)

/-- A mutex that neither thread holds is free. -/
theorem mutex_eq_none (hi : Inv s) (ho : ownerHolds s.owner = false)
    (hw : workerHolds s.worker = false) : s.mutex = none := by
  have hguarded := hi.guarded
  cases hm : s.mutex with
  | none => rfl
  | some t =>
    have hholds := (hguarded t).mpr hm
    cases t with
    | owner => exact nomatch ho.symm.trans hholds
    | worker => exact nomatch hw.symm.trans hholds

/-- The worker comes nearer to the notification, unless it has to wait for the mutex. -/
theorem worker_goes (hn : Notifies s.worker) (hm : s.worker = .lock → s.mutex = none) :
    ∃ t, exec k s .worker = .ok t ∧ workerRank t.worker < workerRank s.worker ∧
      (t.owner = s.owner ∨ s.owner = .waiting ∧ t.owner = .woken) := by
  have hexec : exec k s .worker = threadFunc s := rfl
  rw [hexec]
  unfold threadFunc
  cases hw : s.worker with
  | construct | publish | unlock => exact ⟨_, rfl, Nat.lt_succ_self _, .inl rfl⟩
  | lock =>
    dsimp only
    rw [enable_bind_of (hm hw)]
    exact ⟨_, rfl, Nat.lt_succ_self _, .inl rfl⟩
  | notify =>
    refine ⟨_, rfl, Nat.lt_succ_self _, ?_⟩
    dsimp only
    split_ifs with ho
    · exact .inr ⟨ho, rfl⟩
    · exact .inl rfl
  | unborn | clear | test | body | destroy | exited => rw [hw] at hn; exact absurd hn id

/-- The owner comes nearer to the end of `start`, unless it has to wait. -/
theorem owner_goes (hi : Inv s) (hin : inStart s.owner = true) (hwaiting : s.owner ≠ .waiting)
    (hm : s.owner = .lock ∨ s.owner = .woken → s.mutex = none) :
    ∃ t, exec k s .owner = .ok t ∧ (inStart t.owner = true ∨ t.owner = .free) ∧
      ownerRank t.owner < ownerRank s.owner ∧ workerRank t.worker ≤ workerRank s.worker := by
  have hexec : exec k s .owner = ownerStep k s := rfl
  rw [hexec]
  unfold ownerStep
  cases ho : s.owner with
  | create =>
    refine ⟨_, rfl, .inl rfl, Nat.lt_succ_self _, ?_⟩
    rw [unborn_of_create hi.seen ho]
    exact Nat.le_succ _
  | lock | woken =>
    dsimp only
    rw [enable_bind_of (hm (by rw [ho]; first | exact .inl rfl | exact .inr rfl))]
    exact ⟨_, rfl, .inl rfl, Nat.lt_succ_self _, Nat.le_refl _⟩
  | test =>
    dsimp only
    cases s.scheduler with
    | false => exact ⟨_, rfl, .inl rfl, Nat.lt_succ_self _, Nat.le_refl _⟩
    | true =>
      cases k with
      | timer => exact ⟨_, rfl, .inl rfl, Nat.le_of_ble_eq_true rfl, Nat.le_refl _⟩
      | co => exact ⟨_, rfl, .inl rfl, Nat.le_of_ble_eq_true rfl, Nat.le_refl _⟩
  | unlock =>
    cases k with
    | timer => exact ⟨_, rfl, .inl rfl, Nat.lt_succ_self _, Nat.le_refl _⟩
    | co => exact ⟨_, rfl, .inr rfl, Nat.le_of_ble_eq_true rfl, Nat.le_refl _⟩
  | wait | copy => exact ⟨_, rfl, .inl rfl, Nat.lt_succ_self _, Nat.le_refl _⟩
  | read => exact ⟨_, rfl, .inr rfl, Nat.lt_succ_self _, Nat.le_refl _⟩
  | waiting => exact absurd ho hwaiting
  | idle | free | quitting | dtor | join | done => rw [ho] at hin; cases hin

/-- **There is always a step in `start`**, of one of the two threads, that leaves less to do. -/
theorem exists_step (k : Kind) (hi : Inv s) (h : Heard s) (hin : inStart s.owner = true) :
    ∃ a t, (a = .owner ∨ a = .worker) ∧ exec k s a = .ok t ∧
      (inStart t.owner = true ∨ t.owner = .free) ∧ remaining t < remaining s := by
  have hworker : Notifies s.worker → (s.worker = .lock → s.mutex = none) →
      ∃ a t, (a = .owner ∨ a = .worker) ∧ exec k s a = .ok t ∧
        (inStart t.owner = true ∨ t.owner = .free) ∧ remaining t < remaining s := by
    intro hn hm
    obtain ⟨t, ht, hlt, ho⟩ := worker_goes (k := k) hn hm
    have hrank : inStart t.owner = true ∧ ownerRank t.owner ≤ ownerRank s.owner + 3 := by
      rcases ho with ho | ⟨hwaiting, ho⟩
      · rw [ho]
        exact ⟨hin, Nat.le_add_right _ 3⟩
      · rw [ho, hwaiting]
        exact ⟨rfl, Nat.le_refl _⟩
    refine ⟨.worker, t, .inr rfl, ht, .inl hrank.1, ?_⟩
    unfold remaining
    omega
  by_cases hwaiting : s.owner = .waiting
  · -- the worker is not in its critical section when it locks
    refine hworker (h.blocked hwaiting) fun hw => mutex_eq_none hi ?_ ?_
    · rw [hwaiting]; rfl
    · rw [hw]; rfl
  · by_cases hheld : (s.owner = .lock ∨ s.owner = .woken) ∧ workerHolds s.worker = true
    · obtain ⟨-, hw⟩ := hheld
      refine hworker ?_ fun hlock => ?_
      · cases hpc : s.worker <;> rw [hpc] at hw <;> first | exact trivial | cases hw
      · rw [hlock] at hw
        cases hw
    · obtain ⟨t, ht, hin', howner, hle⟩ := owner_goes (k := k) hi hin hwaiting fun hlock => by
        have hw : workerHolds s.worker = false :=
          Bool.eq_false_iff.mpr fun hw => hheld ⟨hlock, hw⟩
        refine mutex_eq_none hi ?_ hw
        rcases hlock with hlock | hlock <;> rw [hlock] <;> rfl
      refine ⟨.owner, t, .inl rfl, ht, hin', ?_⟩
      unfold remaining
      omega

/-! ### Every run -/

/-- **`start` returns.** In every state of a run an owner that is blocked will be notified; and
from every state in which the owner is in `start`, the owner and the worker alone can bring it to
its end, in at most 57 steps. The pointer is not null then, and the worker has released the
mutex. -/
theorem start_returns (k : Kind) {l : List Act} (hr : Run (exec k) initial l s) :
    (s.owner = .waiting → Notifies s.worker) ∧
    (inStart s.owner = true → ∃ l' s', (∀ a ∈ l', a = .owner ∨ a = .worker) ∧ l'.length ≤ 57 ∧
      Run (exec k) s l' s' ∧ s'.owner = .free ∧ s'.scheduler = true ∧ Released s'.worker) := by
  obtain ⟨hi, h⟩ := run_invariant (fun _ _ _ hi h hs => heard_step hi h hs) hr inv_initial
    heard_initial
  refine ⟨h.blocked, fun hin => ?_⟩
  have hprogress : ∀ t, Inv t ∧ Heard t ∧ (inStart t.owner = true ∨ t.owner = .free) →
      ¬ t.owner = .free → ∃ a u, (a = .owner ∨ a = .worker) ∧ exec k t a = .ok u ∧
        (Inv u ∧ Heard u ∧ (inStart u.owner = true ∨ u.owner = .free)) ∧
          (u.owner = .free ∨ remaining u < remaining t) := by
    rintro t ⟨hi, h, hin⟩ hne
    obtain ⟨a, u, ha, hu, hin', hlt⟩ := exists_step k hi h (hin.resolve_right hne)
    have hstep := exec_step hu
    exact ⟨a, u, ha, hu, ⟨inv_step hi hstep, heard_step hi h hstep, hin'⟩, .inr hlt⟩
  obtain ⟨l', s', hl, hlen, hrun, ⟨hi', -, -⟩, hfree⟩ := exists_run hprogress ⟨hi, h, .inl hin⟩
  have hreleased : Released s'.worker := by
    have hseen := hi'.seen
    rwa [hfree] at hseen
  have hpublished : Published s'.worker := by
    cases hw : s'.worker <;> rw [hw] at hreleased <;> first | exact trivial | exact hreleased
  exact ⟨l', s', hl, Nat.le_trans hlen (Nat.succ_le_succ (remaining_le s)), hrun, hfree,
    hi'.published.mpr hpublished, hreleased⟩

end

/-- The owner is blocked before the worker has constructed the scheduler. -/
def blocked : List Act := [.call .start, .owner, .owner, .owner, .owner]

theorem start_returns_blocked : let s := after (exec .timer) initial blocked
    (s.owner = .waiting → Notifies s.worker) ∧
    (inStart s.owner = true → ∃ l' s', (∀ a ∈ l', a = .owner ∨ a = .worker) ∧ l'.length ≤ 57 ∧
      Run (exec .timer) s l' s' ∧ s'.owner = .free ∧ s'.scheduler = true ∧ Released s'.worker) :=
  start_returns .timer (run_after (l := blocked) rfl)

end ToolsCxx.SchedulerThread.Startup
