import ToolsCxx.CoScheduler.Turns

/-! # `CoScheduler`: the passes over `m_coStore`

`round_robin`: in a pass the coroutines that are in `m_coStore` at its beginning are resumed once
each, in the order of their ids; those that return are erased and never resumed again, those that
yield stay; those that are created in the pass are ready at the beginning of the next one. `quit`
does not cut a pass short, and the pass can be completed at any moment. -/

namespace ToolsCxx.CoScheduler.Passes

open ToolsCxx.Base ToolsCxx.Lib.Machine ToolsCxx.Lib.OrderedMap
open ToolsCxx.CoScheduler.Model ToolsCxx.CoScheduler.Steps ToolsCxx.CoScheduler.Turns

/-! ### The coroutines that have returned -/

section
variable {s₀ s s' : State}

/-- A coroutine that has returned is in `m_coStore` only as finished, and is not resumed again. -/
structure Settled (s : State) : Prop where
  finished : ∀ id, .return id ∈ s.trace → id < s.coNum ∧
    ∀ co, s.coStore.find id = some co → co.status = .FINISHED
  order : s.trace.Pairwise fun e e' => ∀ id, e = .return id → e' ≠ .resume id

theorem settled_initial : Settled initial where
  finished _ h := absurd h List.not_mem_nil
  order := List.Pairwise.nil

/-- A coroutine is written that has not returned, and there is an event of it. -/
theorem Settled.of_event (h : Settled s) (id : ℤ) (co : Coroutine) (e : Event)
    (hno : .return id ∉ s.trace) (hlt : id < s.coNum)
    (hret : ∀ x, e = .return x → x = id ∧ co.status = .FINISHED)
    (hres : ∀ x, e = .resume x → x = id) (htrace : s'.trace = s.trace ++ [e])
    (hstore : s'.coStore = s.coStore.set id co) (hcoNum : s'.coNum = s.coNum) : Settled s' := by
  refine ⟨fun x hx => ?_, ?_⟩
  · rw [htrace, List.mem_append, List.mem_singleton] at hx
    rw [hcoNum, hstore]
    rcases hx with hx | hx
    · obtain ⟨hlt', hfin⟩ := h.finished x hx
      refine ⟨hlt', fun co' hco' => ?_⟩
      rcases OrdMap.find_set_cases hco' with ⟨rfl, -⟩ | ⟨-, hco'⟩
      · exact absurd hx hno
      · exact hfin co' hco'
    · obtain ⟨rfl, hfin⟩ := hret x hx.symm
      refine ⟨hlt, fun co' hco' => ?_⟩
      rw [OrdMap.find_set_self] at hco'
      exact Option.some.inj hco' ▸ hfin
  · rw [htrace]
    refine List.pairwise_append.mpr ⟨h.order, List.pairwise_singleton _ _, ?_⟩
    rintro e₁ he₁ e₂ he₂ x rfl rfl
    obtain rfl := hres x (List.mem_singleton.mp he₂).symm
    exact hno he₁

/-- No event, and the coroutines are those that were there, or new ones. -/
theorem Settled.of_store (h : Settled s) (htrace : s'.trace = s.trace)
    (hle : s.coNum ≤ s'.coNum)
    (hstore : ∀ id co, s'.coStore.find id = some co → id < s.coNum → s.coStore.find id = some co) :
    Settled s' := by
  refine ⟨fun x hx => ?_, htrace ▸ h.order⟩
  obtain ⟨hlt, hfin⟩ := h.finished x (htrace ▸ hx)
  exact ⟨hlt.trans_le hle, fun co hco => hfin co (hstore x co hco hlt)⟩

theorem Settled.of_same (h : Settled s) (htrace : s'.trace = s.trace)
    (hstore : s'.coStore = s.coStore) (hcoNum : s'.coNum = s.coNum) : Settled s' :=
  h.of_store htrace hcoNum.ge fun _ _ hco _ => hstore ▸ hco

theorem settled_added (h : Settled s) {t : Task} : Settled (added t s) := by
  refine h.of_store rfl (Int.le_add_one le_rfl) fun id co hco hlt => ?_
  rcases OrdMap.find_set_cases hco with ⟨rfl, -⟩ | ⟨-, hco⟩
  · exact absurd hlt (lt_irrefl _)
  · exact hco

/-- A coroutine that is parked or running has not returned. -/
theorem Settled.not_returned (h : Settled s) {id : ℤ} {co : Coroutine}
    (hco : s.coStore.find id = some co) (hs : co.status ≠ .FINISHED) : .return id ∉ s.trace :=
  fun hr => hs ((h.finished id hr).2 co hco)

theorem settled_effect {a : Act} (hinv : Inv s) (h : Settled s) (he : Effect s s' a) :
    Settled s' := by
  cases a with
  | start =>
    obtain ⟨-, rfl⟩ := he
    exact h.of_same rfl rfl rfl
  | test => obtain ⟨-, ⟨-, rfl⟩ | ⟨-, rfl⟩⟩ := he <;> exact h.of_same rfl rfl rfl
  | visit =>
    obtain ⟨pos, co, -, hco, hpark, rfl⟩ := he
    have hno : co.status ≠ .FINISHED := by
      rcases hpark with hr | ⟨hs, -⟩
      · rw [hr]; exact nofun
      · rw [hs]; exact nofun
    refine h.of_event pos (Coroutine.resumed co) (.resume pos)
      (h.not_returned hco hno) (hinv.keys pos (OrdMap.mem_of_find hco)).2 nofun ?_ rfl rfl rfl
    rintro x ⟨⟩
    rfl
  | leave =>
    obtain ⟨pos, co, -, hco, ⟨-, -, rfl⟩ | ⟨-, -, -, rfl⟩⟩ := he
    · refine ⟨fun x hx => ?_, ?_⟩
      · have hx : .return x ∈ s.trace := by simpa using hx
        obtain ⟨hlt, hfin⟩ := h.finished x hx
        exact ⟨hlt, fun co' hco' => hfin co' (OrdMap.find_erase_cases hco').2⟩
      · refine List.pairwise_append.mpr ⟨h.order, List.pairwise_singleton _ _, ?_⟩
        rintro e - e' he' x - rfl
        cases List.mem_singleton.mp he'
    · exact h.of_same rfl rfl rfl
  | swapTasks =>
    obtain ⟨-, rfl⟩ := he
    exact h.of_same rfl rfl rfl
  | drainTask =>
    obtain ⟨task, tasks, -, -, rfl⟩ := he
    exact settled_added (s := { s with position := .draining tasks }) (h.of_same rfl rfl rfl)
  | drainDone =>
    obtain ⟨-, rfl⟩ := he
    exact h.of_same rfl rfl rfl
  | yield =>
    rcases he with ⟨-, -, rfl⟩ | ⟨id, co, hp, -, hco, rfl⟩
    · exact h
    · have hno : co.status ≠ .FINISHED := by rw [hinv.status_running hp hco]; exact nofun
      exact h.of_event id { co with status := .SUSPENDED, context := .body }
        (.yield id) (h.not_returned hco hno) (hinv.keys id (OrdMap.mem_of_find hco)).2 nofun
        nofun rfl rfl rfl
  | finish =>
    obtain ⟨id, co, hp, hco, rfl⟩ := he
    have hno : co.status ≠ .FINISHED := by rw [hinv.status_running hp hco]; exact nofun
    refine h.of_event id { co with status := .FINISHED } (.return id)
      (h.not_returned hco hno) (hinv.keys id (OrdMap.mem_of_find hco)).2 ?_ nofun rfl rfl rfl
    rintro x ⟨⟩
    exact ⟨rfl, rfl⟩
  | createCoroutine =>
    rcases he with ⟨-, -, rfl⟩ | ⟨-, -, -, rfl⟩
    · exact h.of_same rfl rfl rfl
    · exact settled_added (s := submit s) (h.of_same rfl rfl rfl)
  | clientCreate =>
    have hs : s' = pushTask s.submitted (submit s) := he
    rw [hs]
    exact h.of_same rfl rfl rfl
  | quit =>
    have hs : s' = { s with quit := true } := he
    rw [hs]
    exact h.of_same rfl rfl rfl

theorem reachable_settled {l : List Act} (hr : Run exec initial l s) : Settled s :=
  (run_invariant (P := Settled) (fun _ _ _ hinv h he _ => settled_effect hinv h he) hr inv_initial
    settled_initial).2

/-! ### The coroutines that are created in a pass -/

/-- The task `u`, submitted by a coroutine in a pass that has begun in `s₀`, is on its way to
`m_coStore`, or there in a coroutine that is ready. -/
def Awaits (s₀ : State) (u : Task) (s : State) : Prop :=
  (ended s.position = false ∧ u ∈ s.pendingTasks) ∨
  (∃ tasks, s.position = .draining tasks ∧ u ∈ tasks) ∨
  (ended s.position = true ∧ ∃ id, s₀.coNum ≤ id ∧ s.coStore.find id = some (.new u))

variable {u : Task}

/-- Before the end of the pass it is in `m_pendingTasks`. -/
theorem Awaits.pending (h : Awaits s₀ u s) (hp : ended s.position = false) :
    u ∈ s.pendingTasks := by
  rcases h with ⟨-, hu⟩ | ⟨tasks, hd, -⟩ | ⟨hov, -⟩
  · exact hu
  · rw [hd] at hp; cases hp
  · rw [hp] at hov; cases hov

/-- The vector is being drained. -/
theorem Awaits.drained (h : Awaits s₀ u s) {tasks : List Task} (hp : s.position = .draining tasks) :
    u ∈ tasks ∨ ∃ id, s₀.coNum ≤ id ∧ s.coStore.find id = some (.new u) := by
  rcases h with ⟨hov, -⟩ | ⟨tasks', hd, hu⟩ | ⟨-, hid⟩
  · rw [hp] at hov; cases hov
  · rw [hp] at hd
    cases hd
    exact .inl hu
  · exact .inr hid

/-- After that it is in `m_coStore`. -/
theorem Awaits.stored (h : Awaits s₀ u s) (hp : s.position = .test ∨ s.position = .outside) :
    ∃ id, s₀.coNum ≤ id ∧ s.coStore.find id = some (.new u) := by
  rcases h with ⟨hov, -⟩ | ⟨tasks, hd, -⟩ | ⟨-, hid⟩
  · rcases hp with hp | hp <;> (rw [hp] at hov; cases hov)
  · rcases hp with hp | hp <;> (rw [hp] at hd; cases hd)
  · exact hid

/-- The coroutine that is made is another one. -/
theorem stored_added (hinv : Inv s) {t : Task}
    (h : ∃ id, s₀.coNum ≤ id ∧ s.coStore.find id = some (.new u)) :
    ∃ id, s₀.coNum ≤ id ∧ (added t s).coStore.find id = some (.new u) := by
  obtain ⟨id, hle, hid⟩ := h
  have hlt := (hinv.keys id (OrdMap.mem_of_find hid)).2
  exact ⟨id, hle, (OrdMap.find_set_of_ne hlt.ne).trans hid⟩

/-- Nothing is changed but what is pushed. -/
theorem Awaits.of_same (h : Awaits s₀ u s) (hp : s'.position = s.position)
    (hpending : ∀ t ∈ s.pendingTasks, t ∈ s'.pendingTasks) (hstore : s'.coStore = s.coStore) :
    Awaits s₀ u s' := by
  unfold Awaits
  rw [hp, hstore]
  exact h.imp (And.imp_right (hpending u)) id

theorem awaits_step {a : Act} (hinv : Inv s) (hle : s₀.coNum ≤ s.coNum) (h : Awaits s₀ u s)
    (he : Effect s s' a) (hn : s'.passes = s.passes) : Awaits s₀ u s' := by
  cases a with
  | start =>
    obtain ⟨hp, rfl⟩ := he
    exact .inr (.inr ⟨rfl, h.stored (.inr hp)⟩)
  | test =>
    obtain ⟨hp, ⟨-, rfl⟩ | ⟨-, rfl⟩⟩ := he
    · exact .inr (.inr ⟨rfl, h.stored (.inl hp)⟩)
    · exact absurd hn (Nat.succ_ne_self _)
  | visit =>
    obtain ⟨pos, co, hp, -, -, rfl⟩ := he
    exact .inl ⟨rfl, h.pending (by rw [hp]; rfl)⟩
  | leave =>
    obtain ⟨pos, co, hp, -, ⟨-, -, rfl⟩ | ⟨-, -, -, rfl⟩⟩ := he <;>
      exact .inl ⟨rfl, h.pending (by rw [hp]; rfl)⟩
  | swapTasks =>
    obtain ⟨hp, rfl⟩ := he
    exact .inr (.inl ⟨_, rfl, h.pending (by rw [hp]; rfl)⟩)
  | drainTask =>
    obtain ⟨task, tasks, hp, -, rfl⟩ := he
    rcases h.drained hp with hu | hid
    · rcases List.mem_cons.mp hu with rfl | hu
      · exact .inr (.inr ⟨rfl, s.coNum, hle, OrdMap.find_set_self⟩)
      · exact .inr (.inl ⟨tasks, rfl, hu⟩)
    · exact .inr (.inr ⟨rfl, stored_added (s := s) hinv hid⟩)
  | drainDone =>
    obtain ⟨hp, rfl⟩ := he
    rcases h.drained hp with hu | hid
    · cases hu
    · exact .inr (.inr ⟨rfl, hid⟩)
  | yield =>
    rcases he with ⟨-, -, rfl⟩ | ⟨id, co, hp, -, -, rfl⟩
    · exact h
    · exact .inl ⟨rfl, h.pending (by rw [hp]; rfl)⟩
  | finish =>
    obtain ⟨id, co, hp, -, rfl⟩ := he
    exact .inl ⟨rfl, h.pending (by rw [hp]; rfl)⟩
  | createCoroutine =>
    rcases he with ⟨-, -, rfl⟩ | ⟨hp, -, -, rfl⟩
    · exact h.of_same rfl (fun t ht => List.mem_append_left _ ht) rfl
    · refine .inr (.inr ⟨?_, stored_added (s := s) hinv (h.stored (.inr hp))⟩)
      show ended s.position = true
      rw [hp]; rfl
  | clientCreate =>
    have hs : s' = pushTask s.submitted (submit s) := he
    rw [hs]
    exact h.of_same rfl (fun t ht => List.mem_append_left _ ht) rfl
  | quit =>
    have hs : s' = { s with quit := true } := he
    rw [hs]
    exact h.of_same rfl (fun _ => id) rfl

/-! ### A pass is completed -/

theorem visit_enabled (hinv : Inv s) {pos : ℤ} (hp : s.position = .visit (some pos)) :
    ∃ s', exec s .visit = .ok s' := by
  have hat := hinv.control
  rw [hp] at hat
  obtain ⟨co, hco⟩ := OrdMap.exists_of_mem hat
  rcases hinv.parked pos co hco (by rw [hp]; exact nofun) with hr | ⟨hs, hc⟩
  · simp [exec, visit, hp, deref, hco, hr, bind, Except.bind, switchTo, schedule, findCurCo, pure,
      Except.pure]
  · simp [exec, visit, hp, deref, hco, hs, hc, bind, Except.bind, switchTo]

theorem finish_enabled (hinv : Inv s) {id : ℤ} (hp : s.position = .running id) :
    ∃ s', exec s .finish = .ok s' := by
  have hat := hinv.control
  rw [hp] at hat
  obtain ⟨-, hmain, co, hco, -⟩ := hat
  simp [exec, finish, hp, deref, hco, bind, Except.bind, switchToMain, hmain]

theorem leave_enabled (hinv : Inv s) {pos : ℤ} (hp : s.position = .leave pos) :
    ∃ s', exec s .leave = .ok s' := by
  have hat := hinv.control
  rw [hp] at hat
  obtain ⟨co, hco, -⟩ := hat
  simp only [exec, leave, hp, deref, hco, bind, Except.bind, pure, Except.pure]
  split_ifs <;> exact ⟨_, rfl⟩

/-- The pass can be completed. -/
def Completes (s : State) : Prop :=
  ∃ l s', Run exec s l s' ∧ s'.passes = s.passes ∧ ended s'.position = true

theorem Completes.of_step {a : Act} (ha : exec s a = .ok s') (hn : s'.passes = s.passes)
    (h : Completes s') : Completes s := by
  obtain ⟨l, s'', hl, hp, hov⟩ := h
  exact ⟨a :: l, s'', run_cons.mpr ⟨s', ha, hl⟩, hp.trans hn, hov⟩

theorem leave_passes (he : Effect s s' .leave) : s'.passes = s.passes := by
  obtain ⟨pos, co, -, -, ⟨-, -, rfl⟩ | ⟨-, -, -, rfl⟩⟩ := he <;> rfl

/-- The coroutines whose turn has not come return in theirs. -/
theorem completes : ∀ {rest : List ℤ} {s : State} {done : List (ℤ × Outcome)}
    {events : List Event} {new : List ℤ}, Inv s → PassAt s₀ s done rest events new → Completes s
  | [], s, done, events, new, hinv, h => by
    have hturn := h.taking
    cases hp : s.position with
    | visit p =>
      rw [hp] at hturn
      obtain rfl : p = none := hturn.1
      have ha : exec s .swapTasks = .ok { s with
          position := .draining s.pendingTasks, pendingTasks := [] } := enable_bind_of hp
      exact Completes.of_step ha rfl ⟨[], _, run_nil.mpr rfl, rfl, rfl⟩
    | running id =>
      rw [hp] at hturn
      obtain ⟨⟨l, hl⟩, -⟩ := hturn
      cases hl
    | leave id =>
      rw [hp] at hturn
      obtain ⟨⟨l, hl⟩, -⟩ := hturn
      cases hl
    | outside | test | draining => exact ⟨[], s, run_nil.mpr rfl, rfl, by rw [hp]; rfl⟩
  | id :: l, s, done, events, new, hinv, h => by
    -- from the end of the turn on
    have hleave : ∀ {s : State} {events : List Event} {pos : ℤ}, Inv s →
        PassAt s₀ s done (id :: l) events new → s.position = .leave pos → Completes s := by
      intro s events pos hinv h hp
      obtain ⟨s', ha⟩ := leave_enabled hinv hp
      obtain ⟨he, hinv'⟩ := exec_effect hinv ha
      obtain ⟨id', o, l', hl, h'⟩ := passAt_leave hinv h he
      cases hl
      exact Completes.of_step ha (leave_passes he) (completes hinv' h')
    have hrunning : ∀ {s : State} {events : List Event} {id' : ℤ}, Inv s →
        PassAt s₀ s done (id :: l) events new → s.position = .running id' → Completes s := by
      intro s events id' hinv h hp
      obtain ⟨s', ha⟩ := finish_enabled hinv hp
      obtain ⟨⟨id'', co, hp', hco, rfl⟩, hinv'⟩ := exec_effect hinv ha
      obtain ⟨events', h'⟩ := passAt_left h { co with status := .FINISHED } (-1)
        hp' hco (.inr ⟨rfl, rfl⟩)
      exact Completes.of_step ha rfl (hleave hinv' h' rfl)
    have hturn := h.taking
    cases hp : s.position with
    | visit p =>
      rw [hp] at hturn
      obtain rfl : p = some id := hturn.1
      obtain ⟨s', ha⟩ := visit_enabled hinv hp
      obtain ⟨he, hinv'⟩ := exec_effect hinv ha
      obtain ⟨events', h'⟩ := passAt_visit h he
      obtain ⟨pos, co, -, -, -, rfl⟩ := he
      exact Completes.of_step ha rfl (hrunning hinv' h' rfl)
    | running id' => exact hrunning hinv h hp
    | leave pos => exact hleave hinv h hp
    | outside | test | draining =>
      rw [hp] at hturn
      cases hturn.1

/-! ### The runs -/

theorem effect_mono {a : Act} (he : Effect s s' a) :
    s.coNum ≤ s'.coNum ∧ s.passes ≤ s'.passes := by
  cases a with
  | start | swapTasks | drainDone =>
    obtain ⟨-, rfl⟩ := he
    exact ⟨le_rfl, le_rfl⟩
  | test =>
    obtain ⟨-, ⟨-, rfl⟩ | ⟨-, rfl⟩⟩ := he
    · exact ⟨le_rfl, le_rfl⟩
    · exact ⟨le_rfl, Nat.le_succ _⟩
  | visit =>
    obtain ⟨_, _, -, -, -, rfl⟩ := he
    exact ⟨le_rfl, le_rfl⟩
  | leave => obtain ⟨_, _, -, -, ⟨-, -, rfl⟩ | ⟨-, -, -, rfl⟩⟩ := he <;> exact ⟨le_rfl, le_rfl⟩
  | drainTask =>
    obtain ⟨_, _, -, -, rfl⟩ := he
    exact ⟨Int.le_add_one le_rfl, le_rfl⟩
  | yield => rcases he with ⟨-, -, rfl⟩ | ⟨_, _, -, -, -, rfl⟩ <;> exact ⟨le_rfl, le_rfl⟩
  | finish =>
    obtain ⟨_, _, -, -, rfl⟩ := he
    exact ⟨le_rfl, le_rfl⟩
  | createCoroutine =>
    rcases he with ⟨-, -, rfl⟩ | ⟨-, -, -, rfl⟩
    · exact ⟨le_rfl, le_rfl⟩
    · exact ⟨Int.le_add_one le_rfl, le_rfl⟩
  | clientCreate =>
    have hs : s' = pushTask s.submitted (submit s) := he
    rw [hs]
    exact ⟨le_rfl, le_rfl⟩
  | quit =>
    have hs : s' = { s with quit := true } := he
    rw [hs]
    exact ⟨le_rfl, le_rfl⟩

theorem run_mono {l : List Act} (hr : Run exec s l s') (hinv : Inv s) :
    s.coNum ≤ s'.coNum ∧ s.passes ≤ s'.passes :=
  (run_invariant (P := fun t => s.coNum ≤ t.coNum ∧ s.passes ≤ t.passes)
    (fun _ _ _ _ ⟨hnum, hpass⟩ he _ =>
      ⟨hnum.trans (effect_mono he).1, hpass.trans (effect_mono he).2⟩)
    hr hinv ⟨le_rfl, le_rfl⟩).2

/-- **The invariant rule for a pass**: the property is kept by the actions that do not begin
another one. -/
theorem run_in_pass (s₀ : State) {P : State → Prop}
    (hstep : ∀ t t' a, Steps.Inv t → s₀.coNum ≤ t.coNum → P t → Effect t t' a →
      t'.passes = t.passes → P t') {l : List Act} (hr : Run exec s l s')
    (hinv : Inv s) (hle : s₀.coNum ≤ s.coNum) (hP : P s) (hn : s'.passes = s.passes) : P s' := by
  have hrun := run_invariant
    (P := fun t => s.passes ≤ t.passes ∧ s₀.coNum ≤ t.coNum ∧ (t.passes = s.passes → P t))
    (fun t t' a hinv ⟨hpass, hnum, hPt⟩ he _ => by
      obtain ⟨hnum', hpass'⟩ := effect_mono he
      refine ⟨hpass.trans hpass', hnum.trans hnum', fun hn' => ?_⟩
      have hsame : t.passes = s.passes := by omega
      exact hstep t t' a hinv hnum (hPt hsame) he (by omega))
    hr hinv ⟨le_rfl, hle, fun _ => hP⟩
  exact hrun.2.2.2 hn

/-- The coroutine for a task that a coroutine creates is new, and ready at the end of the pass. -/
theorem stored_of_created {t t' : State} {id : ℤ} {l : List Act} (hinv : Steps.Inv t)
    (hp : t.position = .running id) (hle : s₀.coNum ≤ t.coNum)
    (ha : exec t .createCoroutine = .ok t') (h : Run exec t' l s) (hn : s.passes ≤ t'.passes)
    (hend : s.position = .test ∨ s.position = .outside) :
    ∃ id', s₀.coNum ≤ id' ∧ s.coStore.find id' = some (.new t.submitted) := by
  obtain ⟨he, hinv'⟩ := exec_effect hinv ha
  have hle' := hle.trans (effect_mono he).1
  have hpass := (run_mono h hinv').2
  have hawaits : Awaits s₀ t.submitted t' := by
    rcases he with ⟨-, -, rfl⟩ | ⟨hp', -⟩
    · refine .inl ⟨?_, List.mem_append_right _ (List.mem_singleton_self _)⟩
      show ended t.position = false
      rw [hp]; rfl
    · rw [hp] at hp'; cases hp'
  have hawaits' : Awaits s₀ t.submitted s :=
    run_in_pass s₀ (P := Awaits s₀ t.submitted)
      (fun _ _ _ hinv hle h he hn => awaits_step hinv hle h he hn) h hinv' hle' hawaits
      (le_antisymm hn hpass)
  exact hawaits'.stored hend

end

/-- **The pass that has begun in `s₀`**, after the actions `l`, in `s`. -/
structure RoundRobin (s₀ s₁ : State) (l : List Act) (s : State) : Prop where
  -- the turns are taken by the coroutines that were there, in the order of their ids; when the pass
  -- is over all have taken theirs, those that have returned are erased, the others are there
  turns : ∃ done rest events new, PassAt s₀ s done rest events new
  -- a coroutine that runs is the one `m_curCo` names
  running : ∀ id co, s.coStore.find id = some co → co.status = .RUNNING → s.curCo = id
  -- a coroutine that has returned is not resumed again
  returned : s.trace.Pairwise fun e e' => ∀ id, e = .return id → e' ≠ .resume id
  -- the coroutines made for the tasks that the coroutines create are new, and ready when the next
  -- pass begins
  created : ∀ l₁ l₂ t id, l = l₁ ++ .createCoroutine :: l₂ → Run exec s₁ l₁ t →
    t.position = .running id → s.position = .test ∨ s.position = .outside →
      ∃ id', s₀.coNum ≤ id' ∧ s.coStore.find id' = some (.new t.submitted)
  completes : Completes s

/-- **The passes are round-robin**, whatever the coroutines do, and whoever calls `quit`: a pass
begins in `s₀`, and no other one has begun up to `s`. -/
theorem round_robin {l₀ l : List Act} {s₀ s₁ s : State} (h₀ : Run exec initial l₀ s₀)
    (hb : exec s₀ .test = .ok s₁) (hq : s₀.quit = false) (h : Run exec s₁ l s)
    (hn : s.passes = s₁.passes) : RoundRobin s₀ s₁ l s := by
  have hinv₀ := reachable_inv h₀
  obtain ⟨⟨-, ⟨hq', -⟩ | ⟨-, hs₁⟩⟩, hinv₁⟩ := exec_effect hinv₀ hb
  · rw [hq] at hq'; cases hq'
  have hinv := run_inv h hinv₁
  have hnum : s₀.coNum ≤ s₁.coNum := by rw [hs₁]
  have hturns : ∃ done rest events new, PassAt s₀ s done rest events new := by
    refine run_in_pass s₀
      (P := fun t => ∃ done rest events new, PassAt s₀ t done rest events new) ?_ h hinv₁ hnum
      ⟨[], _, [], [], hs₁ ▸ passAt_begin⟩ hn
    rintro t t' a hinv hle ⟨done, rest, events, new, ht⟩ he hn
    exact passAt_step hinv hle ht he hn
  have hsettled : Settled s := reachable_settled ((h₀.snoc hb).trans h)
  obtain ⟨done, rest, events, new, ht⟩ := hturns
  refine ⟨⟨done, rest, events, new, ht⟩, fun id co => hinv.curCo_of_RUNNING, hsettled.order, ?_,
    completes hinv ht⟩
  rintro l₁ l₂ t id rfl h₁ hp hend
  obtain ⟨t₁, h₁', h₂⟩ := run_append.mp h
  obtain ⟨t', ha, h₂⟩ := run_cons.mp h₂
  obtain rfl : t₁ = t := by rw [← after_eq h₁, after_eq h₁']
  have hfirst := run_mono (h₁.snoc ha) hinv₁
  refine stored_of_created (run_inv h₁ hinv₁) hp (hnum.trans (run_mono h₁ hinv₁).1) ha h₂ ?_ hend
  exact hn.trans_le hfirst.2

/-- The first of two coroutines creates a third and yields, the second calls `quit` and returns. -/
theorem round_robin_two :
    let s₀ := after exec initial [.createCoroutine, .createCoroutine, .start]
    let s₁ := after exec initial [.createCoroutine, .createCoroutine, .start, .test]
    let l : List Act := [.visit, .createCoroutine, .yield, .leave, .visit, .quit, .finish, .leave,
      .swapTasks, .drainTask, .drainDone]
    let s := after exec s₁ l
    s.trace = [.resume 0, .yield 0, .resume 1, .return 1, .erase 1] ∧
      s.coStore.keys.toList = [0, 2] ∧ RoundRobin s₀ s₁ l s := by
  intro s₀ s₁ l s
  have h₀ : Run exec initial [.createCoroutine, .createCoroutine, .start] s₀ :=
    run_after (by decide)
  have hb : exec s₀ .test = .ok s₁ := exec_after (by decide)
  have h : Run exec s₁ l s := run_after (by decide)
  exact ⟨by decide, by decide, round_robin h₀ hb (by decide) h (by decide)⟩

end ToolsCxx.CoScheduler.Passes
