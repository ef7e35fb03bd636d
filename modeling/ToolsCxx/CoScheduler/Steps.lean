import ToolsCxx.CoScheduler.Model

/-! # `CoScheduler`: the invariant, and what the actions do

The coroutines in `m_coStore` are ready, or suspended in their `yield`, but for the one the loop is
at (`Inv`). Under the invariant an action does one of a few things (`Effect`), and keeps the
invariant (`exec_effect`); `run_invariant` is the rule by which the other invariants are proved. -/

namespace ToolsCxx.CoScheduler.Steps

open ToolsCxx.Base ToolsCxx.Lib.Machine ToolsCxx.Lib.OrderedSet ToolsCxx.Lib.OrderedMap
open ToolsCxx.CoScheduler.Model

/-! ### The invariant -/

/-- The coroutine has not been resumed, or waits in its `yield`. -/
def Parked (co : Coroutine) : Prop :=
  co.status = .READY ∨ co.status = .SUSPENDED ∧ co.context = .body

/-- The coroutine the loop is at, once it has been resumed. -/
def current : Position → Option ℤ
  | .running id => some id
  | .leave id => some id
  | _ => none

/-- What holds where the scheduler's thread is. -/
def At (s : State) : Position → Prop
  | .outside => s.mainContext = none
  | .visit (some pos) => pos ∈ s.coStore.keys
  | .running id => s.curCo = id ∧ s.mainContext = some id ∧
      ∃ co, s.coStore.find id = some co ∧ co.status = .RUNNING
  | .leave id => ∃ co, s.coStore.find id = some co ∧
      (s.curCo = id ∧ co.status = .SUSPENDED ∧ co.context = .body ∨
        s.curCo = -1 ∧ co.status = .FINISHED)
  | _ => True

structure Inv (s : State) : Prop where
  coNum : 0 ≤ s.coNum ∧ s.coNum ≤ intMax
  keys : ∀ id ∈ s.coStore.keys, 0 ≤ id ∧ id < s.coNum
  parked : ∀ id co, s.coStore.find id = some co → current s.position ≠ some id → Parked co
  control : At s s.position

theorem inv_initial : Inv initial where
  coNum := by decide
  keys _ h := absurd h List.not_mem_nil
  parked _ _ h := nomatch h
  control := rfl

/-! ### What the actions do -/

/-- The coroutine, resumed. -/
def Coroutine.resumed (co : Coroutine) : Coroutine :=
  { co with
    status := .RUNNING
    context := if co.status = .READY then .entry else co.context }

/-- The state in the task of the coroutine at `pos`. -/
def resumed (pos : ℤ) (co : Coroutine) (s : State) : State :=
  { s with
    curCo := pos
    mainContext := some pos
    coStore := s.coStore.set pos (Coroutine.resumed co)
    position := .running pos
    entered := if co.status = .READY then s.entered ++ [co.task] else s.entered
    trace := s.trace ++ [.resume pos] }

/-- The state after a coroutine has been made for the task. -/
def added (task : Task) (s : State) : State :=
  { s with
    coNum := s.coNum + 1
    coStore := s.coStore.set s.coNum (.new task)
    created := s.created ++ [task] }

/-- **What an action does**: its guard, and the state it leaves. -/
def Effect (s s' : State) : Act → Prop
  | .start => s.position = .outside ∧ s' = { s with quit := false, position := .test }
  | .test => s.position = .test ∧
      (s.quit = true ∧ s' = { s with position := .outside, mainContext := none } ∨
        s.quit = false ∧
          s' = { s with position := .visit s.coStore.begin?, passes := s.passes + 1 })
  | .visit => ∃ pos co, s.position = .visit (some pos) ∧ s.coStore.find pos = some co ∧
      Parked co ∧ s' = resumed pos co s
  | .leave => ∃ pos co, s.position = .leave pos ∧ s.coStore.find pos = some co ∧
      (s.curCo = -1 ∧ co.status = .FINISHED ∧ s' = { s with
          position := .visit (s.coStore.next? pos)
          coStore := s.coStore.erase pos
          erased := s.erased ++ [co.task]
          trace := s.trace ++ [.erase pos] } ∨
        s.curCo = pos ∧ co.status = .SUSPENDED ∧ co.context = .body ∧
          s' = { s with position := .visit (s.coStore.next? pos) })
  | .swapTasks => s.position = .visit none ∧
      s' = { s with position := .draining s.pendingTasks, pendingTasks := [] }
  | .drainTask => ∃ task tasks, s.position = .draining (task :: tasks) ∧ s.coNum < intMax ∧
      s' = added task { s with position := .draining tasks }
  | .drainDone => s.position = .draining [] ∧ s' = { s with position := .test }
  | .yield => s.position = .outside ∧ s.curCo = -1 ∧ s' = s ∨
      ∃ id co, s.position = .running id ∧ s.curCo = id ∧ s.coStore.find id = some co ∧
        s' = { s with
          coStore := s.coStore.set id { co with status := .SUSPENDED, context := .body }
          position := .leave id
          trace := s.trace ++ [.yield id] }
  | .finish => ∃ id co, s.position = .running id ∧ s.coStore.find id = some co ∧ s' = { s with
      curCo := -1
      coStore := s.coStore.set id { co with status := .FINISHED }
      position := .leave id
      trace := s.trace ++ [.return id] }
  | .createCoroutine =>
      s.position.userCode = true ∧ s.curCo ≠ -1 ∧ s' = pushTask s.submitted (submit s) ∨
      s.position = .outside ∧ s.curCo = -1 ∧ s.coNum < intMax ∧
        s' = added s.submitted (submit s)
  | .clientCreate => s' = pushTask s.submitted (submit s)
  | .quit => s' = { s with quit := true }

section
variable {s s' : State} {t : Task}

theorem addCoroutine_ok {task : Task} (ha : addCoroutine task s = .ok s') :
    s.coNum < intMax ∧ s' = added task s := by
  obtain ⟨hlt, ha⟩ := check_bind_eq_ok.mp ha
  exact ⟨hlt, (Except.ok.inj ha).symm⟩

theorem userCode_cases (h : s.position.userCode = true) :
    s.position = .outside ∨ ∃ id, s.position = .running id := by
  cases hp : s.position with
  | outside => exact .inl rfl
  | running id => exact .inr ⟨id, rfl⟩
  | test | visit | leave | draining => rw [hp] at h; cases h

theorem Inv.curCo_ne (h : Inv s) {id : ℤ} (hp : s.position = .running id) :
    s.curCo = id ∧ s.curCo ≠ -1 := by
  have hat := h.control
  rw [hp] at hat
  obtain ⟨hcur, -, co, hco, -⟩ := hat
  have hpos := (h.keys id (OrdMap.mem_of_find hco)).1
  exact ⟨hcur, by omega⟩

theorem Inv.status_running (h : Inv s) {id : ℤ} {co : Coroutine} (hp : s.position = .running id)
    (hco : s.coStore.find id = some co) : co.status = .RUNNING := by
  have hat := h.control
  rw [hp] at hat
  obtain ⟨-, -, co', hco', hrun⟩ := hat
  rw [hco] at hco'
  exact Option.some.inj hco' ▸ hrun

/-- A coroutine that runs is the one `m_curCo` names: the others are parked. -/
theorem Inv.curCo_of_RUNNING (h : Inv s) {id : ℤ} {co : Coroutine}
    (hco : s.coStore.find id = some co) (hrun : co.status = .RUNNING) : s.curCo = id := by
  have hcur : current s.position = some id := by
    by_contra hne
    rcases h.parked id co hco hne with hr | ⟨hs, -⟩
    · rw [hr] at hrun; cases hrun
    · rw [hs] at hrun; cases hrun
  have hat := h.control
  cases hp : s.position with
  | running id' =>
    rw [hp] at hcur hat
    cases hcur
    exact hat.1
  | leave id' =>
    rw [hp] at hcur hat
    cases hcur
    obtain ⟨co', hco', hcase⟩ := hat
    rw [hco] at hco'
    cases hco'
    rcases hcase with ⟨hcur, -⟩ | ⟨-, hf⟩
    · exact hcur
    · rw [hf] at hrun; cases hrun
  | outside | test | visit | draining => rw [hp] at hcur; cases hcur

theorem visit_effect (h : Inv s) (ha : visit s = .ok s') : Effect s s' .visit := by
  cases hp : s.position with
  | visit p =>
    cases p with
    | none => simp [visit, hp] at ha
    | some pos =>
      have hat := h.control
      rw [hp] at hat
      obtain ⟨co, hco⟩ := OrdMap.exists_of_mem hat
      have hpark := h.parked pos co hco (by rw [hp]; exact nofun)
      refine ⟨pos, co, hp, hco, hpark, ?_⟩
      simp only [visit, hp, deref, hco] at ha
      rcases hpark with hr | ⟨hs, hc⟩
      · simp only [hr, bind, Except.bind, switchTo, schedule, findCurCo, OrdMap.find_set_self,
          pure, Except.pure, Except.ok.injEq] at ha
        rw [← ha]
        simp [resumed, Coroutine.resumed, hr]
      · simp only [hs, hc, bind, Except.bind, switchTo, Except.ok.injEq] at ha
        rw [← ha]
        simp [resumed, Coroutine.resumed, hs, hc]
  | outside | test | running | leave | draining => simp [visit, hp] at ha

theorem leave_effect (h : Inv s) (ha : leave s = .ok s') : Effect s s' .leave := by
  cases hp : s.position with
  | leave pos =>
    have hat := h.control
    rw [hp] at hat
    obtain ⟨co, hco, hcase⟩ := hat
    refine ⟨pos, co, hp, hco, ?_⟩
    simp only [leave, hp, deref, hco, bind, Except.bind, pure, Except.pure] at ha
    rcases hcase with ⟨hcur, hs, hc⟩ | ⟨hcur, hf⟩
    · rw [if_neg (by simp [hs])] at ha
      exact .inr ⟨hcur, hs, hc, (Except.ok.inj ha).symm⟩
    · rw [if_pos ⟨hcur, hf⟩] at ha
      exact .inl ⟨hcur, hf, (Except.ok.inj ha).symm⟩
  | outside | test | visit | running | draining => simp [leave, hp] at ha

theorem yield_effect (h : Inv s) (ha : yield s = .ok s') : Effect s s' .yield := by
  obtain ⟨huser, ha⟩ := enable_bind_eq_ok.mp ha
  rcases userCode_cases huser with hp | ⟨id, hp⟩
  · by_cases hcur : s.curCo = -1
    · rw [if_pos hcur] at ha
      exact .inl ⟨hp, hcur, (Except.ok.inj ha).symm⟩
    · -- there is no place in `start` to switch to
      have hmain : s.mainContext = none := by
        have hat := h.control
        rwa [hp] at hat
      rw [if_neg hcur] at ha
      obtain ⟨co, -, ha⟩ := bind_eq_ok.mp ha
      simp [switchToMain, hmain] at ha
  · have hat := h.control
    rw [hp] at hat
    obtain ⟨hcur, hmain, co, hco, -⟩ := hat
    rw [if_neg (h.curCo_ne hp).2] at ha
    simp only [findCurCo, hcur, hco, bind, Except.bind, switchToMain, hmain, hp, Position.here,
      Except.ok.injEq] at ha
    exact .inr ⟨id, co, hp, hcur, hco, by rw [← ha, hcur, hmain]⟩

theorem finish_effect (h : Inv s) (ha : finish s = .ok s') : Effect s s' .finish := by
  cases hp : s.position with
  | running id =>
    have hat := h.control
    rw [hp] at hat
    obtain ⟨hcur, hmain, co, hco, -⟩ := hat
    simp only [finish, hp, deref, hco, bind, Except.bind, switchToMain, hmain,
      Except.ok.injEq] at ha
    exact ⟨id, co, hp, hco, by rw [← ha, hmain]⟩
  | outside | test | visit | leave | draining => simp [finish, hp] at ha

theorem createCoroutine_effect (h : Inv s) (ha : createCoroutine s = .ok s') :
    Effect s s' .createCoroutine := by
  obtain ⟨huser, ha⟩ := enable_bind_eq_ok.mp ha
  by_cases hcur : s.curCo = -1
  · rw [if_neg (not_not.mpr hcur)] at ha
    obtain ⟨hlt, hs⟩ := addCoroutine_ok ha
    rcases userCode_cases huser with hp | ⟨id, hp⟩
    · exact .inr ⟨hp, hcur, hlt, hs⟩
    · exact absurd hcur (h.curCo_ne hp).2
  · rw [if_pos hcur] at ha
    exact .inl ⟨huser, hcur, (Except.ok.inj ha).symm⟩

theorem exec_to_effect (h : Inv s) {a : Act} (ha : exec s a = .ok s') : Effect s s' a := by
  cases a with
  | start =>
    obtain ⟨hp, ha⟩ := enable_bind_eq_ok.mp ha
    exact ⟨hp, (Except.ok.inj ha).symm⟩
  | test =>
    obtain ⟨hp, ha⟩ := enable_bind_eq_ok.mp ha
    refine ⟨hp, ?_⟩
    split_ifs at ha with hq
    · exact .inl ⟨hq, (Except.ok.inj ha).symm⟩
    · exact .inr ⟨Bool.eq_false_iff.mpr hq, (Except.ok.inj ha).symm⟩
  | visit => exact visit_effect h ha
  | leave => exact leave_effect h ha
  | swapTasks =>
    obtain ⟨hp, ha⟩ := enable_bind_eq_ok.mp ha
    exact ⟨hp, (Except.ok.inj ha).symm⟩
  | drainTask =>
    cases hp : s.position with
    | draining tasks =>
      cases tasks with
      | nil => simp [exec, drainTask, hp] at ha
      | cons task tasks =>
        simp only [exec, drainTask, hp] at ha
        obtain ⟨hlt, hs⟩ := addCoroutine_ok ha
        exact ⟨task, tasks, hp, hlt, hs⟩
    | outside | test | visit | running | leave => simp [exec, drainTask, hp] at ha
  | drainDone =>
    obtain ⟨hp, ha⟩ := enable_bind_eq_ok.mp ha
    exact ⟨hp, (Except.ok.inj ha).symm⟩
  | yield => exact yield_effect h ha
  | finish => exact finish_effect h ha
  | createCoroutine => exact createCoroutine_effect h ha
  | clientCreate => exact (Except.ok.inj ha).symm
  | quit => exact (Except.ok.inj ha).symm

/-! ### The invariant is kept -/

/-- An entry is written. -/
theorem Inv.keys_set (h : Inv s) {id : ℤ} {co co' : Coroutine} (hco : s.coStore.find id = some co) :
    ∀ x ∈ (s.coStore.set id co').keys, 0 ≤ x ∧ x < s.coNum := by
  rw [OrdMap.keys_set_of_mem (OrdMap.mem_of_find hco)]
  exact h.keys

/-- The other coroutines stay as they are. -/
theorem Inv.parked_set (h : Inv s) {id : ℤ} {co' : Coroutine}
    (hcur : ∀ x, current s.position = some x → x = id) :
    ∀ x co, (s.coStore.set id co').find x = some co → x ≠ id → Parked co := by
  intro x co hx hne
  rw [OrdMap.find_set_of_ne hne] at hx
  exact h.parked x co hx fun hc => hne (hcur x hc)

/-- A coroutine is made: its id is a new one. -/
theorem inv_added (h : Inv s) (hc : current s.position = none)
    (hat : At s s.position → At (added t s) s.position) (hlt : s.coNum < intMax) :
    Inv (added t s) := by
  refine ⟨⟨?_, ?_⟩, fun id hid => ?_, fun id co hco _ => ?_, hat h.control⟩
  · show 0 ≤ s.coNum + 1
    have := h.coNum.1
    omega
  · show s.coNum + 1 ≤ intMax
    omega
  · show 0 ≤ id ∧ id < s.coNum + 1
    have hnew : (s.coStore.set s.coNum (.new t)).keys = s.coStore.keys.insert s.coNum := rfl
    have hid : id ∈ s.coStore.keys.insert s.coNum := hid
    rw [OrdSet.mem_insert] at hid
    rcases hid with rfl | hid
    · exact ⟨h.coNum.1, by omega⟩
    · have := h.keys id hid
      omega
  · rcases OrdMap.find_set_cases hco with ⟨-, rfl⟩ | ⟨-, hco⟩
    · exact .inl rfl
    · exact h.parked id co hco (by rw [hc]; exact nofun)

theorem inv_resumed (h : Inv s) {pos : ℤ} {co : Coroutine} (hp : s.position = .visit (some pos))
    (hco : s.coStore.find pos = some co) : Inv (resumed pos co s) := by
  refine ⟨h.coNum, h.keys_set hco, fun x co' hx hne => ?_, ?_⟩
  · have hx : (s.coStore.set pos (Coroutine.resumed co)).find x = some co' := hx
    have hxp : x ≠ pos := fun e => hne (by rw [e]; rfl)
    exact h.parked_set (by rw [hp]; exact nofun) x co' hx hxp
  · exact ⟨rfl, rfl, Coroutine.resumed co, OrdMap.find_set_self, rfl⟩

/-- A coroutine gives the control back, by `yield` or at its end. -/
theorem inv_left (h : Inv s) {id : ℤ} {co : Coroutine} (hp : s.position = .running id)
    (hco : s.coStore.find id = some co) {co' : Coroutine} {curCo : ℤ} {event : Event}
    (hat : curCo = id ∧ co'.status = .SUSPENDED ∧ co'.context = .body ∨
      curCo = -1 ∧ co'.status = .FINISHED) :
    Inv { s with
      curCo := curCo, coStore := s.coStore.set id co', position := .leave id
      trace := s.trace ++ [event] } := by
  refine ⟨h.coNum, h.keys_set hco, fun x co'' hx hne => ?_, co', OrdMap.find_set_self, hat⟩
  have hxp : x ≠ id := fun e => hne (by rw [e]; rfl)
  refine h.parked_set (fun y hy => ?_) x co'' hx hxp
  rw [hp] at hy
  exact (Option.some.inj hy).symm

theorem mem_next? {m : OrdMap ℤ Coroutine} {pos x : ℤ} (h : m.next? pos = some x) :
    x ∈ m.keys ∧ x ≠ pos := by
  have hx := (OrdSet.begin?_eq_some h).1
  rw [OrdSet.mem_erase, OrdSet.mem_above] at hx
  exact ⟨hx.2.1, hx.1⟩

theorem inv_leave (h : Inv s) (he : Effect s s' .leave) : Inv s' := by
  obtain ⟨pos, co, hp, hco, ⟨-, -, rfl⟩ | ⟨hcur, hs, hc, rfl⟩⟩ := he
  · refine ⟨h.coNum, fun x hx => h.keys x (OrdSet.mem_erase.mp hx).2, fun x co' hx _ => ?_, ?_⟩
    · obtain ⟨hne, hx⟩ := OrdMap.find_erase_cases hx
      refine h.parked x co' hx ?_
      rw [hp]
      exact fun e => hne (Option.some.inj e).symm
    · cases hn : s.coStore.next? pos with
      | none => trivial
      | some x =>
        obtain ⟨hx, hne⟩ := mem_next? hn
        exact OrdSet.mem_erase.mpr ⟨hne, hx⟩
  · refine ⟨h.coNum, h.keys, fun x co' hx _ => ?_, ?_⟩
    · rcases eq_or_ne x pos with rfl | hne
      · rw [hco] at hx
        cases hx
        exact .inr ⟨hs, hc⟩
      · refine h.parked x co' hx ?_
        rw [hp]
        exact fun e => hne (Option.some.inj e).symm
    · cases hn : s.coStore.next? pos with
      | none => trivial
      | some x => exact (mem_next? hn).1

/-- The loop is left at a place where no coroutine is resumed. -/
theorem Inv.move (h : Inv s) {p : Position} (hc : current s.position = none)
    (hat : At { s with position := p } p) : Inv { s with position := p } :=
  ⟨h.coNum, h.keys, fun id co hco _ => h.parked id co hco (by rw [hc]; exact nofun), hat⟩

/-- Nothing is changed that the invariant depends on. -/
theorem Inv.of_same (h : Inv s) (hcoNum : s'.coNum = s.coNum) (hcurCo : s'.curCo = s.curCo)
    (hmain : s'.mainContext = s.mainContext) (hstore : s'.coStore = s.coStore)
    (hposition : s'.position = s.position) : Inv s' := by
  refine ⟨hcoNum ▸ h.coNum, ?_, ?_, ?_⟩
  · rw [hstore, hcoNum]; exact h.keys
  · rw [hstore, hposition]; exact h.parked
  · have hat := h.control
    rw [hposition]
    cases hp : s.position with
    | visit p =>
      rw [hp] at hat
      cases p with
      | none => trivial
      | some pos =>
        show pos ∈ s'.coStore.keys
        rw [hstore]
        exact hat
    | outside => rw [hp] at hat; exact hmain.trans hat
    | running id | leave id =>
      rw [hp] at hat
      unfold At at hat ⊢
      simp only [hcurCo, hmain, hstore]
      exact hat
    | test | draining => trivial

theorem inv_submit (h : Inv s) : Inv (submit s) := h.of_same rfl rfl rfl rfl rfl

/-- A task is pushed. -/
theorem inv_pushTask (h : Inv s) : Inv (pushTask t (submit s)) := h.of_same rfl rfl rfl rfl rfl

theorem inv_effect {a : Act} (h : Inv s) (he : Effect s s' a) : Inv s' := by
  cases a with
  | start =>
    obtain ⟨hp, rfl⟩ := he
    exact Inv.move (s := { s with quit := false })
      ⟨h.coNum, h.keys, h.parked, by rw [hp]; have := h.control; rwa [hp] at this⟩
      (by rw [hp]; rfl) trivial
  | test =>
    obtain ⟨hp, ⟨-, rfl⟩ | ⟨-, rfl⟩⟩ := he
    · exact ⟨h.coNum, h.keys, fun id co hco _ => h.parked id co hco (by rw [hp]; exact nofun), rfl⟩
    · refine ⟨h.coNum, h.keys, fun id co hco _ => h.parked id co hco (by rw [hp]; exact nofun), ?_⟩
      cases hb : s.coStore.begin? with
      | none => trivial
      | some x => exact (OrdSet.begin?_eq_some hb).1
  | visit =>
    obtain ⟨pos, co, hp, hco, -, rfl⟩ := he
    exact inv_resumed h hp hco
  | leave => exact inv_leave h he
  | swapTasks =>
    obtain ⟨hp, rfl⟩ := he
    exact ⟨h.coNum, h.keys, fun id co hco _ => h.parked id co hco (by rw [hp]; exact nofun),
      trivial⟩
  | drainTask =>
    obtain ⟨task, tasks, hp, hlt, rfl⟩ := he
    exact inv_added (h.move (by rw [hp]; rfl) trivial) rfl (fun _ => trivial) hlt
  | drainDone =>
    obtain ⟨hp, rfl⟩ := he
    exact h.move (by rw [hp]; rfl) trivial
  | yield =>
    rcases he with ⟨-, -, rfl⟩ | ⟨id, co, hp, hcur, hco, rfl⟩
    · exact h
    · exact inv_left h hp hco (.inl ⟨hcur, rfl, rfl⟩)
  | finish =>
    obtain ⟨id, co, hp, hco, rfl⟩ := he
    exact inv_left h hp hco (.inr ⟨rfl, rfl⟩)
  | createCoroutine =>
    rcases he with ⟨-, -, rfl⟩ | ⟨hp, -, hlt, rfl⟩
    · exact inv_pushTask h
    · refine inv_added (inv_submit h) (show current s.position = none by rw [hp]; rfl) ?_ hlt
      show At (submit s) s.position → At (added s.submitted (submit s)) s.position
      rw [hp]
      exact fun hat => hat
  | clientCreate =>
    have hs : s' = pushTask s.submitted (submit s) := he
    rw [hs]
    exact inv_pushTask h
  | quit =>
    have hs : s' = { s with quit := true } := he
    rw [hs]
    exact h.of_same rfl rfl rfl rfl rfl

/-- **What an action does, and that it keeps the invariant.** -/
theorem exec_effect (h : Inv s) {a : Act} (ha : exec s a = .ok s') : Effect s s' a ∧ Inv s' :=
  have he := exec_to_effect h ha
  ⟨he, inv_effect h he⟩

end

/-- **The invariant rule**: what the effects keep is kept by a run. -/
theorem run_invariant {P : State → Prop}
    (hstep : ∀ s s' a, Inv s → P s → Effect s s' a → Inv s' → P s') {s s' : State} {l : List Act}
    (hr : Run exec s l s') (h : Inv s) (h0 : P s) : Inv s' ∧ P s' :=
  hr.invariant_step (I := Inv) (A := fun _ => True)
    (fun t a t' hinv (ha : exec t a = .ok t') => exec_effect hinv ha)
    (fun t a t' _ hinv hP heff hinv' => hstep t t' a hinv hP heff hinv') h h0 fun _ _ => trivial

/-- Every state of a run has the invariant. -/
theorem run_inv {s s' : State} {l : List Act} (hr : Run exec s l s') (h : Inv s) : Inv s' :=
  (run_invariant (P := fun _ => True) (fun _ _ _ _ _ _ _ => trivial) hr h trivial).1

theorem reachable_inv {s : State} {l : List Act} (hr : Run exec initial l s) : Inv s :=
  run_inv hr inv_initial

end ToolsCxx.CoScheduler.Steps
