import ToolsCxx.Lib.RunQueue
import ToolsCxx.CoScheduler.Tasks
import Mathlib.Data.List.GetD

/-! # `CoScheduler` is a run queue

The order of the turns is that of the ids, from where the loop is; seen so (`view`), a run of the
scheduler is a path of the run queue of `Lib.RunQueue`, over all passes and calls of `start`. A
round is a pass over `m_coStore`; the tasks that wait are those in `m_pendingTasks`, and those being
accepted are in the vector that `handle_pending_tasks` drains.

* `refines_runQueue`: the trace of every run is a path of the run queue.
* `served_in_order`: the coroutines have their next turns in the order of the line.
* `turns_even`: the numbers of turns of two coroutines differ by one at most.
* `first_turn_bounded`: while a task waits for its first turn no coroutine has more than two. -/

namespace ToolsCxx.CoScheduler.Queue

open ToolsCxx.Base ToolsCxx.Lib ToolsCxx.Lib.Machine ToolsCxx.Lib.OrderedSet
open ToolsCxx.Lib.OrderedMap ToolsCxx.CoScheduler.Model ToolsCxx.CoScheduler.Steps
open ToolsCxx.CoScheduler.Tasks

/-! ### The line -/

/-- The task of a coroutine. -/
def taskOf (s : State) (id : ℤ) : Task := s.created.getD id.toNat 0

/-- The coroutines that have a turn in this pass yet. -/
def ahead (s : State) : Position → List ℤ
  | .visit (some pos) => s.coStore.keys.toList.filter (pos ≤ ·)
  | .running id | .leave id => s.coStore.keys.toList.filter (id < ·)
  | _ => []

/-- The coroutines that have their next turn in the next pass. -/
def behind (s : State) : Position → List ℤ
  | .visit (some pos) => s.coStore.keys.toList.filter (· < pos)
  | .running id => s.coStore.keys.toList.filter (· < id)
  | .leave id =>
    s.coStore.keys.toList.filter (· < id) ++ if s.curCo = id then [id] else []
  | _ => s.coStore.keys.toList

/-- The coroutine that runs. -/
def runningId : Position → Option ℤ
  | .running id => some id
  | _ => none

/-- There is no pass. -/
def closed : Position → Bool
  | .outside | .test | .draining _ => true
  | _ => false

/-- **The run queue** a state of the scheduler stands for. -/
def view (s : State) : RunQueue.State Task where
  submitted := List.range s.submitted
  waiting := s.pendingTasks
  accepting := draining s.position
  round := (ahead s s.position).map (taskOf s)
  next := (behind s s.position).map (taskOf s)
  running := (runningId s.position).map (taskOf s)
  closed := closed s.position

abbrev Label := RunQueue.Label Task

/-- What is seen of an action. -/
def labels (s : State) : Act → List Label
  | .test => if s.quit then [] else [.openRound]
  | .visit =>
    match s.position with
    | .visit (some pos) => [.resume (taskOf s pos)]
    | _ => []
  | .yield =>
    match s.position with
    | .running id => [.yield (taskOf s id)]
    | _ => []
  | .finish =>
    match s.position with
    | .running id => [.finish (taskOf s id)]
    | _ => []
  | .swapTasks => [.closeRound]
  | .drainTask =>
    match s.position with
    | .draining (task :: _) => [.accept task]
    | _ => []
  | .createCoroutine => if s.curCo = -1 then [.join s.submitted] else [.submit s.submitted]
  | .clientCreate => [.submit s.submitted]
  | .start | .leave | .drainDone | .quit => []

theorem view_initial : view initial = RunQueue.initial := rfl

abbrev Step := RunQueue.Step (K := Task)

section
variable {s s' : State} {t : Task} {pos id : ℤ} {l l' : List ℤ}

/-! ### The line, by the place of the loop -/

/-- The keys on the two sides of one. -/
theorem filter_of_split (h : s.coStore.keys.toList = l ++ pos :: l') :
    s.coStore.keys.toList.filter (pos ≤ ·) = pos :: l' ∧
      s.coStore.keys.toList.filter (pos < ·) = l' ∧
        s.coStore.keys.toList.filter (· < pos) = l := by
  obtain ⟨hl, hl'⟩ := OrdMap.lt_of_split h
  rw [h]
  refine ⟨?_, ?_, ?_⟩
  · rw [List.filter_append, List.filter_eq_nil_iff.mpr fun x hx => by simpa using hl x hx,
      List.nil_append, List.filter_cons_of_pos (by simp),
      List.filter_eq_self.mpr fun x hx => by simpa using (hl' x hx).le]
  · rw [List.filter_append, List.filter_eq_nil_iff.mpr fun x hx => by simpa using (hl x hx).le,
      List.nil_append, List.filter_cons_of_neg (by simp),
      List.filter_eq_self.mpr fun x hx => by simpa using hl' x hx]
  · rw [List.filter_append, List.filter_eq_self.mpr fun x hx => by simpa using hl x hx,
      List.filter_cons_of_neg (by simp),
      List.filter_eq_nil_iff.mpr fun x hx => by simpa using (hl' x hx).le, List.append_nil]

/-- The place of the loop is the one after these coroutines. -/
theorem line_visit (hkeys : s.coStore.keys.toList = l ++ l') :
    ahead s (.visit l'.head?) = l' ∧ behind s (.visit l'.head?) = l := by
  cases l' with
  | nil => exact ⟨rfl, by rw [List.append_nil] at hkeys; exact hkeys⟩
  | cons pos l' =>
    obtain ⟨hge, -, hlt⟩ := filter_of_split hkeys
    exact ⟨hge, hlt⟩

/-! ### The actions -/

theorem view_of_position {p : Position} (hp : s.position = p) :
    view s = view { s with position := p } := by
  rw [← hp]

/-- A coroutine is resumed: it is the first one of the line. -/
theorem visit_queue (he : Effect s s' .visit) : ∃ pos, s.position = .visit (some pos) ∧
    Step (view s) (.resume (taskOf s pos)) (view s') := by
  obtain ⟨pos, co, hp, hco, -, rfl⟩ := he
  have hmem := OrdMap.mem_of_find hco
  obtain ⟨l, l', hkeys⟩ := OrdMap.exists_split hmem
  obtain ⟨hge, hgt, -⟩ := filter_of_split hkeys
  have hkeys' : (s.coStore.set pos (Coroutine.resumed co)).keys = s.coStore.keys :=
    OrdMap.keys_set_of_mem hmem
  have hview : view (resumed pos co s) =
      { view { s with position := .visit (some pos) } with
        round := l'.map (taskOf s)
        running := some (taskOf s pos) } := by
    refine RunQueue.State.ext rfl rfl rfl ?_ ?_ rfl rfl
    · show ((s.coStore.set pos _).keys.toList.filter (pos < ·)).map (taskOf s) = _
      rw [hkeys', hgt]
    · show ((s.coStore.set pos _).keys.toList.filter (· < pos)).map (taskOf s) = _
      rw [hkeys']
      rfl
  refine ⟨pos, hp, ?_⟩
  rw [view_of_position hp, hview]
  exact .resume rfl (congrArg (List.map (taskOf s)) hge)

/-- A coroutine gives the control back; it comes behind the others unless it has returned. -/
theorem view_left {co : Coroutine} (co' : Coroutine) (curCo : ℤ) (trace : List Event)
    (hco : s.coStore.find id = some co) :
    view { s with
      curCo := curCo, coStore := s.coStore.set id co', position := .leave id, trace := trace } =
      { view { s with position := .running id } with
        next := (view { s with position := .running id }).next ++
          if curCo = id then [taskOf s id] else []
        running := none } := by
  have hkeys : (s.coStore.set id co').keys = s.coStore.keys :=
    OrdMap.keys_set_of_mem (OrdMap.mem_of_find hco)
  refine RunQueue.State.ext rfl rfl rfl ?_ ?_ rfl rfl
  · show ((s.coStore.set id co').keys.toList.filter (id < ·)).map (taskOf s) = _
    rw [hkeys]
    rfl
  · show ((s.coStore.set id co').keys.toList.filter (· < id) ++
      if curCo = id then [id] else []).map (taskOf s) = _
    rw [hkeys, List.map_append]
    split_ifs <;> rfl

/-- The end of a round of the `for` loop. -/
theorem view_leave (hinv : Inv s) (he : Effect s s' .leave) : view s' = view s := by
  obtain ⟨pos, co, hp, hco, hcase⟩ := he
  have hmem := OrdMap.mem_of_find hco
  have hpos := (hinv.keys pos hmem).1
  obtain ⟨l, l', hkeys⟩ := OrdMap.exists_split hmem
  obtain ⟨-, hgt, hlt⟩ := filter_of_split hkeys
  have hnext : s.coStore.next? pos = l'.head? := OrdMap.next?_of_split hkeys
  have hbehind : behind s (.leave pos) = l ++ if s.curCo = pos then [pos] else [] :=
    congrArg (· ++ _) hlt
  rw [view_of_position hp]
  rcases hcase with ⟨hcur, -, rfl⟩ | ⟨hcur, -, -, rfl⟩
  · have hkeys' := OrdMap.keys_erase_of_split hkeys
    obtain ⟨hahead', hbehind'⟩ := line_visit (s := { s with coStore := s.coStore.erase pos }) hkeys'
    rw [if_neg (by omega), List.append_nil] at hbehind
    rw [← hnext] at hahead' hbehind'
    exact RunQueue.State.ext rfl rfl rfl
      (congrArg (List.map (taskOf s)) (hahead'.trans hgt.symm))
      (congrArg (List.map (taskOf s)) (hbehind'.trans hbehind.symm)) rfl rfl
  · have hkeys' : s.coStore.keys.toList = l ++ [pos] ++ l' := by
      rw [hkeys, List.append_assoc]
      rfl
    obtain ⟨hahead', hbehind'⟩ := line_visit hkeys'
    rw [if_pos hcur] at hbehind
    rw [← hnext] at hahead' hbehind'
    exact RunQueue.State.ext rfl rfl rfl
      (congrArg (List.map (taskOf s)) (hahead'.trans hgt.symm))
      (congrArg (List.map (taskOf s)) (hbehind'.trans hbehind.symm)) rfl rfl

/-- A pass begins. -/
theorem test_queue (hp : s.position = .test) : Step (view s) .openRound
    (view { s with position := .visit s.coStore.begin?, passes := s.passes + 1 }) := by
  have hkeys : s.coStore.keys.toList = [] ++ s.coStore.keys.toList := rfl
  obtain ⟨hahead, hbehind⟩ := line_visit hkeys
  have hview : view { s with position := .visit s.coStore.begin?, passes := s.passes + 1 } =
      { view { s with position := .test } with
        round := s.coStore.keys.toList.map (taskOf s)
        next := []
        closed := false } :=
    RunQueue.State.ext rfl rfl rfl (congrArg (List.map (taskOf s)) hahead)
      (congrArg (List.map (taskOf s)) hbehind) rfl rfl
  rw [view_of_position hp, hview]
  exact .openRound rfl rfl rfl

/-- A pass is over. -/
theorem swapTasks_queue (hp : s.position = .visit none) : Step (view s) .closeRound
    (view { s with position := .draining s.pendingTasks, pendingTasks := [] }) := by
  rw [view_of_position hp]
  exact .closeRound rfl rfl rfl rfl

/-- A coroutine is made: it is the last one of the line. -/
theorem next_added (hinv : Inv s) (hnum : s.coNum = s.created.length) :
    (added t s).coStore.keys.toList.map (taskOf (added t s)) =
      s.coStore.keys.toList.map (taskOf s) ++ [t] := by
  have hsame : ∀ id ∈ s.coStore.keys.toList, taskOf (added t s) id = taskOf s id :=
    fun id hid => by
      have hlt := hinv.keys id hid
      show (s.created ++ [t]).getD id.toNat 0 = s.created.getD id.toNat 0
      exact List.getD_append _ _ _ _ (by omega)
  have hself : taskOf (added t s) s.coNum = t := by
    show (s.created ++ [t]).getD s.coNum.toNat 0 = t
    rw [show s.coNum.toNat = s.created.length by omega, List.getD_append_right _ _ _ _ le_rfl,
      Nat.sub_self]
    rfl
  have hkeys : (added t s).coStore.keys.toList = s.coStore.keys.toList ++ [s.coNum] :=
    OrdMap.keys_set_of_lt fun id hid => (hinv.keys id hid).2
  rw [hkeys, List.map_append, List.map_congr_left hsame]
  exact congrArg (fun x => _ ++ [x]) hself

theorem drainTask_queue (hinv : Inv s) (hacc : Accounted s) {tasks : List Task}
    (hp : s.position = .draining (t :: tasks)) :
    Step (view s) (.accept t) (view (added t { s with position := .draining tasks })) := by
  have hview : view (added t { s with position := .draining tasks }) =
      { view { s with position := .draining (t :: tasks) } with
        accepting := tasks
        next := s.coStore.keys.toList.map (taskOf s) ++ [t] } :=
    RunQueue.State.ext rfl rfl rfl rfl (next_added (s := s) hinv hacc.coNum) rfl rfl
  rw [view_of_position hp, hview]
  exact .accept rfl rfl

/-- A task is pushed to `m_pendingTasks`. -/
theorem pushTask_queue : Step (view s) (.submit s.submitted)
    (view (pushTask s.submitted (submit s))) := by
  have hview : view (pushTask s.submitted (submit s)) =
      { view s with
        submitted := (view s).submitted ++ [s.submitted]
        waiting := (view s).waiting ++ [s.submitted] } :=
    RunQueue.State.ext List.range_succ rfl rfl rfl rfl rfl rfl
  rw [hview]
  exact .submit List.not_mem_range_self

theorem join_queue (hinv : Inv s) (hacc : Accounted s) (hp : s.position = .outside) :
    Step (view s) (.join s.submitted) (view (added s.submitted (submit s))) := by
  have hview : view { added s.submitted (submit s) with position := .outside } =
      { view { s with position := .outside } with
        submitted := List.range s.submitted ++ [s.submitted]
        next := s.coStore.keys.toList.map (taskOf s) ++ [s.submitted] } :=
    RunQueue.State.ext List.range_succ rfl rfl rfl
      (next_added (s := submit s) (inv_submit hinv) hacc.coNum) rfl rfl
  have hp' : (added s.submitted (submit s)).position = .outside := hp
  rw [view_of_position hp, view_of_position hp', hview]
  exact .join List.not_mem_range_self rfl rfl

/-- **What an action does** is what its labels do. -/
theorem effect_queue {a : Act} (hinv : Inv s) (hacc : Accounted s) (he : Effect s s' a) :
    Path Step (view s) (labels s a) (view s') := by
  cases a with
  | start =>
    obtain ⟨hp, rfl⟩ := he
    rw [view_of_position hp]
    exact .nil _
  | test =>
    obtain ⟨hp, ⟨hq, rfl⟩ | ⟨hq, rfl⟩⟩ := he
    · rw [show labels s .test = [] from if_pos hq, view_of_position hp]
      exact .nil _
    · rw [show labels s .test = [.openRound] from if_neg (by rw [hq]; nofun)]
      exact .single (test_queue hp)
  | visit =>
    obtain ⟨pos, hp, hs⟩ := visit_queue he
    have hlabels : labels s .visit = [.resume (taskOf s pos)] := by
      unfold labels
      rw [hp]
    rw [hlabels]
    exact .single hs
  | leave =>
    rw [view_leave hinv he]
    exact .nil _
  | swapTasks =>
    obtain ⟨hp, rfl⟩ := he
    exact .single (swapTasks_queue hp)
  | drainTask =>
    obtain ⟨task, tasks, hp, -, rfl⟩ := he
    have hlabels : labels s .drainTask = [.accept task] := by
      unfold labels
      rw [hp]
    rw [hlabels]
    exact .single (drainTask_queue hinv hacc hp)
  | drainDone =>
    obtain ⟨hp, rfl⟩ := he
    rw [view_of_position hp]
    exact .nil _
  | yield =>
    rcases he with ⟨hp, -, rfl⟩ | ⟨id, co, hp, hcur, hco, rfl⟩
    · have hlabels : labels s' .yield = [] := by
        unfold labels
        rw [hp]
      rw [hlabels]
      exact .nil _
    · have hlabels : labels s .yield = [.yield (taskOf s id)] := by
        unfold labels
        rw [hp]
      have hleft := view_left { co with status := .SUSPENDED, context := .body } s.curCo
        (s.trace ++ [.yield id]) hco
      rw [if_pos hcur] at hleft
      rw [hlabels, view_of_position hp, hleft]
      exact .single (.yield rfl)
  | finish =>
    obtain ⟨id, co, hp, hco, rfl⟩ := he
    have hlabels : labels s .finish = [.finish (taskOf s id)] := by
      unfold labels
      rw [hp]
    have hleft := view_left { co with status := .FINISHED } (-1) (s.trace ++ [.return id]) hco
    have hid := (hinv.keys id (OrdMap.mem_of_find hco)).1
    rw [if_neg (by omega), List.append_nil] at hleft
    rw [hlabels, view_of_position hp, hleft]
    exact .single (.finish rfl)
  | createCoroutine =>
    rcases he with ⟨-, hcur, rfl⟩ | ⟨hp, hcur, -, rfl⟩
    · rw [show labels s .createCoroutine = [.submit s.submitted] from if_neg hcur]
      exact .single pushTask_queue
    · rw [show labels s .createCoroutine = [.join s.submitted] from if_pos hcur]
      exact .single (join_queue hinv hacc hp)
  | clientCreate =>
    have hs : s' = pushTask s.submitted (submit s) := he
    rw [hs]
    exact .single pushTask_queue
  | quit =>
    have hs : s' = { s with quit := true } := he
    rw [hs]
    exact .nil _

end

/-! ### The runs -/

theorem path_of_run {l₀ l : List Act} {s s' : State} (h₀ : Run exec initial l₀ s)
    (h : Run exec s l s') : Path Step (view s) (trace exec labels s l) (view s') := by
  have hstep : ∀ u a u' σ, (∃ l, Run exec initial l u) ∧ σ = view u → exec u a = .ok u' →
      ∃ σ', Path Step σ (labels u a) σ' ∧ (∃ l, Run exec initial l u') ∧ σ' = view u' := by
    rintro u a u' σ ⟨⟨l, hl⟩, rfl⟩ ha
    have hinv := reachable_inv hl
    have heff := (exec_effect hinv ha).1
    exact ⟨view u', effect_queue hinv (reachable_accounted hl).1 heff, ⟨l ++ [a], hl.snoc ha⟩, rfl⟩
  obtain ⟨σ, hpath, -, rfl⟩ := h.refinement hstep ⟨⟨l₀, h₀⟩, rfl⟩
  exact hpath

/-- **`CoScheduler` refines the run queue**, whatever the coroutines and the other threads do. -/
theorem refines_runQueue {l : List Act} {s : State} (h : Run exec initial l s) :
    Path Step RunQueue.initial (trace exec labels initial l) (view s) :=
  view_initial ▸ path_of_run (run_nil.mpr rfl) h

/-- The first of two coroutines has yielded. -/
def firstYielded : List Act :=
  [.createCoroutine, .createCoroutine, .start, .test, .visit, .yield, .leave]

theorem refines_runQueue_firstYielded :
    let s := after exec initial firstYielded
    trace exec labels initial firstYielded = [.join 0, .join 1, .openRound, .resume 0, .yield 0] ∧
      Path Step RunQueue.initial (trace exec labels initial firstYielded) (view s) := by
  intro s
  have h : Run exec initial firstYielded s := run_after (by decide)
  exact ⟨by decide, refines_runQueue h⟩

theorem tidy_view {l : List Act} {s : State} (h : Run exec initial l s) :
    RunQueue.Tidy (view s) :=
  RunQueue.tidy_initial.path (refines_runQueue h)

/-- The tasks of the coroutines in the order of their next turns. -/
def line (s : State) : List Task :=
  (ahead s s.position).map (taskOf s) ++ (behind s s.position).map (taskOf s)

/-- The tasks of the coroutines that are resumed. -/
def turns (s : State) (l : List Act) : List Task := RunQueue.turns (trace exec labels s l)

section
variable {l l' : List Act} {s s' : State}

/-- **Served in order**: the next turns are those of the coroutines in line, in this order, however
many passes and calls of `start` they take. -/
theorem served_in_order (h : Run exec initial l s) (h' : Run exec s l' s') :
    turns s l' <+: line s ∨ line s <+: turns s l' :=
  RunQueue.next_turns (path_of_run h h')

theorem served_in_order_firstYielded :
    let s := after exec initial firstYielded
    let l' : List Act := [.visit, .clientCreate, .finish, .leave, .swapTasks, .drainTask,
      .drainDone, .test, .visit, .quit, .yield, .leave, .visit]
    line s = [1, 0] ∧ turns s l' = [1, 0, 2] ∧
      (turns s l' <+: line s ∨ line s <+: turns s l') := by
  intro s l'
  have h : Run exec initial firstYielded s := run_after (by decide)
  have h' : Run exec s l' (after exec s l') := run_after (by decide)
  exact ⟨by decide, by decide, served_in_order h h'⟩

/-- A coroutine that has not returned is in line, or runs. -/
theorem mem_ring (hinv : Inv s) (hacc : Accounted s) {id : ℤ} {co : Coroutine}
    (hco : s.coStore.find id = some co) (hstatus : co.status ≠ .FINISHED) :
    co.task ∈ RunQueue.ring (view s) := by
  have hid : id ∈ s.coStore.keys.toList := OrdMap.mem_of_find hco
  have htask : taskOf s id = co.task := by
    unfold taskOf
    rw [List.getD_eq_getElem?_getD, hacc.ids id co hco]
    rfl
  have hmem : id ∈ ahead s s.position ++ behind s s.position ++
      (runningId s.position).toList := by
    have hat := hinv.control
    cases hp : s.position with
    | outside | test | draining => simpa [ahead, behind, runningId] using hid
    | visit pos =>
      cases pos with
      | none => simpa [ahead, behind, runningId] using hid
      | some pos =>
        rcases le_or_gt pos id with hle | hlt
        · simp [ahead, hid, hle]
        · simp [behind, hid, hlt]
    | running pos =>
      rcases lt_trichotomy id pos with hlt | rfl | hlt
      · simp [behind, hid, hlt]
      · simp [runningId]
      · simp [ahead, hid, hlt]
    | leave pos =>
      rcases lt_trichotomy id pos with hlt | rfl | hlt
      · simp [behind, hid, hlt]
      · -- it has yielded
        rw [hp] at hat
        obtain ⟨co', hco', ⟨hcur, -⟩ | ⟨-, hfinished⟩⟩ := hat
        · simp [behind, hcur]
        · cases hco.symm.trans hco'
          exact absurd hfinished hstatus
      · simp [ahead, hid, hlt]
  have hring := List.mem_map_of_mem (f := taskOf s) hmem
  rw [htask, List.map_append, List.map_append] at hring
  unfold RunQueue.ring RunQueue.line view
  cases hr : runningId s.position with
  | none => rwa [hr] at hring
  | some pos => rwa [hr] at hring

/-- **The turns are even**: of two coroutines that have not returned and do not return in the
continuation none has two turns more than the other one, whatever happens meanwhile. -/
theorem turns_even (h : Run exec initial l s) (h' : Run exec s l' s') {id id' : ℤ}
    {co co' : Coroutine} (hco : s.coStore.find id = some co)
    (hco' : s.coStore.find id' = some co') (hstatus : co.status ≠ .FINISHED)
    (hstatus' : co'.status ≠ .FINISHED) (hno : .finish co.task ∉ trace exec labels s l')
    (hno' : .finish co'.task ∉ trace exec labels s l') :
    (turns s l').count co.task ≤ (turns s l').count co'.task + 1 := by
  have hinv := reachable_inv h
  have hacc := (reachable_accounted h).1
  exact RunQueue.turns_fair (tidy_view h) (path_of_run h h') (mem_ring hinv hacc hco hstatus)
    (mem_ring hinv hacc hco' hstatus') hno hno'

theorem turns_even_firstYielded :
    let s := after exec initial firstYielded
    let l' : List Act := [.visit, .yield, .leave, .swapTasks, .drainDone, .test, .visit, .yield]
    (turns s l').count 0 ≤ (turns s l').count 1 + 1 := by
  intro s l'
  have h : Run exec initial firstYielded s := run_after (by decide)
  have h' : Run exec s l' (after exec s l') := run_after (by decide)
  have hco : s.coStore.find 0 = some ⟨0, .SUSPENDED, .body⟩ := by decide
  have hco' : s.coStore.find 1 = some ⟨1, .READY, .unset⟩ := by decide
  have hno : .finish 0 ∉ trace exec labels s l' := by decide
  have hno' : .finish 1 ∉ trace exec labels s l' := by decide
  have hstatus : (⟨0, .SUSPENDED, .body⟩ : Coroutine).status ≠ .FINISHED := by decide
  have hstatus' : (⟨1, .READY, .unset⟩ : Coroutine).status ≠ .FINISHED := by decide
  have heven := turns_even h h' hco hco' hstatus hstatus' hno hno'
  exact heven

/-- **The first turn of a task is bounded**: until a task in `m_pendingTasks` has it no coroutine
has more than two turns. -/
theorem first_turn_bounded (h : Run exec initial l s) (h' : Run exec s l' s') {t : Task}
    (ht : t ∈ s.pendingTasks) (hno : t ∉ turns s l') (u : Task) : (turns s l').count u ≤ 2 :=
  RunQueue.bypassed_le (tidy_view h) (path_of_run h h') ht hno u

/-- A task is pushed when the vector has been swapped: the coroutine has two turns before it. -/
theorem first_turn_bounded_swapped :
    let s := after exec initial [.createCoroutine, .start, .test, .visit, .yield, .leave,
      .swapTasks, .clientCreate]
    let l' : List Act := [.drainDone, .test, .visit, .yield, .leave, .swapTasks, .drainTask,
      .drainDone, .test, .visit]
    turns s l' = [0, 0] ∧ (turns s l').count 0 ≤ 2 := by
  intro s l'
  have h : Run exec initial [.createCoroutine, .start, .test, .visit, .yield, .leave, .swapTasks,
      .clientCreate] s := run_after (by decide)
  have h' : Run exec s l' (after exec s l') := run_after (by decide)
  have ht : 1 ∈ s.pendingTasks := by decide
  exact ⟨by decide, first_turn_bounded h h' ht (by decide) 0⟩

end

end ToolsCxx.CoScheduler.Queue
