import ToolsCxx.CoScheduler.Steps

/-! # `CoScheduler`: no task is lost or duplicated

`conserved`: every task that was submitted is in `m_pendingTasks`, in the vector being drained, or
in one coroutine, which may have been erased; its function is entered at most once; a coroutine gets
an id that no other one has; and the tasks that went through `m_pendingTasks` get their ids, and are
entered, in the order they were pushed in. The function of a task is entered in the order of the
ids: the loop meets the coroutines in this order, and those that are ready are the last ones
(`Entering`). -/

namespace ToolsCxx.CoScheduler.Tasks

open ToolsCxx.Base ToolsCxx.Lib.Machine ToolsCxx.Lib.OrderedSet ToolsCxx.Lib.OrderedMap
open ToolsCxx.CoScheduler.Model ToolsCxx.CoScheduler.Steps

/-! ### Where the tasks are -/

/-- The vector `handle_pending_tasks` is draining. -/
def draining : Position → List Task
  | .draining tasks => tasks
  | _ => []

/-- The tasks that coroutines will be made for, in this order. -/
def queue (s : State) : List Task := draining s.position ++ s.pendingTasks

/-- The tasks of the coroutines in `m_coStore`. -/
def live (s : State) : List Task := s.coStore.values.map Coroutine.task

structure Accounted (s : State) : Prop where
  once : (s.created ++ queue s).Perm (List.range s.submitted)
  made : s.created.Perm (live s ++ s.erased)
  order : s.created.filter (· ∈ s.pushed) ++ queue s = s.pushed
  -- the ids are the places in the order of creation
  coNum : s.coNum = s.created.length
  ids : ∀ id co, s.coStore.find id = some co → s.created[id.toNat]? = some co.task

theorem accounted_initial : Accounted initial where
  once := .refl _
  made := .refl _
  order := rfl
  coNum := rfl
  ids _ _ h := nomatch h

section
variable {s s' : State} {t : Task}

/-- A coroutine is written, and not its task. -/
theorem Accounted.of_set (h : Accounted s) {id : ℤ} {co : Coroutine} (co' : Coroutine)
    (hco : s.coStore.find id = some co) (ht : co'.task = co.task)
    (hstore : s'.coStore = s.coStore.set id co') (hqueue : queue s' = queue s)
    (hcreated : s'.created = s.created) (hpushed : s'.pushed = s.pushed)
    (herased : s'.erased = s.erased) (hsubmitted : s'.submitted = s.submitted)
    (hcoNum : s'.coNum = s.coNum) : Accounted s' := by
  have hlive : live s' = live s := by
    unfold live
    rw [hstore]
    exact OrdMap.map_values_set hco ht
  refine ⟨?_, ?_, ?_, ?_, fun x co'' hx => ?_⟩
  · rw [hcreated, hqueue, hsubmitted]; exact h.once
  · rw [hcreated, hlive, herased]; exact h.made
  · rw [hcreated, hqueue, hpushed]; exact h.order
  · rw [hcoNum, hcreated]; exact h.coNum
  · rw [hstore] at hx
    rw [hcreated]
    rcases OrdMap.find_set_cases hx with ⟨rfl, rfl⟩ | ⟨-, hx⟩
    · rw [ht]; exact h.ids _ co hco
    · exact h.ids x co'' hx

/-- The tasks submitted so far. -/
theorem Accounted.lt_submitted (h : Accounted s) {u : Task} (hu : u ∈ s.created ++ queue s) :
    u < s.submitted :=
  List.mem_range.mp (h.once.mem_iff.mp hu)

theorem Accounted.pushed_lt (h : Accounted s) {u : Task} (hu : u ∈ s.pushed) :
    u < s.submitted := by
  rw [← h.order] at hu
  refine h.lt_submitted (List.mem_append.mpr ?_)
  exact (List.mem_append.mp hu).imp (fun hu => List.mem_of_mem_filter hu) id

/-- A new task is pushed. -/
theorem accounted_pushTask (h : Accounted s) : Accounted (pushTask s.submitted (submit s)) := by
  have hqueue : queue (pushTask s.submitted (submit s)) = queue s ++ [s.submitted] :=
    (List.append_assoc _ _ _).symm
  refine ⟨?_, h.made, ?_, h.coNum, h.ids⟩
  · rw [hqueue]
    show (s.created ++ (queue s ++ [s.submitted])).Perm (List.range (s.submitted + 1))
    rw [← List.append_assoc, List.range_succ]
    exact h.once.append_right _
  · rw [hqueue]
    show s.created.filter (· ∈ s.pushed ++ [s.submitted]) ++ (queue s ++ [s.submitted]) =
      s.pushed ++ [s.submitted]
    -- the new task has no coroutine
    have hsame : s.created.filter (· ∈ s.pushed ++ [s.submitted]) =
        s.created.filter (· ∈ s.pushed) := by
      refine List.filter_congr fun u hu => ?_
      have hne : u ≠ s.submitted := (h.lt_submitted (List.mem_append_left _ hu)).ne
      simp [hne]
    rw [hsame, ← List.append_assoc, h.order]

/-- A coroutine is made for the task `t`. -/
theorem Accounted.live_added (hinv : Inv s) : live (added t s) = live s ++ [t] := by
  unfold live
  show (s.coStore.set s.coNum (.new t)).values.map _ = _
  rw [OrdMap.values_append fun id hid => (hinv.keys id hid).2, List.map_append]
  rfl

theorem Accounted.ids_added (hinv : Inv s) (h : Accounted s) (id : ℤ) (co : Coroutine)
    (hco : (s.coStore.set s.coNum (.new t)).find id = some co) :
    (s.created ++ [t])[id.toNat]? = some co.task := by
  have hnum := h.coNum
  rcases OrdMap.find_set_cases hco with ⟨rfl, rfl⟩ | ⟨-, hco⟩
  · have hid : s.coNum.toNat = s.created.length := by omega
    rw [hid, List.getElem?_concat_length]
    rfl
  · have hid := hinv.keys id (OrdMap.mem_of_find hco)
    rw [List.getElem?_append_left (by omega)]
    exact h.ids id co hco

theorem Accounted.made_added (hinv : Inv s) (h : Accounted s) :
    (s.created ++ [t]).Perm (live (added t s) ++ s.erased) := by
  rw [Accounted.live_added hinv, List.append_assoc]
  calc (s.created ++ [t]).Perm (live s ++ s.erased ++ [t]) := h.made.append_right _
    _ = live s ++ (s.erased ++ [t]) := List.append_assoc _ _ _
    List.Perm _ (live s ++ ([t] ++ s.erased)) := List.perm_append_comm.append_left _

/-- It is the first one of the vector. -/
theorem accounted_drained (hinv : Inv s) (h : Accounted s) {tasks : List Task}
    (hp : s.position = .draining (t :: tasks)) :
    Accounted (added t { s with position := .draining tasks }) := by
  have hqueue : queue s = t :: (tasks ++ s.pendingTasks) := by
    unfold queue
    rw [hp]; rfl
  have hpushed : t ∈ s.pushed := by
    rw [← h.order, hqueue]
    simp
  refine ⟨?_, Accounted.made_added (s := s) hinv h, ?_, ?_,
    Accounted.ids_added (s := s) hinv h⟩
  · show (s.created ++ [t] ++ (tasks ++ s.pendingTasks)).Perm _
    have honce := h.once
    rw [hqueue] at honce
    rwa [List.append_assoc]
  · show (s.created ++ [t]).filter (· ∈ s.pushed) ++ (tasks ++ s.pendingTasks) = s.pushed
    have horder := h.order
    rw [hqueue] at horder
    rw [List.filter_append, List.filter_cons_of_pos (by simpa using hpushed), List.filter_nil,
      List.append_assoc]
    exact horder
  · show s.coNum + 1 = ((s.created ++ [t]).length : ℤ)
    rw [h.coNum, List.length_append]
    rfl

/-- It is a new one, that is not pushed. -/
theorem accounted_created (hinv : Inv s) (h : Accounted s) :
    Accounted (added s.submitted (submit s)) := by
  have hnot : s.submitted ∉ s.pushed := fun hu => lt_irrefl _ (h.pushed_lt hu)
  refine ⟨?_, Accounted.made_added (s := s) hinv h, ?_, ?_,
    Accounted.ids_added (s := s) hinv h⟩
  · show (s.created ++ [s.submitted] ++ queue s).Perm (List.range (s.submitted + 1))
    rw [List.range_succ, List.append_assoc]
    calc (s.created ++ ([s.submitted] ++ queue s)).Perm (s.created ++ (queue s ++ [s.submitted])) :=
          List.perm_append_comm.append_left _
      _ = s.created ++ queue s ++ [s.submitted] := (List.append_assoc _ _ _).symm
      List.Perm _ (List.range s.submitted ++ [s.submitted]) := h.once.append_right _
  · show (s.created ++ [s.submitted]).filter (· ∈ s.pushed) ++ queue s = s.pushed
    rw [List.filter_append, List.filter_cons_of_neg (by simpa using hnot), List.filter_nil,
      List.append_nil]
    exact h.order
  · show s.coNum + 1 = ((s.created ++ [s.submitted]).length : ℤ)
    rw [h.coNum, List.length_append]
    rfl

/-- Only the control is changed, and how the queue is divided. -/
theorem Accounted.of_queue (h : Accounted s) (hqueue : queue s' = queue s)
    (hstore : s'.coStore = s.coStore) (hcreated : s'.created = s.created)
    (hpushed : s'.pushed = s.pushed) (herased : s'.erased = s.erased)
    (hsubmitted : s'.submitted = s.submitted) (hcoNum : s'.coNum = s.coNum) : Accounted s' := by
  refine ⟨?_, ?_, ?_, ?_, ?_⟩
  · rw [hcreated, hqueue, hsubmitted]; exact h.once
  · unfold live
    rw [hcreated, hstore, herased]; exact h.made
  · rw [hcreated, hqueue, hpushed]; exact h.order
  · rw [hcoNum, hcreated]; exact h.coNum
  · rw [hstore, hcreated]; exact h.ids

/-- A coroutine is erased. -/
theorem accounted_erased (h : Accounted s) {pos : ℤ} {co : Coroutine} {p : Position}
    (hco : s.coStore.find pos = some co) (hd : draining p = draining s.position)
    (event : Event) : Accounted { s with
      position := p, coStore := s.coStore.erase pos, erased := s.erased ++ [co.task]
      trace := s.trace ++ [event] } := by
  have hperm : (live s).Perm (co.task :: (s.coStore.erase pos).values.map Coroutine.task) :=
    (OrdMap.values_erase_perm hco).map _
  refine ⟨?_, ?_, ?_, h.coNum, fun x co' hx => h.ids x co' (OrdMap.find_erase_cases hx).2⟩
  · unfold queue
    rw [hd]
    exact h.once
  · show s.created.Perm ((s.coStore.erase pos).values.map Coroutine.task ++ (s.erased ++ [co.task]))
    rw [← List.append_assoc]
    calc s.created.Perm (live s ++ s.erased) := h.made
      List.Perm _ (co.task :: (s.coStore.erase pos).values.map Coroutine.task ++ s.erased) :=
        hperm.append_right _
      List.Perm _ _ := (List.perm_append_singleton _ _).symm
  · unfold queue
    rw [hd]
    exact h.order

theorem accounted_effect {a : Act} (hinv : Inv s) (h : Accounted s) (he : Effect s s' a) :
    Accounted s' := by
  cases a with
  | start =>
    obtain ⟨hp, rfl⟩ := he
    exact h.of_queue (by unfold queue; rw [hp]; rfl) rfl rfl rfl rfl rfl rfl
  | test =>
    obtain ⟨hp, ⟨-, rfl⟩ | ⟨-, rfl⟩⟩ := he <;>
      exact h.of_queue (by unfold queue; rw [hp]; rfl) rfl rfl rfl rfl rfl rfl
  | visit =>
    obtain ⟨pos, co, hp, hco, -, rfl⟩ := he
    exact h.of_set (Coroutine.resumed co) hco rfl rfl (by unfold queue; rw [hp]; rfl)
      rfl rfl rfl rfl rfl
  | leave =>
    obtain ⟨pos, co, hp, hco, ⟨-, -, rfl⟩ | ⟨-, -, -, rfl⟩⟩ := he
    · exact accounted_erased h hco (by rw [hp]; rfl) _
    · exact h.of_queue (by unfold queue; rw [hp]; rfl) rfl rfl rfl rfl rfl rfl
  | swapTasks =>
    obtain ⟨hp, rfl⟩ := he
    refine h.of_queue ?_ rfl rfl rfl rfl rfl rfl
    unfold queue
    rw [hp]
    exact List.append_nil _
  | drainTask =>
    obtain ⟨task, tasks, hp, -, rfl⟩ := he
    exact accounted_drained hinv h hp
  | drainDone =>
    obtain ⟨hp, rfl⟩ := he
    exact h.of_queue (by unfold queue; rw [hp]; rfl) rfl rfl rfl rfl rfl rfl
  | yield =>
    rcases he with ⟨-, -, rfl⟩ | ⟨id, co, hp, -, hco, rfl⟩
    · exact h
    · exact h.of_set { co with status := .SUSPENDED, context := .body } hco rfl rfl
        (by unfold queue; rw [hp]; rfl) rfl rfl rfl rfl rfl
  | finish =>
    obtain ⟨id, co, hp, hco, rfl⟩ := he
    exact h.of_set { co with status := .FINISHED } hco rfl rfl
      (by unfold queue; rw [hp]; rfl) rfl rfl rfl rfl rfl
  | createCoroutine =>
    rcases he with ⟨-, -, rfl⟩ | ⟨-, -, -, rfl⟩
    · exact accounted_pushTask h
    · exact accounted_created hinv h
  | clientCreate =>
    have hs : s' = pushTask s.submitted (submit s) := he
    rw [hs]
    exact accounted_pushTask h
  | quit =>
    have hs : s' = { s with quit := true } := he
    rw [hs]
    exact h.of_queue rfl rfl rfl rfl rfl rfl rfl

end

/-! ### The order the tasks are entered in -/

/-- The loop has resumed every coroutine it has met. -/
def Visited (s : State) : Position → Prop
  | .visit (some pos) => ∀ id ∈ s.coStore.keys, id < pos → id < s.entered.length
  | .visit none => ∀ id ∈ s.coStore.keys, id < s.entered.length
  | .running pos => ∀ id ∈ s.coStore.keys, id ≤ pos → id < s.entered.length
  | .leave pos => ∀ id ∈ s.coStore.keys, id ≤ pos → id < s.entered.length
  | _ => True

/-- The tasks entered are the first ones that got a coroutine; the coroutines of the others are
there, and ready. -/
structure Entering (s : State) : Prop where
  entered : s.entered = s.created.take s.entered.length
  ready : ∀ id co, s.coStore.find id = some co → (co.status = .READY ↔ s.entered.length ≤ id)
  present : ∀ id : ℤ, s.entered.length ≤ id → id < s.coNum → id ∈ s.coStore.keys
  visited : Visited s s.position

theorem entering_initial : Entering initial where
  entered := rfl
  ready _ _ h := nomatch h
  present _ h h' := absurd h' (not_lt.mpr h)
  visited := trivial

section
variable {s s' : State} {t : Task}

theorem next?_le {m : OrdMap ℤ Coroutine} {pos : ℤ} : ∀ {p : Option ℤ}, m.next? pos = p →
    ∀ id ∈ m.keys, (∀ x ∈ p, id < x) → id ≤ pos := by
  intro p hp id hid hlt
  by_contra hgt
  have hmem : id ∈ (m.keys.above pos).erase pos :=
    OrdSet.mem_erase.mpr ⟨(not_le.mp hgt).ne', OrdSet.mem_above.mpr ⟨hid, (not_le.mp hgt).le⟩⟩
  cases p with
  | none => exact OrdSet.begin?_eq_none.mp hp id hmem
  | some x => exact absurd ((OrdSet.begin?_eq_some hp).2 id hmem) (not_le.mpr (hlt x rfl))

/-- The loop goes on behind `pos`. -/
theorem visited_next {pos : ℤ} (h : Visited s (.leave pos)) {m : OrdMap ℤ Coroutine}
    (hstore : s'.coStore = m) (hm : ∀ id ∈ m.keys, id ∈ s.coStore.keys)
    (hentered : s'.entered = s.entered) : Visited s' (.visit (s.coStore.next? pos)) := by
  subst hstore
  cases hn : s.coStore.next? pos with
  | none =>
    intro id hid
    rw [hentered]
    exact h id (hm id hid) (next?_le hn id (hm id hid) (by simp))
  | some x =>
    intro id hid hlt
    rw [hentered]
    refine h id (hm id hid) (next?_le hn id (hm id hid) ?_)
    rintro y ⟨⟩
    exact hlt

theorem visited_begin : Visited s (.visit s.coStore.begin?) := by
  cases hb : s.coStore.begin? with
  | none => exact fun id hid => absurd hid (OrdSet.begin?_eq_none.mp hb id)
  | some x => exact fun id hid hlt => absurd ((OrdSet.begin?_eq_some hb).2 id hid) (not_le.mpr hlt)

/-- A coroutine is written that was resumed before, and stays so. -/
theorem Entering.of_set (h : Entering s) {id : ℤ} {co : Coroutine} (co' : Coroutine)
    (hco : s.coStore.find id = some co) (hs : co.status ≠ .READY) (hs' : co'.status ≠ .READY)
    (hstore : s'.coStore = s.coStore.set id co') (hentered : s'.entered = s.entered)
    (hcreated : s'.created = s.created) (hcoNum : s'.coNum = s.coNum)
    (hvisited : Visited s' s'.position) : Entering s' := by
  refine ⟨?_, fun x co'' hx => ?_, fun x hx hlt => ?_, hvisited⟩
  · rw [hentered, hcreated]; exact h.entered
  · rw [hstore] at hx
    rw [hentered]
    rcases OrdMap.find_set_cases hx with ⟨rfl, rfl⟩ | ⟨-, hx⟩
    · exact iff_of_false hs' fun hle => hs ((h.ready _ co hco).mpr hle)
    · exact h.ready x co'' hx
  · rw [hentered] at hx
    rw [hcoNum] at hlt
    rw [hstore, OrdMap.keys_set_of_mem (OrdMap.mem_of_find hco)]
    exact h.present x hx hlt

/-- The first coroutine that is ready is resumed. -/
theorem entering_first (hinv : Inv s) (hacc : Accounted s) (h : Entering s) {pos : ℤ}
    {co : Coroutine} (hp : s.position = .visit (some pos)) (hco : s.coStore.find pos = some co)
    (hr : co.status = .READY) : Entering (resumed pos co s) := by
  have hkey := hinv.keys pos (OrdMap.mem_of_find hco)
  have hle : s.entered.length ≤ pos := (h.ready pos co hco).mp hr
  have hvisited : ∀ id ∈ s.coStore.keys, id < pos → id < s.entered.length := by
    have := h.visited
    rwa [hp] at this
  -- the next one is in `m_coStore`, and has not been met before
  have heq : pos = s.entered.length := by
    by_contra hne
    have hlt : (s.entered.length : ℤ) < pos := by omega
    exact lt_irrefl _ (hvisited _ (h.present _ le_rfl (by omega)) hlt)
  have hentered : (resumed pos co s).entered = s.entered ++ [co.task] := if_pos hr
  have hlen : ((s.entered ++ [co.task]).length : ℤ) = s.entered.length + 1 := by simp
  refine ⟨?_, fun x co' hx => ?_, fun x hx hlt => ?_, fun x hx hxp => ?_⟩
  · have htask := hacc.ids pos co hco
    have hpos : pos.toNat = s.entered.length := by omega
    rw [hpos] at htask
    rw [hentered, List.length_append, List.length_singleton, List.take_add_one]
    show _ = s.created.take s.entered.length ++ s.created[s.entered.length]?.toList
    rw [htask, ← h.entered]
    rfl
  · rw [hentered, hlen]
    rcases OrdMap.find_set_cases hx with ⟨rfl, rfl⟩ | ⟨hne, hx⟩
    · exact iff_of_false nofun (by omega)
    · rw [h.ready x co' hx]
      omega
  · rw [hentered, hlen] at hx
    show x ∈ (s.coStore.set pos (Coroutine.resumed co)).keys
    rw [OrdMap.keys_set_of_mem (OrdMap.mem_of_find hco)]
    exact h.present x (by omega) hlt
  · rw [hentered, hlen]
    have hx : x ∈ (s.coStore.set pos (Coroutine.resumed co)).keys := hx
    rw [OrdMap.keys_set_of_mem (OrdMap.mem_of_find hco)] at hx
    rcases hxp.lt_or_eq with hlt | rfl
    · have := hvisited x hx hlt
      omega
    · omega

/-- A coroutine that waits in its `yield` is resumed. -/
theorem entering_again (h : Entering s) {pos : ℤ} {co : Coroutine}
    (hp : s.position = .visit (some pos)) (hco : s.coStore.find pos = some co)
    (hr : co.status ≠ .READY) : Entering (resumed pos co s) := by
  have hentered : (resumed pos co s).entered = s.entered := if_neg hr
  refine h.of_set (Coroutine.resumed co) hco hr nofun rfl hentered rfl rfl ?_
  intro x hx hxp
  rw [hentered]
  have hx : x ∈ (s.coStore.set pos (Coroutine.resumed co)).keys := hx
  rw [OrdMap.keys_set_of_mem (OrdMap.mem_of_find hco)] at hx
  have hvisited : ∀ id ∈ s.coStore.keys, id < pos → id < s.entered.length := by
    have := h.visited
    rwa [hp] at this
  rcases hxp.lt_or_eq with hlt | rfl
  · exact hvisited x hx hlt
  · exact not_le.mp fun hle => hr ((h.ready x co hco).mpr hle)

/-- A coroutine is made. -/
theorem entering_added (hnum : s.coNum = s.created.length) (h : Entering s)
    (hvisited : Visited (added t s) s.position) : Entering (added t s) := by
  have hle : s.entered.length ≤ s.created.length := by
    rw [h.entered]; exact List.length_take_le' _ _
  refine ⟨?_, fun x co hx => ?_, fun x hx hlt => ?_, hvisited⟩
  · show s.entered = (s.created ++ [t]).take s.entered.length
    rw [List.take_append_of_le_length hle]
    exact h.entered
  · show co.status = .READY ↔ (s.entered.length : ℤ) ≤ x
    rcases OrdMap.find_set_cases hx with ⟨rfl, rfl⟩ | ⟨-, hx⟩
    · exact iff_of_true rfl (by omega)
    · exact h.ready x co hx
  · have hlt : x < s.coNum + 1 := hlt
    show x ∈ s.coStore.keys.insert s.coNum
    rw [OrdSet.mem_insert]
    rcases (Int.lt_add_one_iff.mp hlt).lt_or_eq with hlt | heq
    · exact .inr (h.present x hx hlt)
    · exact .inl heq

/-- Only the control is changed. -/
theorem Entering.of_control (h : Entering s) (hstore : s'.coStore = s.coStore)
    (hentered : s'.entered = s.entered) (hcreated : s'.created = s.created)
    (hcoNum : s'.coNum = s.coNum) (hvisited : Visited s' s'.position) : Entering s' := by
  refine ⟨?_, ?_, ?_, hvisited⟩
  · rw [hentered, hcreated]; exact h.entered
  · rw [hstore, hentered]; exact h.ready
  · rw [hstore, hentered, hcoNum]; exact h.present

theorem Visited.of_same (h : Visited s s.position) (hstore : s'.coStore = s.coStore)
    (hentered : s'.entered = s.entered) (hposition : s'.position = s.position) :
    Visited s' s'.position := by
  rw [hposition]
  cases hp : s.position with
  | visit p =>
    rw [hp] at h
    cases p <;> (unfold Visited at h ⊢; rw [hstore, hentered]; exact h)
  | running pos | leave pos =>
    rw [hp] at h
    unfold Visited at h ⊢
    rw [hstore, hentered]
    exact h
  | outside | test | draining => trivial

/-- A coroutine gives the control back. -/
theorem entering_left (hinv : Inv s) (h : Entering s) {id : ℤ} {co : Coroutine} (co' : Coroutine)
    (hp : s.position = .running id) (hco : s.coStore.find id = some co) (hs : co'.status ≠ .READY)
    (hstore : s'.coStore = s.coStore.set id co') (hentered : s'.entered = s.entered)
    (hcreated : s'.created = s.created) (hcoNum : s'.coNum = s.coNum)
    (hposition : s'.position = .leave id) : Entering s' := by
  have hrunning := hinv.status_running hp hco
  refine h.of_set co' hco (by rw [hrunning]; exact nofun) hs hstore hentered hcreated hcoNum ?_
  rw [hposition]
  intro x hx hxp
  rw [hstore, OrdMap.keys_set_of_mem (OrdMap.mem_of_find hco)] at hx
  rw [hentered]
  have hvisited := h.visited
  rw [hp] at hvisited
  exact hvisited x hx hxp

theorem entering_effect {a : Act} (hinv : Inv s) (hacc : Accounted s) (h : Entering s)
    (he : Effect s s' a) : Entering s' := by
  cases a with
  | start =>
    obtain ⟨-, rfl⟩ := he
    exact h.of_control rfl rfl rfl rfl trivial
  | test =>
    obtain ⟨-, ⟨-, rfl⟩ | ⟨-, rfl⟩⟩ := he
    · exact h.of_control rfl rfl rfl rfl trivial
    · exact h.of_control rfl rfl rfl rfl (visited_begin (s := s))
  | visit =>
    obtain ⟨pos, co, hp, hco, -, rfl⟩ := he
    by_cases hr : co.status = .READY
    · exact entering_first hinv hacc h hp hco hr
    · exact entering_again h hp hco hr
  | leave =>
    obtain ⟨pos, co, hp, hco, ⟨-, -, rfl⟩ | ⟨-, -, -, rfl⟩⟩ := he
    · have hvisited : Visited s (.leave pos) := by
        have := h.visited
        rwa [hp] at this
      have hsub : ∀ id ∈ (s.coStore.erase pos).keys, id ∈ s.coStore.keys := fun id hid =>
        (OrdSet.mem_erase.mp hid).2
      refine ⟨h.entered, fun x co' hx => h.ready x co' (OrdMap.find_erase_cases hx).2,
        fun x hx hlt => ?_, visited_next hvisited rfl hsub rfl⟩
      -- the erased coroutine was entered
      have hpos := hvisited pos (OrdMap.mem_of_find hco) le_rfl
      have hx : (s.entered.length : ℤ) ≤ x := hx
      exact OrdSet.mem_erase.mpr ⟨by omega, h.present x hx hlt⟩
    · refine h.of_control rfl rfl rfl rfl (visited_next (s := s) ?_ rfl (fun _ => id) rfl)
      have := h.visited
      rwa [hp] at this
  | swapTasks =>
    obtain ⟨-, rfl⟩ := he
    exact h.of_control rfl rfl rfl rfl trivial
  | drainTask =>
    obtain ⟨task, tasks, hp, -, rfl⟩ := he
    have h' : Entering { s with position := .draining tasks } :=
      h.of_control rfl rfl rfl rfl trivial
    exact entering_added hacc.coNum h' trivial
  | drainDone =>
    obtain ⟨-, rfl⟩ := he
    exact h.of_control rfl rfl rfl rfl trivial
  | yield =>
    rcases he with ⟨-, -, rfl⟩ | ⟨id, co, hp, -, hco, rfl⟩
    · exact h
    · exact entering_left hinv h { co with status := .SUSPENDED, context := .body } hp hco
        nofun rfl rfl rfl rfl rfl
  | finish =>
    obtain ⟨id, co, hp, hco, rfl⟩ := he
    exact entering_left hinv h { co with status := .FINISHED } hp hco nofun rfl rfl rfl rfl rfl
  | createCoroutine =>
    rcases he with ⟨-, -, rfl⟩ | ⟨hp, -, -, rfl⟩
    · exact h.of_control rfl rfl rfl rfl (h.visited.of_same rfl rfl rfl)
    · have h' : Entering (submit s) := h.of_control rfl rfl rfl rfl (h.visited.of_same rfl rfl rfl)
      refine entering_added hacc.coNum h' ?_
      show Visited _ s.position
      rw [hp]
      trivial
  | clientCreate =>
    have hs : s' = pushTask s.submitted (submit s) := he
    rw [hs]
    exact h.of_control rfl rfl rfl rfl (h.visited.of_same rfl rfl rfl)
  | quit =>
    have hs : s' = { s with quit := true } := he
    rw [hs]
    exact h.of_control rfl rfl rfl rfl (h.visited.of_same rfl rfl rfl)

end

/-! ### The tasks of a run -/

theorem reachable_accounted {s : State} {l : List Act} (hr : Run exec initial l s) :
    Accounted s ∧ Entering s :=
  (run_invariant (P := fun s => Accounted s ∧ Entering s)
    (fun _ _ _ hinv ⟨hacc, hent⟩ he _ =>
      ⟨accounted_effect hinv hacc he, entering_effect hinv hacc hent he⟩)
    hr inv_initial ⟨accounted_initial, entering_initial⟩).2

/-- **No task is lost or duplicated.** In every state of a run
* each task that was submitted is in `m_pendingTasks`, in the vector being drained, in a coroutine
  in `m_coStore`, or in one that was erased, and in one of these only;
* the function of a task has been entered once at most;
* the next coroutine gets an id that no coroutine in `m_coStore` has;
* the ids are the places in the order of creation, in which the pushed tasks are in the order they
  were pushed in; and in this order the functions are entered. -/
theorem conserved {l : List Act} {s : State} (h : Run exec initial l s) :
    (s.pendingTasks ++ draining s.position ++ live s ++ s.erased).Perm (List.range s.submitted) ∧
    s.entered.Nodup ∧
    s.coNum ∉ s.coStore.keys ∧
    (∀ id co, s.coStore.find id = some co → s.created[id.toNat]? = some co.task) ∧
    s.created.filter (· ∈ s.pushed) ++ draining s.position ++ s.pendingTasks = s.pushed ∧
    s.entered.filter (· ∈ s.pushed) <+: s.pushed := by
  have hinv := reachable_inv h
  obtain ⟨hacc, hent⟩ := reachable_accounted h
  have hentered : s.entered <+: s.created := by
    rw [hent.entered]
    exact List.take_prefix _ _
  have hnodup : s.created.Nodup := by
    have := hacc.once.nodup_iff.mpr List.nodup_range
    exact (List.nodup_append.mp this).1
  have horder : s.created.filter (· ∈ s.pushed) ++ draining s.position ++ s.pendingTasks =
      s.pushed := by
    rw [List.append_assoc]
    exact hacc.order
  refine ⟨?_, hentered.sublist.nodup hnodup, fun hid => ?_, hacc.ids, horder, ?_⟩
  · calc (s.pendingTasks ++ draining s.position ++ live s ++ s.erased).Perm
          (draining s.position ++ s.pendingTasks ++ live s ++ s.erased) :=
            (List.perm_append_comm.append_right _).append_right _
      _ = queue s ++ (live s ++ s.erased) := List.append_assoc _ _ _
      List.Perm _ (queue s ++ s.created) := hacc.made.symm.append_left _
      List.Perm _ (s.created ++ queue s) := List.perm_append_comm
      List.Perm _ (List.range s.submitted) := hacc.once
  · exact lt_irrefl _ (hinv.keys _ hid).2
  · refine (hentered.filter _).trans ?_
    rw [List.append_assoc] at horder
    exact ⟨_, horder⟩

/-- A coroutine creates another one, and a foreign thread a third. -/
theorem conserved_created :
    let s := after exec initial [.createCoroutine, .start, .test, .visit, .createCoroutine,
      .clientCreate, .finish, .leave, .swapTasks, .drainTask]
    s.erased = [0] ∧ live s = [1] ∧ draining s.position = [2] ∧
      (s.pendingTasks ++ draining s.position ++ live s ++ s.erased).Perm
        (List.range s.submitted) := by
  intro s
  have hrun : Run exec initial [.createCoroutine, .start, .test, .visit, .createCoroutine,
      .clientCreate, .finish, .leave, .swapTasks, .drainTask] s := run_after (by decide)
  exact ⟨by decide, by decide, by decide, (conserved hrun).1⟩

end ToolsCxx.CoScheduler.Tasks
