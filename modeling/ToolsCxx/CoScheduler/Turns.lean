import ToolsCxx.CoScheduler.Steps

/-! # `CoScheduler`: the turns of a pass

`PassAt` says how far a pass over `m_coStore` has come: which coroutines have had their turn, and
how it ended, and which have not. The actions keep it up to the beginning of the next pass
(`passAt_step`), which may be in a later `start`; `quit` does not end a pass. -/

namespace ToolsCxx.CoScheduler.Turns

open ToolsCxx.Base ToolsCxx.Lib.Machine ToolsCxx.Lib.OrderedSet ToolsCxx.Lib.OrderedMap
open ToolsCxx.CoScheduler.Model ToolsCxx.CoScheduler.Steps

/-! ### A pass -/

/-- How a coroutine gives the control back. -/
inductive Outcome where
  | yielded
  | returned
  deriving DecidableEq

/-- The events of one turn. -/
def turn : ℤ × Outcome → List Event
  | (id, .yielded) => [.resume id, .yield id]
  | (id, .returned) => [.resume id, .return id, .erase id]

/-- The coroutines that have yielded. -/
def yielded (done : List (ℤ × Outcome)) : List ℤ :=
  (done.filter fun d => d.2 = .yielded).map Prod.fst

/-- The turn that is being taken: where the loop is, the coroutines whose turns have not ended, the
events of the turn, and the coroutines that are new. -/
def Turn (s : State) (rest : List ℤ) (events : List Event) (new : List ℤ) : Position → Prop
  | .visit pos => pos = rest.head? ∧ events = [] ∧ new = []
  | .running id => (∃ l, rest = id :: l) ∧ events = [.resume id] ∧ new = []
  | .leave id => (∃ l, rest = id :: l) ∧ new = [] ∧
      (s.curCo = id ∧ events = [.resume id, .yield id] ∨
        s.curCo = -1 ∧ events = [.resume id, .return id])
  -- the pass is over
  | .outside | .test | .draining _ => rest = [] ∧ events = []

/-- The pass is over. -/
def ended : Position → Bool
  | .outside | .test | .draining _ => true
  | _ => false

theorem turn_ended {s : State} {rest new : List ℤ} {events : List Event} {p : Position}
    (h : ended p = true) : Turn s rest events new p ↔ rest = [] ∧ events = [] := by
  cases p with
  | outside | test | draining => rfl
  | visit | running | leave => cases h

/-- **How far a pass has come** that has begun in `s₀`: the turns `done` have been taken, by the
first of the coroutines, and those of the coroutines `rest` have not; those that have yielded are in
`m_coStore` still, with `rest` and the ones that are new. -/
structure PassAt (s₀ s : State) (done : List (ℤ × Outcome)) (rest : List ℤ) (events : List Event)
    (new : List ℤ) : Prop where
  present : s₀.coStore.keys.toList = done.map Prod.fst ++ rest
  trace : s.trace = s₀.trace ++ done.flatMap turn ++ events
  keys : s.coStore.keys.toList = yielded done ++ rest ++ new
  fresh : ∀ id ∈ new, s₀.coNum ≤ id
  taking : Turn s rest events new s.position

section
variable {s₀ s s' : State} {done : List (ℤ × Outcome)} {rest new : List ℤ} {events : List Event}

/-- The beginning of the pass. -/
theorem passAt_begin : PassAt s₀ { s₀ with
    position := .visit s₀.coStore.begin?, passes := s₀.passes + 1 }
    [] s₀.coStore.keys.toList [] [] where
  present := rfl
  trace := by simp
  keys := by simp [yielded]
  fresh _ h := absurd h List.not_mem_nil
  taking := ⟨rfl, rfl, rfl⟩

/-- A coroutine is resumed. -/
theorem passAt_visit (h : PassAt s₀ s done rest events new) (he : Effect s s' .visit) :
    ∃ events', PassAt s₀ s' done rest events' new := by
  obtain ⟨pos, co, hp, hco, -, rfl⟩ := he
  have hturn := h.taking
  rw [hp] at hturn
  obtain ⟨hhead, rfl, rfl⟩ := hturn
  refine ⟨[.resume pos], h.present, ?_, ?_, h.fresh, ?_, rfl, rfl⟩
  · show s.trace ++ [.resume pos] = _
    rw [h.trace, List.append_nil]
  · show (s.coStore.set pos (Coroutine.resumed co)).keys.toList = _
    rw [OrdMap.keys_set_of_mem (OrdMap.mem_of_find hco)]
    exact h.keys
  · exact List.head?_eq_some_iff.mp hhead.symm

/-- It gives the control back. -/
theorem passAt_left (h : PassAt s₀ s done rest events new) {id : ℤ} {co : Coroutine}
    (co' : Coroutine) (curCo : ℤ) {event : Event} (hp : s.position = .running id)
    (hco : s.coStore.find id = some co)
    (hcase : curCo = id ∧ event = .yield id ∨ curCo = -1 ∧ event = .return id) :
    ∃ events', PassAt s₀ { s with
      curCo := curCo, coStore := s.coStore.set id co', position := .leave id
      trace := s.trace ++ [event] } done rest events' new := by
  have hturn := h.taking
  rw [hp] at hturn
  obtain ⟨hrest, rfl, rfl⟩ := hturn
  refine ⟨[.resume id, event], h.present, ?_, ?_, h.fresh, hrest, rfl, ?_⟩
  · rw [h.trace, List.append_assoc]
    rfl
  · show (s.coStore.set id co').keys.toList = _
    rw [OrdMap.keys_set_of_mem (OrdMap.mem_of_find hco)]
    exact h.keys
  · rcases hcase with ⟨rfl, rfl⟩ | ⟨rfl, rfl⟩
    · exact .inl ⟨rfl, rfl⟩
    · exact .inr ⟨rfl, rfl⟩

theorem yielded_append (done : List (ℤ × Outcome)) (id : ℤ) (o : Outcome) :
    yielded (done ++ [(id, o)]) = yielded done ++ if o = .yielded then [id] else [] := by
  unfold yielded
  rw [List.filter_append, List.map_append]
  cases o <;> rfl

/-- The turn ends. -/
theorem passAt_leave (hinv : Inv s) (h : PassAt s₀ s done rest events new)
    (he : Effect s s' .leave) :
    ∃ id o l, rest = id :: l ∧ PassAt s₀ s' (done ++ [(id, o)]) l [] new := by
  obtain ⟨pos, co, hp, hco, hcase⟩ := he
  have hturn := h.taking
  rw [hp] at hturn
  obtain ⟨⟨l, rfl⟩, rfl, hevents⟩ := hturn
  have hpos := (hinv.keys pos (OrdMap.mem_of_find hco)).1
  have hkeys : s.coStore.keys.toList = yielded done ++ pos :: l := by
    rw [h.keys, List.append_nil]
  have hnext : s.coStore.next? pos = l.head? := OrdMap.next?_of_split hkeys
  have hpresent : ∀ o : Outcome, s₀.coStore.keys.toList =
      (done ++ [(pos, o)]).map Prod.fst ++ l := fun o => by
    rw [h.present, List.map_append, List.append_assoc]
    rfl
  have htrace : ∀ o : Outcome, ∀ t, t = s.trace ++ (turn (pos, o)).drop events.length →
      events <+: turn (pos, o) → t = s₀.trace ++ (done ++ [(pos, o)]).flatMap turn ++ [] := by
    rintro o t rfl ⟨tail, htail⟩
    rw [← htail, List.drop_left, h.trace, List.flatMap_append, List.flatMap_singleton,
      List.append_nil, ← htail]
    simp only [List.append_assoc]
  rcases hcase with ⟨hcur, -, rfl⟩ | ⟨hcur, -, -, rfl⟩
  · -- it has returned
    have hev : events = [.resume pos, .return pos] := by
      rcases hevents with ⟨hcur', -⟩ | ⟨-, hev⟩
      · omega
      · exact hev
    subst hev
    refine ⟨pos, .returned, l, rfl, hpresent .returned, ?_, ?_, h.fresh, hnext, rfl, rfl⟩
    · exact htrace .returned _ rfl ⟨[.erase pos], rfl⟩
    · show (s.coStore.erase pos).keys.toList = _
      rw [OrdMap.keys_erase_of_split hkeys, yielded_append]
      simp
  · -- it has yielded
    have hev : events = [.resume pos, .yield pos] := by
      rcases hevents with ⟨-, hev⟩ | ⟨hcur', -⟩
      · exact hev
      · omega
    subst hev
    refine ⟨pos, .yielded, l, rfl, hpresent .yielded, ?_, ?_, h.fresh, hnext, rfl, rfl⟩
    · exact htrace .yielded _ (List.append_nil _).symm ⟨[], rfl⟩
    · show s.coStore.keys.toList = _
      rw [hkeys, yielded_append]
      simp

/-- The pass is over, and the loop goes on to the next one. -/
theorem PassAt.ended (h : PassAt s₀ s done rest events new)
    (hturn : rest = [] ∧ events = []) (hp : ended s'.position = true)
    (htrace : s'.trace = s.trace) (hstore : s'.coStore = s.coStore) :
    PassAt s₀ s' done [] [] new := by
  obtain ⟨rfl, rfl⟩ := hturn
  exact ⟨h.present, htrace.trans h.trace, hstore ▸ h.keys, h.fresh, (turn_ended hp).mpr ⟨rfl, rfl⟩⟩

/-- A coroutine is made after the pass. -/
theorem passAt_added (hinv : Inv s) (hle : s₀.coNum ≤ s.coNum) {t : Task}
    (h : PassAt s₀ s done [] [] new) (hp : ended s.position = true) :
    PassAt s₀ (added t s) done [] [] (new ++ [s.coNum]) := by
  refine ⟨h.present, h.trace, ?_, fun id hid => ?_, (turn_ended hp).mpr ⟨rfl, rfl⟩⟩
  · show (s.coStore.set s.coNum (.new t)).keys.toList = _
    rw [OrdMap.keys_set_of_lt fun id hid => (hinv.keys id hid).2, h.keys, List.append_assoc]
  · rcases List.mem_append.mp hid with hid | hid
    · exact h.fresh id hid
    · rw [List.mem_singleton.mp hid]
      exact hle

/-- Nothing is changed that a pass depends on. -/
theorem PassAt.of_same (h : PassAt s₀ s done rest events new) (htrace : s'.trace = s.trace)
    (hstore : s'.coStore = s.coStore) (hcur : s'.curCo = s.curCo)
    (hposition : s'.position = s.position) : PassAt s₀ s' done rest events new := by
  refine ⟨h.present, htrace.trans h.trace, hstore ▸ h.keys, h.fresh, ?_⟩
  have hturn := h.taking
  rw [hposition]
  cases hp : s.position with
  | leave id =>
    rw [hp] at hturn
    unfold Turn at hturn ⊢
    rw [hcur]
    exact hturn
  | outside | test | visit | running | draining => rw [hp] at hturn; exact hturn

/-- **What an action does to a pass**, unless it begins another one. -/
theorem passAt_step {a : Act} (hinv : Inv s) (hle : s₀.coNum ≤ s.coNum)
    (h : PassAt s₀ s done rest events new) (he : Effect s s' a) (hn : s'.passes = s.passes) :
    ∃ done' rest' events' new', PassAt s₀ s' done' rest' events' new' := by
  have hturn := h.taking
  cases a with
  | start =>
    obtain ⟨hp, rfl⟩ := he
    rw [hp] at hturn
    exact ⟨_, _, _, _, h.ended hturn rfl rfl rfl⟩
  | test =>
    obtain ⟨hp, ⟨-, rfl⟩ | ⟨-, rfl⟩⟩ := he
    · rw [hp] at hturn
      exact ⟨_, _, _, _, h.ended hturn rfl rfl rfl⟩
    · exact absurd hn (Nat.succ_ne_self _)
  | visit =>
    obtain ⟨events', h'⟩ := passAt_visit h he
    exact ⟨_, _, events', _, h'⟩
  | leave =>
    obtain ⟨id, o, l, -, h'⟩ := passAt_leave hinv h he
    exact ⟨_, l, [], _, h'⟩
  | swapTasks =>
    obtain ⟨hp, rfl⟩ := he
    rw [hp] at hturn
    obtain ⟨hhead, hev, -⟩ := hturn
    have hrest : rest = [] := List.head?_eq_none_iff.mp hhead.symm
    exact ⟨_, _, _, _, h.ended ⟨hrest, hev⟩ rfl rfl rfl⟩
  | drainTask =>
    obtain ⟨task, tasks, hp, -, rfl⟩ := he
    rw [hp] at hturn
    have hinv' : Inv { s with position := .draining tasks } := hinv.move (by rw [hp]; rfl) trivial
    have h' : PassAt s₀ { s with position := .draining tasks } done [] [] new :=
      h.ended hturn rfl rfl rfl
    exact ⟨_, _, _, _, passAt_added hinv' hle h' rfl⟩
  | drainDone =>
    obtain ⟨hp, rfl⟩ := he
    rw [hp] at hturn
    exact ⟨_, _, _, _, h.ended hturn rfl rfl rfl⟩
  | yield =>
    rcases he with ⟨-, -, rfl⟩ | ⟨id, co, hp, hcur, hco, rfl⟩
    · exact ⟨_, _, _, _, h⟩
    · obtain ⟨events', h'⟩ := passAt_left h { co with status := .SUSPENDED, context := .body }
        s.curCo hp hco (.inl ⟨hcur, rfl⟩)
      exact ⟨_, _, events', _, h'⟩
  | finish =>
    obtain ⟨id, co, hp, hco, rfl⟩ := he
    obtain ⟨events', h'⟩ := passAt_left h { co with status := .FINISHED } (-1) hp hco
      (.inr ⟨rfl, rfl⟩)
    exact ⟨_, _, events', _, h'⟩
  | createCoroutine =>
    rcases he with ⟨-, -, rfl⟩ | ⟨hp, -, -, rfl⟩
    · exact ⟨_, _, _, _, h.of_same rfl rfl rfl rfl⟩
    · have hend : ended s.position = true := by rw [hp]; rfl
      have h' : PassAt s₀ (submit s) done [] [] new :=
        h.ended ((turn_ended hend).mp hturn) hend rfl rfl
      exact ⟨_, _, _, _, passAt_added (inv_submit hinv) hle h' hend⟩
  | clientCreate =>
    have hs : s' = pushTask s.submitted (submit s) := he
    rw [hs]
    exact ⟨_, _, _, _, h.of_same rfl rfl rfl rfl⟩
  | quit =>
    have hs : s' = { s with quit := true } := he
    rw [hs]
    exact ⟨_, _, _, _, h.of_same rfl rfl rfl rfl⟩

end

end ToolsCxx.CoScheduler.Turns
