import ToolsCxx.CoScheduler.Steps

/-! # `CoScheduler`: `yield` and `create_coroutine` outside the coroutines

`m_curCo` is set when a coroutine is resumed, and reset at its end, but not when it yields. So
outside the coroutines it is -1 if and only if the one that was resumed last has not yielded
(`inert_iff`): otherwise `yield` overwrites the context of that coroutine and switches to a place in
`start` that has returned (`yield_stale`), and `create_coroutine` does not add the coroutine. -/

namespace ToolsCxx.CoScheduler.Outside

open ToolsCxx.Base ToolsCxx.Lib.Machine ToolsCxx.Lib.OrderedSet ToolsCxx.Lib.OrderedMap
open ToolsCxx.CoScheduler.Model ToolsCxx.CoScheduler.Steps

/-! ### The property -/

/-- `m_curCo` is -1; `yield` does nothing; `create_coroutine` adds the coroutine to `m_coStore`. -/
structure Inert (s : State) : Prop where
  curCo : s.curCo = -1
  yield : exec s .yield = .ok s
  create : ∀ s', exec s .createCoroutine = .ok s' →
    s'.coStore = s.coStore.set s.coNum (.new s.submitted) ∧ s'.pendingTasks = s.pendingTasks

/-- The last thing a coroutine has done is to yield. -/
def LastYielded (s : State) : Prop := ∃ id, s.trace.getLast? = some (.yield id)

/-! ### The last event -/

/-- The event after which `m_curCo` names a coroutine. -/
def Names : Event → Prop
  | .resume _ | .yield _ => True
  | .return _ | .erase _ => False

structure Marked (s : State) : Prop where
  curCo : s.curCo ≠ -1 ↔ ∃ e, s.trace.getLast? = some e ∧ Names e
  resumed : ∀ id, s.trace.getLast? = some (.resume id) → s.position = .running id

theorem marked_initial : Marked initial where
  curCo := ⟨fun h => absurd rfl h, fun ⟨_, h, _⟩ => nomatch h⟩
  resumed _ h := nomatch h

section
variable {s s' : State}

/-- There is a new event. -/
theorem Marked.of_event {e : Event} (ht : s'.trace = s.trace ++ [e])
    (hcur : s'.curCo ≠ -1 ↔ Names e) (hr : ∀ id, e = .resume id → s'.position = .running id) :
    Marked s' := by
  have hlast : s'.trace.getLast? = some e := by rw [ht, List.getLast?_concat]
  refine ⟨?_, fun id hid => hr id ?_⟩
  · rw [hcur, hlast]
    exact ⟨fun h => ⟨e, rfl, h⟩, fun ⟨e', he, h⟩ => Option.some.inj he ▸ h⟩
  · rw [hlast] at hid
    exact Option.some.inj hid

/-- There is none. -/
theorem Marked.of_same (h : Marked s) (ht : s'.trace = s.trace) (hcur : s'.curCo = s.curCo)
    (hp : ∀ id, s.position = .running id → s'.position = .running id) : Marked s' := by
  refine ⟨?_, fun id hid => ?_⟩
  · rw [ht, hcur]; exact h.curCo
  · rw [ht] at hid
    exact hp id (h.resumed id hid)

theorem marked_effect {a : Act} (hinv : Inv s) (h : Marked s) (he : Effect s s' a) :
    Marked s' := by
  -- the loop moves outside the coroutines
  have hmove : ∀ {p : Position}, s.position = p → (∀ id, p ≠ .running id) →
      ∀ id, s.position = .running id → s'.position = .running id :=
    fun hp hne id hid => absurd (hp.symm.trans hid) (hne id)
  cases a with
  | start =>
    obtain ⟨hp, rfl⟩ := he
    exact h.of_same rfl rfl (hmove hp nofun)
  | test =>
    obtain ⟨hp, ⟨-, rfl⟩ | ⟨-, rfl⟩⟩ := he <;> exact h.of_same rfl rfl (hmove hp nofun)
  | visit =>
    obtain ⟨pos, co, hp, hco, -, rfl⟩ := he
    have hpos := (hinv.keys pos (OrdMap.mem_of_find hco)).1
    have hne : pos ≠ -1 := by omega
    refine Marked.of_event rfl (iff_of_true hne trivial) fun id hid => ?_
    cases hid
    rfl
  | leave =>
    obtain ⟨pos, co, hp, -, ⟨hcur, -, rfl⟩ | ⟨-, -, -, rfl⟩⟩ := he
    · exact Marked.of_event rfl (iff_of_false (not_not.mpr hcur) id) nofun
    · exact h.of_same rfl rfl (hmove hp nofun)
  | swapTasks =>
    obtain ⟨hp, rfl⟩ := he
    exact h.of_same rfl rfl (hmove hp nofun)
  | drainTask =>
    obtain ⟨task, tasks, hp, -, rfl⟩ := he
    exact h.of_same rfl rfl (hmove hp nofun)
  | drainDone =>
    obtain ⟨hp, rfl⟩ := he
    exact h.of_same rfl rfl (hmove hp nofun)
  | yield =>
    rcases he with ⟨-, -, rfl⟩ | ⟨id, co, hp, -, -, rfl⟩
    · exact h
    · exact Marked.of_event rfl (iff_of_true (hinv.curCo_ne hp).2 trivial) nofun
  | finish =>
    obtain ⟨id, co, -, -, rfl⟩ := he
    exact Marked.of_event rfl (iff_of_false (not_not.mpr rfl) nofun) nofun
  | createCoroutine =>
    rcases he with ⟨-, -, rfl⟩ | ⟨-, -, -, rfl⟩ <;> exact h.of_same rfl rfl fun _ => id
  | clientCreate =>
    have hs : s' = pushTask s.submitted (submit s) := he
    rw [hs]
    exact h.of_same rfl rfl fun _ => id
  | quit =>
    have hs : s' = { s with quit := true } := he
    rw [hs]
    exact h.of_same rfl rfl fun _ => id

theorem reachable_marked {l : List Act} (hr : Run exec initial l s) : Marked s :=
  (run_invariant (P := Marked) (fun _ _ _ hinv h he _ => marked_effect hinv h he) hr inv_initial
    marked_initial).2

/-- `m_curCo` names a coroutine in `m_coStore`, or none. -/
def Stored (s : State) : Prop := s.curCo ≠ -1 → s.curCo ∈ s.coStore.keys

theorem stored_effect {a : Act} (h : Stored s) (he : Effect s s' a) : Stored s' := by
  -- a coroutine is written, or made
  have hset : ∀ {id : ℤ} {co : Coroutine} {c : ℤ}, (c ≠ -1 → c = id ∨ c ∈ s.coStore.keys) → c ≠ -1 →
      c ∈ (s.coStore.set id co).keys := fun hc hne => OrdSet.mem_insert.mpr (hc hne)
  cases a with
  | start =>
    obtain ⟨-, rfl⟩ := he
    exact h
  | test => obtain ⟨-, ⟨-, rfl⟩ | ⟨-, rfl⟩⟩ := he <;> exact h
  | visit =>
    obtain ⟨pos, co, -, -, -, rfl⟩ := he
    exact hset fun _ => .inl rfl
  | leave =>
    obtain ⟨pos, co, -, -, ⟨hcur, -, rfl⟩ | ⟨-, -, -, rfl⟩⟩ := he
    · exact fun hne => absurd hcur hne
    · exact h
  | swapTasks =>
    obtain ⟨-, rfl⟩ := he
    exact h
  | drainTask =>
    obtain ⟨task, tasks, -, -, rfl⟩ := he
    exact hset fun hne => .inr (h hne)
  | drainDone =>
    obtain ⟨-, rfl⟩ := he
    exact h
  | yield =>
    rcases he with ⟨-, -, rfl⟩ | ⟨id, co, -, -, -, rfl⟩
    · exact h
    · exact hset fun hne => .inr (h hne)
  | finish =>
    obtain ⟨id, co, -, -, rfl⟩ := he
    exact fun hne => absurd rfl hne
  | createCoroutine =>
    rcases he with ⟨-, -, rfl⟩ | ⟨-, -, -, rfl⟩
    · exact h
    · exact hset fun hne => .inr (h hne)
  | clientCreate =>
    have hs : s' = pushTask s.submitted (submit s) := he
    rw [hs]
    exact h
  | quit =>
    have hs : s' = { s with quit := true } := he
    rw [hs]
    exact h

/-! ### Outside the coroutines -/

theorem curCo_iff {l : List Act} (hr : Run exec initial l s) (hp : s.position = .outside) :
    s.curCo = -1 ↔ ¬ LastYielded s := by
  have hm := reachable_marked hr
  rw [← not_iff_not, not_not, ← ne_eq, hm.curCo]
  constructor
  · rintro ⟨e, hlast, he⟩
    cases e with
    | resume id =>
      have hrun := hm.resumed id hlast
      rw [hp] at hrun
      cases hrun
    | yield id => exact ⟨id, hlast⟩
    | «return» id => exact he.elim
    | erase id => exact he.elim
  · rintro ⟨id, hlast⟩
    exact ⟨_, hlast, trivial⟩

/-- Otherwise `yield` switches to a place in `start` that has returned. -/
theorem yield_stale {l : List Act} (hr : Run exec initial l s) (hp : s.position = .outside)
    (hlast : LastYielded s) : exec s .yield = .error (.fault .staleContext) := by
  obtain ⟨hinv, hstored⟩ := run_invariant (P := Stored) (fun _ _ _ _ h he _ => stored_effect h he)
    hr inv_initial fun hne => absurd rfl hne
  have hcur : s.curCo ≠ -1 := fun hcur => (curCo_iff hr hp).mp hcur hlast
  obtain ⟨co, hco⟩ := OrdMap.exists_of_mem (hstored hcur)
  have hmain : s.mainContext = none := by
    have hat := hinv.control
    rwa [hp] at hat
  have huser : s.position.userCode = true := by rw [hp]; rfl
  show yield s = _
  unfold yield
  rw [enable_bind_of huser, if_neg hcur]
  simp only [findCurCo, hco, bind, Except.bind, switchToMain, hmain]

/-- With `m_curCo` at -1, the calls outside the coroutines do what they should. -/
theorem inert_of_curCo (hp : s.position = .outside) (hcur : s.curCo = -1) : Inert s := by
  have huser : s.position.userCode = true := by rw [hp]; rfl
  refine ⟨hcur, ?_, fun s' hs => ?_⟩
  · show yield s = .ok s
    unfold yield
    rw [enable_bind_of huser, if_pos hcur]
    rfl
  · obtain ⟨-, hs⟩ := enable_bind_eq_ok.mp hs
    rw [if_neg (not_not.mpr hcur)] at hs
    obtain ⟨-, rfl⟩ := addCoroutine_ok hs
    exact ⟨rfl, rfl⟩

/-- **Outside the coroutines** the calls do what they should if and only if the coroutine that was
resumed last, if there is one, has not yielded. -/
theorem inert_iff {l : List Act} (h : Run exec initial l s) (hp : s.position = .outside) :
    Inert s ↔ ¬ LastYielded s := by
  rw [← curCo_iff h hp]
  exact ⟨Inert.curCo, inert_of_curCo hp⟩

end

/-- A coroutine has yielded and returned, and `start` too. -/
theorem inert_iff_returned :
    let s := after exec initial [.createCoroutine, .start, .test, .visit, .yield, .leave,
      .swapTasks, .drainDone, .test, .visit, .quit, .finish, .leave, .swapTasks, .drainDone, .test]
    s.passes = 2 ∧ s.position = .outside ∧ (Inert s ↔ ¬ LastYielded s) := by
  intro s
  have hrun : Run exec initial [.createCoroutine, .start, .test, .visit, .yield, .leave, .swapTasks,
      .drainDone, .test, .visit, .quit, .finish, .leave, .swapTasks, .drainDone, .test] s :=
    run_after (by decide)
  exact ⟨by decide, by decide, inert_iff hrun (by decide)⟩

/-- The coroutine has yielded when `start` returns. -/
theorem not_always_inert : ¬ ∀ l s, Run exec initial l s → s.position = .outside → Inert s := by
  intro h
  let l : List Act := [.createCoroutine, .start, .test, .visit, .quit, .yield, .leave, .swapTasks,
    .drainDone, .test]
  have hrun : Run exec initial l (after exec initial l) := run_after (by decide)
  exact absurd (h _ _ hrun (by decide)).curCo (by decide)

end ToolsCxx.CoScheduler.Outside
