import ToolsCxx.TimerScheduler.Loop

/-! # `TimerScheduler`: the requests of the foreign threads are not stranded

`never_stranded`: the functors are executed in the order they were queued in, none twice; and while
the scheduler's thread is blocked in `poll`, for every functor in `m_pendingFunctors` and for every
thread that has set `m_quit`, the eventfd is readable or the thread is before its `write_eventfd`.
Outside the dispatch of the channels, where the eventfd may have been read, a functor that waits is
announced (`Announced`): the queue is swapped after the dispatch. -/

namespace ToolsCxx.TimerScheduler.Wakeup

open ToolsCxx.Lib.Machine
open ToolsCxx.TimerScheduler.Model (Functor Phase)
open ToolsCxx.TimerScheduler.Effects ToolsCxx.TimerScheduler.Frames ToolsCxx.TimerScheduler.Loop

/-! ### The queue of functors -/

/-- What an action of `Model` does to the queue. -/
theorem effect_pending {s s' : Model.State} {a : Model.Act} (he : Effect s s' a) :
    match a with
    | .swapFunctors => s'.pendingFunctors = [] ∧ s'.pushed = s.pushed ∧ s'.executed = s.executed
    | .runFunctor _ => s'.pendingFunctors = s.pendingFunctors ∧ s'.pushed = s.pushed ∧
        s'.executed = s.executed + 1
    | .clientPush _ | .clientCancel _ _ => ∃ f, s'.pendingFunctors = s.pendingFunctors ++ [f] ∧
        s'.pushed = s.pushed ++ [f] ∧ s'.executed = s.executed
    | _ => s'.pendingFunctors = s.pendingFunctors ∧ s'.pushed = s.pushed ∧
        s'.executed = s.executed := by
  cases a with
  | addTimer timerId request clock =>
    obtain ⟨-, -, -, rfl⟩ := he
    exact ⟨rfl, rfl, rfl⟩
  | cancel timerId =>
    have hf := cancels_frame he.2
    exact ⟨hf.pendingFunctors, hf.pushed, hf.executed⟩
  | handleEvent now =>
    obtain ⟨-, rfl⟩ := he
    exact ⟨rfl, rfl, rfl⟩
  | run =>
    obtain ⟨_, _, _, _, _, -, -, rfl⟩ := he
    exact ⟨rfl, rfl, rfl⟩
  | runDone =>
    obtain ⟨_, _, _, -, rfl⟩ := he
    exact ⟨rfl, rfl, rfl⟩
  | callsDone =>
    obtain ⟨_, _, -, rfl⟩ := he
    exact ⟨rfl, rfl, rfl⟩
  | resetEntry clock =>
    obtain ⟨now, e, rest, -, t, -, ⟨-, -, rfl⟩ | ⟨-, rfl⟩⟩ := he <;> exact ⟨rfl, rfl, rfl⟩
  | resetDone clock =>
    obtain ⟨now, -, ⟨e, -, -, rfl⟩ | ⟨-, rfl⟩⟩ := he <;> exact ⟨rfl, rfl, rfl⟩
  | swapFunctors =>
    obtain ⟨-, rfl⟩ := he
    exact ⟨rfl, rfl, rfl⟩
  | runFunctor clock =>
    obtain ⟨f, fs, -, hx⟩ := he
    cases f with
    | insert timer =>
      obtain ⟨t, -, rfl⟩ := hx
      exact ⟨rfl, rfl, rfl⟩
    | cancelTimer timerId =>
      have hf := cancels_frame hx
      exact ⟨hf.pendingFunctors, hf.pushed, hf.executed⟩
  | functorsDone =>
    obtain ⟨-, rfl⟩ := he
    exact ⟨rfl, rfl, rfl⟩
  | clientNew c timer request =>
    obtain ⟨-, -, rfl⟩ := he
    exact ⟨rfl, rfl, rfl⟩
  | clientPush c =>
    obtain ⟨timer, q, -, rfl⟩ := he
    exact ⟨_, rfl, rfl, rfl⟩
  | clientReturn c timerId =>
    obtain ⟨_, -, -, rfl⟩ := he
    exact ⟨rfl, rfl, rfl⟩
  | clientCancel c timerId =>
    obtain ⟨-, rfl⟩ := he
    exact ⟨_, rfl, rfl, rfl⟩
  | expire clock =>
    obtain ⟨_, -, -, rfl⟩ := he
    exact ⟨rfl, rfl, rfl⟩
  | otherNew =>
    have hs : s' = { s with numCreated := s.numCreated + 1 } := he
    subst hs
    exact ⟨rfl, rfl, rfl⟩

/-! ### The invariant -/

/-- Outside `handle_event` and `handle_pending_functor`. -/
def atRest : Position → Bool
  | .outside | .test | .poll => true
  | _ => false

/-- Outside the dispatch of the channels. -/
def undispatched : Position → Bool
  | .dispatch _ => false
  | _ => true

/-- The thread that has queued the functor number `k` is before its `write_eventfd`. -/
def Responsible (s : State) (k : ℕ) : Prop := ∃ c, s.pushers[k]? = some c ∧ s.clients c = .pushed k

/-- The functors executed are the first ones that were queued. -/
def InOrder (s : State) : Prop := s.ran = s.sched.pushed.take s.sched.executed

/-- Every functor in `m_pendingFunctors` is announced. -/
def Announced (s : State) : Prop :=
  ∀ k < s.sched.pushed.length, s.sched.pushed.length ≤ k + s.sched.pendingFunctors.length →
    0 < s.eventfd ∨ Responsible s k

structure Inv (s : State) : Prop where
  idle : atRest s.position = true → s.sched.phase = .idle
  inOrder : InOrder s
  pushers : s.pushers.length = s.sched.pushed.length
  announced : undispatched s.position = true → Announced s
  quit : s.quitters ≠ [] → s.quit = true
  asked : s.position = .poll → ∀ c ∈ s.quitters, 0 < s.eventfd ∨ s.clients c = .quitting

theorem inv_initial : Inv initial where
  idle _ := rfl
  inOrder := rfl
  pushers := rfl
  announced _ := fun k hk => absurd hk (Nat.not_lt_zero k)
  quit h := absurd rfl h
  asked h := nomatch h

/-! ### The actions of `Model` -/

section
variable {s s' : State} {b : Model.Act}

theorem follow_frame (s : State) (b : Model.Act) : (follow s b).quit = s.quit ∧
    (follow s b).quitters = s.quitters ∧ (follow s b).eventfd = s.eventfd := by
  unfold follow
  split
  · split <;> exact ⟨rfl, rfl, rfl⟩
  · exact ⟨rfl, rfl, rfl⟩
  · split <;> exact ⟨rfl, rfl, rfl⟩
  all_goals exact ⟨rfl, rfl, rfl⟩

theorem inOrder_step (hf : Fifo s.sched) (ho : InOrder s) (he : Effect s.sched s'.sched b)
    (hs : s' = { follow s b with sched := s'.sched }) : InOrder s' := by
  have hran : s'.ran = (follow s b).ran := by rw [hs]
  unfold InOrder at ho ⊢
  rw [hran]
  cases b with
  | runFunctor clock =>
    obtain ⟨-, hpushed, hexec⟩ := effect_pending he
    obtain ⟨f, fs, hp, -⟩ := he
    have hnext : s.sched.pushed[s.sched.executed]? = some f := by
      rw [← List.head?_drop, hf.2]
      unfold Ownership.queue
      rw [hp]; rfl
    simp only [follow, hp]
    rw [hpushed, hexec, List.take_add_one, hnext, ho]
    rfl
  | clientPush c =>
    obtain ⟨f, -, hpushed, hexec⟩ := effect_pending he
    rw [hpushed, hexec, List.take_append_of_le_length hf.1]
    exact ho
  | clientCancel c timerId =>
    obtain ⟨f, -, hpushed, hexec⟩ := effect_pending he
    rw [hpushed, hexec, List.take_append_of_le_length hf.1]
    exact ho
  | handleEvent now =>
    obtain ⟨-, hpushed, hexec⟩ := effect_pending he
    rw [hpushed, hexec, ← ho]
    simp only [follow]
    split <;> rfl
  | _ =>
    obtain ⟨-, hpushed, hexec⟩ := effect_pending he
    rw [hpushed, hexec]
    exact ho

theorem pushers_step (h : s.pushers.length = s.sched.pushed.length)
    (he : Effect s.sched s'.sched b) (hs : s' = { follow s b with sched := s'.sched }) :
    s'.pushers.length = s'.sched.pushed.length := by
  have hpushers : s'.pushers = (follow s b).pushers := by rw [hs]
  rw [hpushers]
  cases b with
  | clientPush c =>
    obtain ⟨f, -, hpushed, -⟩ := effect_pending he
    rw [hpushed]
    simp [follow, hasPushed, h]
  | clientCancel c timerId =>
    obtain ⟨f, -, hpushed, -⟩ := effect_pending he
    rw [hpushed]
    simp [follow, hasPushed, h]
  | handleEvent now =>
    rw [(effect_pending he).2.1, ← h]
    simp only [follow]
    split <;> rfl
  | runFunctor clock =>
    rw [(effect_pending he).2.1, ← h]
    simp only [follow]
    split <;> rfl
  | _ =>
    rw [(effect_pending he).2.1]
    exact h

/-- A functor is queued, by a thread that has announced its last request. -/
theorem announced_push (hlen : s.pushers.length = s.sched.pushed.length) (h : Announced s) {c : ℕ}
    (hc : s.clients c = .idle) {t : Model.State} {f : Functor}
    (hpending : t.pendingFunctors = s.sched.pendingFunctors ++ [f])
    (hpushed : t.pushed = s.sched.pushed ++ [f]) : Announced { hasPushed c s with sched := t } := by
  intro k hk hle
  simp only [hpushed, hpending, List.length_append, List.length_singleton] at hk hle
  rcases Nat.lt_succ_iff_lt_or_eq.mp hk with hlt | heq
  · refine (h k hlt (by omega)).imp id ?_
    rintro ⟨c', hpush, hc'⟩
    have hne : c' ≠ c := by
      rintro rfl
      rw [hc] at hc'; cases hc'
    refine ⟨c', ?_, (Function.update_of_ne hne _ _).trans hc'⟩
    show (s.pushers ++ [c])[k]? = some c'
    rw [List.getElem?_append_left (by omega)]
    exact hpush
  · refine .inr ⟨c, ?_, ?_⟩
    · show (s.pushers ++ [c])[k]? = some c
      rw [heq, ← hlen, List.getElem?_concat_length]
    · show Function.update s.clients c (.pushed s.pushers.length) c = .pushed k
      rw [Function.update_self, hlen, heq]

theorem announced_step (hlen : s.pushers.length = s.sched.pushed.length)
    (h : undispatched s.position = true → Announced s) (hal : allowed s b)
    (he : Effect s.sched s'.sched b) (hs : s' = { follow s b with sched := s'.sched })
    (hu : undispatched s'.position = true) : Announced s' := by
  -- nothing but the control has changed
  have hsame : s'.sched.pendingFunctors = s.sched.pendingFunctors →
      s'.sched.pushed = s.sched.pushed → s'.pushers = s.pushers → s'.clients = s.clients →
      s'.eventfd = s.eventfd → undispatched s.position = true → Announced s' := by
    intro h1 h2 h3 h4 h5 hu
    unfold Announced Responsible
    rw [h1, h2, h3, h4, h5]
    exact h hu
  cases b with
  | handleEvent now =>
    obtain ⟨channels, hp⟩ := hal
    rw [hs] at hu
    simp [follow, hp, undispatched] at hu
  | swapFunctors =>
    intro k hk hle
    rw [(effect_pending he).1, List.length_nil] at hle
    omega
  | runFunctor clock =>
    obtain ⟨hpending, hpushed, -⟩ := effect_pending he
    have hp : s.position = .functors := hal
    obtain ⟨f, fs, hphase, -⟩ := he
    refine hsame hpending hpushed ?_ ?_ ?_ (by rw [hp]; rfl) <;>
      (rw [hs]; simp only [follow, hphase])
  | functorsDone =>
    obtain ⟨hpending, hpushed, -⟩ := effect_pending he
    have hp : s.position = .functors := hal
    refine hsame hpending hpushed ?_ ?_ ?_ (by rw [hp]; rfl) <;> (rw [hs]; rfl)
  | clientPush c =>
    obtain ⟨f, hpending, hpushed, -⟩ := effect_pending he
    rw [hs] at hu ⊢
    exact announced_push hlen (h hu) hal hpending hpushed
  | clientCancel c timerId =>
    obtain ⟨f, hpending, hpushed, -⟩ := effect_pending he
    rw [hs] at hu ⊢
    exact announced_push hlen (h hu) hal hpending hpushed
  | _ =>
    obtain ⟨hpending, hpushed, -⟩ := effect_pending he
    have hp : s'.position = s.position := by rw [hs]; rfl
    refine hsame hpending hpushed ?_ ?_ ?_ (by rw [← hp]; exact hu) <;> (rw [hs]; rfl)

theorem idle_step (h : atRest s.position = true → s.sched.phase = .idle) (hal : allowed s b)
    (he : Effect s.sched s'.sched b) (hs : s' = { follow s b with sched := s'.sched })
    (hr : atRest s'.position = true) : s'.sched.phase = .idle := by
  by_cases hctl : control b = false
  · have hp : s'.position = s.position := by
      rw [hs]
      cases b <;> first | rfl | cases hctl
    rw [(effect_frame he hctl).1]
    exact h (hp ▸ hr)
  have hpos : ∀ p : Phase, s.sched.phase = p → p ≠ .idle → s'.position ≠ s.position := by
    intro p hp hne heq
    exact hne (hp.symm.trans (h (heq ▸ hr)))
  cases b with
  | handleEvent now =>
    obtain ⟨channels, hp⟩ := hal
    rw [hs] at hr
    simp [follow, hp, atRest] at hr
  | swapFunctors => rw [hs] at hr; cases hr
  | runFunctor clock =>
    obtain ⟨f, fs, hp, -⟩ := he
    exact absurd (by rw [hs]; simp only [follow, hp]) (hpos _ hp nofun)
  | functorsDone => rw [he.2]
  | run =>
    obtain ⟨_, _, _, _, _, hp, -⟩ := he
    exact absurd (by rw [hs]; rfl) (hpos _ hp nofun)
  | runDone =>
    obtain ⟨_, _, _, hp, -⟩ := he
    exact absurd (by rw [hs]; rfl) (hpos _ hp nofun)
  | callsDone =>
    obtain ⟨_, _, hp, -⟩ := he
    exact absurd (by rw [hs]; rfl) (hpos _ hp nofun)
  | resetEntry clock =>
    obtain ⟨_, _, _, hp, -⟩ := he
    exact absurd (by rw [hs]; rfl) (hpos _ hp nofun)
  | resetDone clock =>
    obtain ⟨_, hp, -⟩ := he
    exact absurd (by rw [hs]; rfl) (hpos _ hp nofun)
  | _ => exact absurd rfl hctl

/-- A thread that has set `m_quit` does nothing before its `write_eventfd`. -/
theorem quitting_step (hal : allowed s b) {c : ℕ} (hc : s.clients c = .quitting) :
    (follow s b).clients c = .quitting := by
  have hpush : ∀ c', s.clients c' = .idle → (hasPushed c' s).clients c = .quitting := by
    intro c' hidle
    have hne : c ≠ c' := by
      rintro rfl
      rw [hc] at hidle; cases hidle
    exact (Function.update_of_ne hne _ _).trans hc
  cases b with
  | clientPush c' => exact hpush c' hal
  | clientCancel c' timerId => exact hpush c' hal
  | handleEvent now =>
    simp only [follow]
    split <;> exact hc
  | runFunctor clock =>
    simp only [follow]
    split <;> exact hc
  | _ => exact hc

theorem follow_poll (hp : (follow s b).position = .poll) : s.position = .poll := by
  cases b with
  | handleEvent now =>
    simp only [follow] at hp
    split at hp
    · cases hp
    · exact hp
  | runFunctor clock =>
    simp only [follow] at hp
    split at hp <;> exact hp
  | swapFunctors | functorsDone => cases hp
  | _ => exact hp

theorem inv_sched (hf : Fifo s.sched) (h : Inv s) (hal : allowed s b)
    (he : Effect s.sched s'.sched b) (hs : s' = { follow s b with sched := s'.sched }) :
    Inv s' := by
  obtain ⟨hquit, hquitters, heventfd⟩ := follow_frame s b
  refine ⟨idle_step h.idle hal he hs, inOrder_step hf h.inOrder he hs, pushers_step h.pushers he hs,
    announced_step h.pushers h.announced hal he hs, ?_, ?_⟩
  · rw [hs]
    show (follow s b).quitters ≠ [] → (follow s b).quit = true
    rw [hquit, hquitters]
    exact h.quit
  · rw [hs]
    show (follow s b).position = .poll → ∀ c ∈ (follow s b).quitters,
      0 < (follow s b).eventfd ∨ (follow s b).clients c = .quitting
    rw [hquitters, heventfd]
    intro hp c hc
    exact (h.asked (follow_poll hp) c hc).imp id (quitting_step hal)

end

/-! ### The actions of the loop -/

section
variable {s s' : State}

/-- A foreign thread writes to the eventfd. -/
theorem inv_writeEventfd (h : Inv s) {c : ℕ} (ha : writeEventfd c s = .ok s') : Inv s' := by
  obtain ⟨-, ha⟩ := enable_bind_eq_ok.mp ha
  cases ha
  exact ⟨h.idle, h.inOrder, h.pushers, fun _ _ _ _ => .inl (Nat.succ_pos _), h.quit,
    fun _ _ _ => .inl (Nat.succ_pos _)⟩

/-- It sets `m_quit`; it has announced its last functor. -/
theorem inv_clientQuit (h : Inv s) {c : ℕ} (ha : clientQuit c s = .ok s') : Inv s' := by
  obtain ⟨⟨hc, -⟩, ha⟩ := enable_bind_eq_ok.mp ha
  cases ha
  refine ⟨h.idle, h.inOrder, h.pushers, fun hu k hk hle => ?_, fun _ => rfl, fun hp c' hc' => ?_⟩
  · refine (h.announced hu k hk hle).imp id ?_
    rintro ⟨c', hpush, hc'⟩
    have hne : c' ≠ c := by
      rintro rfl
      rw [hc] at hc'; cases hc'
    exact ⟨c', hpush, (Function.update_of_ne hne _ _).trans hc'⟩
  · show _ ∨ Function.update s.clients c .quitting c' = .quitting
    rcases List.mem_append.mp hc' with hc' | hc'
    · refine (h.asked hp c' hc').imp id fun hq => ?_
      rcases eq_or_ne c' c with rfl | hne
      · exact Function.update_self _ _ _
      · exact (Function.update_of_ne hne _ _).trans hq
    · rw [List.mem_singleton.mp hc']
      exact .inr (Function.update_self _ _ _)

theorem inv_test (h : Inv s) (ha : test s = .ok s') : Inv s' := by
  obtain ⟨hp, ha⟩ := enable_bind_eq_ok.mp ha
  cases ha
  have hidle : s.sched.phase = .idle := h.idle (by rw [hp]; rfl)
  have hann : Announced s := h.announced (by rw [hp]; rfl)
  refine ⟨fun _ => hidle, h.inOrder, h.pushers, fun _ => hann, h.quit, fun hpoll c hc => ?_⟩
  -- the loop goes on, so that no other thread has set `m_quit`
  have hq : s.quit = true := h.quit (List.ne_nil_of_mem hc)
  simp only [hq, if_true] at hpoll
  cases hpoll

theorem inv_readEventfd (h : Inv s) (ha : readEventfd s = .ok s') : Inv s' := by
  simp only [readEventfd] at ha
  split at ha
  · obtain ⟨-, ha⟩ := enable_bind_eq_ok.mp ha
    cases ha
    exact ⟨fun hr => (by cases hr), h.inOrder, h.pushers, fun hu => (by cases hu), h.quit,
      fun hp => (by cases hp)⟩
  · cases ha

theorem inv_step {a : Act} (hinv : Ownership.Inv [] s.sched) (hf : Fifo s.sched) (h : Inv s)
    (ha : exec s a = .ok s') : Inv s' := by
  cases a with
  | start =>
    obtain ⟨hp, ha⟩ := enable_bind_eq_ok.mp ha
    cases ha
    have hidle : s.sched.phase = .idle := h.idle (by rw [hp]; rfl)
    have hann : Announced s := h.announced (by rw [hp]; rfl)
    exact ⟨fun _ => hidle, h.inOrder, h.pushers, fun _ => hann, fun hne => absurd rfl hne, nofun⟩
  | test => exact inv_test h ha
  | poll ready =>
    obtain ⟨-, ha⟩ := enable_bind_eq_ok.mp ha
    cases ha
    exact ⟨nofun, h.inOrder, h.pushers, nofun, h.quit, nofun⟩
  | readEventfd => exact inv_readEventfd h ha
  | quit =>
    obtain ⟨-, ha⟩ := enable_bind_eq_ok.mp ha
    cases ha
    exact ⟨h.idle, h.inOrder, h.pushers, h.announced, fun _ => rfl, h.asked⟩
  | clientQuit c => exact inv_clientQuit h ha
  | writeEventfd c => exact inv_writeEventfd h ha
  | sched b =>
    rcases exec_model ha with ⟨hnone, -⟩ | ⟨b', hb, hal, hexec, hs⟩
    · cases hnone
    · cases hb
      exact inv_sched hf h hal (exec_effect hinv hexec).1 hs

end

theorem reachable_inv {l : List Act} {s : State} (h : Run exec initial l s) : Inv s := by
  refine Run.induction (P := fun _ s => Inv s) inv_initial ?_ h
  intro l t a t' hl ih ha
  have hrun := run_sched hl
  exact inv_step (Effects.reachable_inv hrun) (reachable_fifo hrun) ih ha

/-! ### The requests -/

/-- **The requests of the foreign threads are not stranded.** Whatever the threads have done, the
functors executed are the first ones that were queued, each once. While the scheduler's thread is
blocked in `poll`, the others are in `m_pendingFunctors`, and for each of them, and for each thread
that has set `m_quit` since `start` has cleared it, the eventfd is readable or the thread has not
reached its `write_eventfd`. -/
theorem never_stranded {l : List Act} {s : State} (h : Run exec initial l s) :
    s.ran = s.sched.pushed.take s.ran.length ∧
    (s.position = .poll →
      s.sched.pendingFunctors = s.sched.pushed.drop s.ran.length ∧
      (∀ k < s.sched.pushed.length, s.ran.length ≤ k → 0 < s.eventfd ∨ Responsible s k) ∧
      ∀ c ∈ s.quitters, 0 < s.eventfd ∨ s.clients c = .quitting) := by
  have hinv := reachable_inv h
  have hf := reachable_fifo (run_sched h)
  have hlen : s.ran.length = s.sched.executed := by
    rw [hinv.inOrder, List.length_take, Nat.min_eq_left hf.1]
  refine ⟨by rw [hlen]; exact hinv.inOrder, fun hp => ?_⟩
  have hidle : s.sched.phase = .idle := hinv.idle (by rw [hp]; rfl)
  have hpending : s.sched.pendingFunctors = s.sched.pushed.drop s.ran.length := by
    rw [hlen, hf.2]
    unfold Ownership.queue
    rw [hidle]; rfl
  refine ⟨hpending, fun k hk hle => ?_, hinv.asked hp⟩
  refine hinv.announced (by rw [hp]; rfl) k hk ?_
  rw [hpending, List.length_drop]
  omega

/-- Thread 1 has queued a cancellation, and thread 2 has set `m_quit`, while the scheduler is
blocked. -/
theorem never_stranded_blocked :
    let s := after exec initial [.start, .test, .sched (.clientCancel 1 ⟨16, 1⟩), .clientQuit 2]
    s.position = .poll ∧ s.sched.pendingFunctors = [.cancelTimer ⟨16, 1⟩] ∧ s.quitters = [2] ∧
      ((∀ k < s.sched.pushed.length, s.ran.length ≤ k → 0 < s.eventfd ∨ Responsible s k) ∧
        ∀ c ∈ s.quitters, 0 < s.eventfd ∨ s.clients c = .quitting) := by
  intro s
  have hrun : Run exec initial [.start, .test, .sched (.clientCancel 1 ⟨16, 1⟩), .clientQuit 2] s :=
    run_after (by decide)
  exact ⟨by decide, by decide, by decide, ((never_stranded hrun).2 (by decide)).2⟩

end ToolsCxx.TimerScheduler.Wakeup
