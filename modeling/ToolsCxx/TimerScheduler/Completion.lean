import ToolsCxx.TimerScheduler.Frames

/-! # `TimerScheduler`: a dispatch ends

`handle_event` has `left` more actions to take, and `upcoming` is the next one of them. Whatever the
callbacks and the other threads do, it can always be taken (`upcoming_enabled`), and only the
actions of `handle_event` itself make `left` smaller, each by one (`left_step`). So every dispatch
that begins outside `handle_event` and `handle_pending_functor` has taken a bounded number of
actions, is never stuck, and has a way to its end: `ends_of_idle`. -/

namespace ToolsCxx.TimerScheduler.Completion

open ToolsCxx.Base ToolsCxx.Lib.Machine
open ToolsCxx.TimerScheduler.Model ToolsCxx.TimerScheduler.Ownership
open ToolsCxx.TimerScheduler.Effects ToolsCxx.TimerScheduler.Frames

/-! ### What is left to do -/

/-- The next action of `handle_event`. A callback that is running returns. -/
def upcoming (clock : Timestamp) : Phase → Option Act
  | .calling _ _ _ true => some .runDone
  | .calling _ _ (_ :: _) false => some .run
  | .calling _ _ [] false => some .callsDone
  | .resetting _ (_ :: _) => some (.resetEntry clock)
  | .resetting _ [] => some (.resetDone clock)
  | .idle | .draining _ => none

/-- How many actions it has still to take: for a timer whose callback has not been started its
start, its return and a round of `reset`, for the others a round of `reset`. -/
def left : Phase → ℕ
  | .calling _ called rest running => 3 * rest.length + called.length + running.toNat + 2
  | .resetting _ rest => rest.length + 1
  | .idle | .draining _ => 0

section
variable {t t' : State} {a : Act} {clock : Timestamp}

theorem control_of_upcoming {p : Phase} (ha : upcoming clock p = some a) :
    Frames.control a = true := by
  unfold upcoming at ha
  split at ha <;> cases ha <;> rfl

theorem left_pos {p : Phase} (hd : dispatching p = true) : 0 < left p := by
  cases p with
  | calling | resetting => exact Nat.succ_pos _
  | idle | draining => cases hd

/-- The last action is that with which `reset` ends. -/
theorem left_of_resetDone {p : Phase} {clock' : Timestamp}
    (ha : upcoming clock p = some (.resetDone clock')) : clock' = clock ∧ left p = 1 := by
  unfold upcoming at ha
  split at ha <;> cases ha
  exact ⟨rfl, rfl⟩

/-- **A step of a dispatch**: the actions of `handle_event` leave one action less to do, the others
as many; and only the last one leaves `handle_event`. -/
theorem left_step (hd : dispatching t.phase = true) (he : Effect t t' a) :
    left t'.phase + (if Frames.control a then 1 else 0) = left t.phase ∧
      ((∀ clock, a ≠ .resetDone clock) → dispatching t'.phase = true) := by
  have hdraining : ∀ {fs}, t.phase ≠ .draining fs := by
    intro fs hp
    rw [hp] at hd; cases hd
  cases a with
  | run =>
    obtain ⟨now, called, e, rest, u, hp, -, rfl⟩ := he
    rw [hp]
    refine ⟨?_, fun _ => rfl⟩
    show 3 * rest.length + (called ++ [e]).length + 1 + 2 + 1 =
      3 * (rest.length + 1) + called.length + 0 + 2
    rw [List.length_append, List.length_singleton]
    omega
  | runDone =>
    obtain ⟨now, called, rest, hp, rfl⟩ := he
    rw [hp]
    exact ⟨rfl, fun _ => rfl⟩
  | callsDone =>
    obtain ⟨now, called, hp, rfl⟩ := he
    rw [hp]
    refine ⟨?_, fun _ => rfl⟩
    show called.length + 1 + 1 = 3 * 0 + called.length + 0 + 2
    omega
  | resetEntry clock =>
    obtain ⟨now, e, rest, hp, u, -, ⟨-, -, rfl⟩ | ⟨-, rfl⟩⟩ := he <;> rw [hp] <;>
      exact ⟨rfl, fun _ => rfl⟩
  | resetDone clock =>
    refine ⟨?_, fun hno => absurd rfl (hno clock)⟩
    obtain ⟨now, hp, ⟨e, -, -, rfl⟩ | ⟨-, rfl⟩⟩ := he <;> rw [hp] <;> rfl
  | handleEvent | swapFunctors =>
    rw [he.1] at hd; cases hd
  | runFunctor clock =>
    obtain ⟨f, fs, hp, -⟩ := he
    exact absurd hp hdraining
  | functorsDone => exact absurd he.1 hdraining
  | _ =>
    have hphase := (effect_frame he rfl).1
    rw [hphase]
    exact ⟨rfl, fun _ => hd⟩

end

/-! ### Nothing is stuck -/

section
variable {t : State}

theorem deref_ne_disabled {timer : Addr} : deref timer t ≠ .error .disabled := by
  unfold deref; split <;> exact nofun

theorem insertTimer_ne_disabled {timer : Addr} {clock : Timestamp} :
    insertTimer timer clock t ≠ .error .disabled := by
  refine bind_ne_disabled check_ne_disabled fun _ => bind_ne_disabled deref_ne_disabled fun u => ?_
  refine bind_ne_disabled check_ne_disabled fun _ => bind_ne_disabled check_ne_disabled fun _ => ?_
  exact bind_ne_disabled check_ne_disabled fun _ => nofun

theorem delete_ne_disabled {timer : Addr} : delete timer t ≠ .error .disabled := by
  unfold delete; split <;> exact nofun

theorem newExpire_ne_disabled : newExpire t ≠ .error .disabled := by
  unfold newExpire
  split
  · exact nofun
  · exact bind_ne_disabled deref_ne_disabled fun _ => nofun

theorem upcoming_ne_disabled {clock : Timestamp} {a : Act} (ha : upcoming clock t.phase = some a) :
    exec t a ≠ .error .disabled := by
  generalize hp : t.phase = p at ha
  unfold upcoming at ha
  split at ha <;> cases ha
  · show runDone t ≠ _
    unfold runDone; rw [hp]; exact nofun
  · show run t ≠ _
    unfold run; rw [hp]
    exact bind_ne_disabled deref_ne_disabled fun _ => nofun
  · show callsDone t ≠ _
    unfold callsDone; rw [hp]; exact nofun
  · show resetEntry clock t ≠ _
    unfold resetEntry; rw [hp]
    refine bind_ne_disabled deref_ne_disabled fun u => ?_
    split_ifs
    · exact insertTimer_ne_disabled
    · exact delete_ne_disabled
  · show resetDone clock t ≠ _
    unfold resetDone; rw [hp]
    exact bind_ne_disabled newExpire_ne_disabled fun _ => nofun

theorem exists_ok {a : Act} (h : Inv [] t) (ha : exec t a ≠ .error .disabled) :
    ∃ t', exec t a = .ok t' := by
  rcases exec_spec h a with hd | ⟨t', hok, -⟩
  · exact absurd hd ha
  · exact ⟨t', hok⟩

/-- **`handle_event` can go on.** -/
theorem upcoming_enabled (h : Inv [] t) (hd : dispatching t.phase = true) (clock : Timestamp) :
    ∃ a t', upcoming clock t.phase = some a ∧ exec t a = .ok t' := by
  obtain ⟨a, ha⟩ : ∃ a, upcoming clock t.phase = some a := by
    unfold upcoming
    split <;> first | exact ⟨_, rfl⟩ | skip
    all_goals next hp => rw [hp] at hd; cases hd
  obtain ⟨t', hok⟩ := exists_ok h (upcoming_ne_disabled ha)
  exact ⟨a, t', ha, hok⟩

end

/-! ### The end of a dispatch -/

/-- **A dispatch goes on**: what can be done in the state `t` of a dispatch that began in `s`, after
the actions `l`. -/
structure GoesOn (now : Timestamp) (s : State) (l : List Act) (t : State) : Prop where
  /-- the next action of `handle_event` can be taken -/
  enabled : ∀ clock, ∃ a t', upcoming clock t.phase = some a ∧ exec t a = .ok t'
  /-- a callback that is running can cancel every id, and add a timer at every free address -/
  callback : t.phase.userCode = true →
    (∀ timerId, ∃ t', exec t (.cancel timerId) = .ok t') ∧
    ∀ timer request clock, t.heap timer = none → timer ≠ nullptr → timer < uintptrMax →
      ∃ t', exec t (.addTimer ⟨timer, t.numCreated + 1⟩ request clock) = .ok t'
  /-- `handle_event` takes three actions for each expired timer, and two -/
  bounded : l.countP Frames.control + left t.phase = 3 * (expiredAt now s).length + 2
  /-- it ends with those that are left -/
  ends : ∀ clock, ∃ l' t', (∀ a ∈ l', Frames.control a = true) ∧ l'.length + 1 = left t.phase ∧
    Run exec t (l' ++ [.resetDone clock]) t' ∧ t'.phase = .idle

/-- **A dispatch ends**: it begins, and goes on in each of its states. -/
structure Ends (now : Timestamp) (s : State) : Prop where
  begins : ∃ t, exec s (.handleEvent now) = .ok t
  goesOn : ∀ l t, (∀ clock, .resetDone clock ∉ l) → Run exec s (.handleEvent now :: l) t →
    GoesOn now s l t

section
variable {now : Timestamp} {s t : State} {l : List Act}

theorem callback_enabled (h : Inv [] t) (hu : t.phase.userCode = true) :
    (∀ timerId, ∃ t', exec t (.cancel timerId) = .ok t') ∧
    ∀ timer request clock, t.heap timer = none → timer ≠ nullptr → timer < uintptrMax →
      ∃ t', exec t (.addTimer ⟨timer, t.numCreated + 1⟩ request clock) = .ok t' := by
  constructor
  · intro timerId
    obtain ⟨t', hok, -⟩ := cancelTimer_sound h timerId
    exact ⟨t', (enable_bind_of hu).trans hok⟩
  · intro timer request clock hfree hnull hmax
    have hadd : exec t (.addTimer ⟨timer, t.numCreated + 1⟩ request clock) = _ :=
      enable_bind_of ⟨hu, rfl⟩
    refine exists_ok h ?_
    rw [hadd, newTimer_eq_ok.mpr ⟨⟨hfree, hnull, hmax⟩, rfl⟩]
    refine bind_ne_disabled nofun fun u => ?_
    exact bind_ne_disabled insertTimer_ne_disabled fun _ => nofun

/-- The actions that are left lead to the end. -/
theorem exists_end (clock : Timestamp) : ∀ (n : ℕ) (t : State), Inv [] t →
    dispatching t.phase = true → left t.phase = n + 1 →
    ∃ l' t', (∀ a ∈ l', Frames.control a = true) ∧ l'.length = n ∧
      Run exec t (l' ++ [.resetDone clock]) t' ∧ t'.phase = .idle
  | n, t, h, hd, hn => by
    obtain ⟨a, t', ha, hok⟩ := upcoming_enabled h hd clock
    obtain ⟨heff, h'⟩ := exec_effect h hok
    obtain ⟨hleft, hd'⟩ := left_step hd heff
    rw [if_pos (control_of_upcoming ha), hn] at hleft
    by_cases hlast : ∃ clock, a = .resetDone clock
    · obtain ⟨clock', rfl⟩ := hlast
      obtain ⟨rfl, hone⟩ := left_of_resetDone ha
      obtain rfl : n = 0 := by omega
      refine ⟨[], t', fun _ hb => absurd hb List.not_mem_nil, rfl,
        run_cons.mpr ⟨t', hok, run_nil.mpr rfl⟩, ?_⟩
      obtain ⟨now, -, ⟨e, -, -, rfl⟩ | ⟨-, rfl⟩⟩ := heff <;> rfl
    · have hd' := hd' fun clock hx => hlast ⟨clock, hx⟩
      have hpos := left_pos hd'
      cases n with
      | zero => omega
      | succ n =>
        obtain ⟨l', t'', hl', hlen, hr, hidle⟩ := exists_end clock n t' h' hd' (by omega)
        exact ⟨a :: l', t'', List.forall_mem_cons.mpr ⟨control_of_upcoming ha, hl'⟩,
          by rw [List.length_cons, hlen], run_cons.mpr ⟨t', hok, hr⟩, hidle⟩

/-- What `handle_event` has done and what is left, along a dispatch. -/
theorem dispatching_run (h : Inv [] s) (hl : ∀ clock, .resetDone clock ∉ l)
    (hr : Run exec s (.handleEvent now :: l) t) : Inv [] t ∧ dispatching t.phase = true ∧
      l.countP Frames.control + left t.phase = 3 * (expiredAt now s).length + 2 := by
  obtain ⟨s₁, hfirst, hr⟩ := run_cons.mp hr
  obtain ⟨⟨-, rfl⟩, h₁⟩ := exec_effect h hfirst
  refine Run.induction (P := fun l t => (∀ clock, .resetDone clock ∉ l) →
    Inv [] t ∧ dispatching t.phase = true ∧
      l.countP Frames.control + left t.phase = 3 * (expiredAt now s).length + 2)
    (fun _ => ⟨h₁, rfl, Nat.zero_add _⟩) ?_ hr hl
  intro l t a t' _ ih ha hno
  obtain ⟨hinv, hd, hcount⟩ := ih fun clock hm => hno clock (List.mem_append_left _ hm)
  obtain ⟨heff, hinv'⟩ := exec_effect hinv ha
  obtain ⟨hleft, hd'⟩ := left_step hd heff
  refine ⟨hinv', hd' fun clock hx => hno clock ?_, ?_⟩
  · rw [hx]
    exact List.mem_append_right _ List.mem_cons_self
  · rw [List.countP_append, List.countP_singleton]
    omega

/-- **Every dispatch ends**, from every state with the invariant outside `handle_event` and
`handle_pending_functor`. -/
theorem ends_of_idle (h : Inv [] s) (hidle : s.phase = .idle) : Ends now s := by
  refine ⟨⟨_, (handleEvent_spec h now hidle).1⟩, fun l t hl hr => ?_⟩
  obtain ⟨hinv, hd, hcount⟩ := dispatching_run h hl hr
  refine ⟨upcoming_enabled hinv hd, callback_enabled hinv, hcount, fun clock => ?_⟩
  obtain ⟨n, hn⟩ := Nat.exists_eq_add_one.mpr (left_pos hd)
  obtain ⟨l', t', hl', hlen, hrun, hend⟩ := exists_end clock n t hinv hd hn
  exact ⟨l', t', hl', by omega, hrun, hend⟩

end

end ToolsCxx.TimerScheduler.Completion
