import ToolsCxx.TimerScheduler.Store

/-! # `TimerScheduler`: the destructor

`~TimerScheduler` deletes the timers of `m_timers`. The functors that have been queued are not
executed any more, and the timers of their insertions are not deleted.

* `teardown_ok`: after every run the destructor deletes each stored timer once, and the timers that
  are left are those whose insertion has not been executed. -/

namespace ToolsCxx.TimerScheduler.Teardown

open ToolsCxx.Base ToolsCxx.Lib.Machine ToolsCxx.Lib.OrderedSet
open ToolsCxx.TimerScheduler.Model ToolsCxx.TimerScheduler.Ownership
open ToolsCxx.TimerScheduler.Effects ToolsCxx.TimerScheduler.Store

/-- The loop of the destructor. -/
def deleteTimers (entries : List TimerEntry) (s : State) : Result State :=
  entries.foldlM (fun s entry => delete entry.timer s) s

/-- `TimerScheduler::~TimerScheduler`, outside `start`. -/
def destroy (s : State) : Result State := do
  enable (s.phase = .idle)
  deleteTimers s.timers.toList s

/-- The heap without the timers of `entries`. -/
def without (heap : Addr → Option Timer) (entries : List TimerEntry) (a : Addr) : Option Timer :=
  if a ∈ entries.map TimerEntry.timer then none else heap a

theorem without_cons (heap : Addr → Option Timer) (e : TimerEntry) (entries : List TimerEntry) :
    without (Function.update heap e.timer none) entries = without heap (e :: entries) := by
  funext a
  unfold without
  rw [List.map_cons]
  rcases eq_or_ne a e.timer with rfl | hne
  · rw [Function.update_self, if_pos List.mem_cons_self, ite_self]
  · rw [Function.update_of_ne hne]
    refine if_congr ?_ rfl rfl
    exact ⟨List.mem_cons_of_mem _, fun h => (List.mem_cons.mp h).resolve_left hne⟩

/-- The loop deletes live timers at different addresses without a fault. -/
theorem deleteTimers_eq : ∀ {entries : List TimerEntry} {s : State},
    (entries.map TimerEntry.timer).Nodup → (∀ e ∈ entries, s.heap e.timer ≠ none) →
      deleteTimers entries s = .ok { s with heap := without s.heap entries }
  | [], s, _, _ => rfl
  | e :: entries, s, hnodup, hlive => by
    obtain ⟨hnot, hnodup'⟩ := List.nodup_cons.mp hnodup
    obtain ⟨t, ht⟩ := Option.ne_none_iff_exists'.mp (hlive e List.mem_cons_self)
    have hlive' : ∀ e' ∈ entries, (deleted e.timer s).heap e'.timer ≠ none := fun e' he' => by
      have hne : e'.timer ≠ e.timer := fun heq => hnot (heq ▸ List.mem_map_of_mem he')
      show Function.update s.heap e.timer none e'.timer ≠ none
      rw [Function.update_of_ne hne]
      exact hlive e' (List.mem_cons_of_mem _ he')
    have hloop := deleteTimers_eq hnodup' hlive'
    unfold deleteTimers at hloop ⊢
    rw [List.foldlM_cons, delete_eq ht]
    refine hloop.trans ?_
    unfold deleted
    rw [without_cons]

/-- A timer is left behind: its insertion is queued, or not queued yet. -/
def Left (s : State) (a : Addr) : Prop :=
  .insert a ∈ s.pendingFunctors ∨ ∃ c q, s.calls c = .created a q

/-- **The destructor** does not fault in a state with the invariant. -/
theorem destroy_spec {s : State} (h : Inv [] s) (hphase : s.phase = .idle) :
    destroy s = .ok { s with heap := without s.heap s.timers.toList } := by
  refine (enable_bind_of hphase).trans (deleteTimers_eq (nodup_timers h) fun e he => ?_)
  obtain ⟨t, ht, -⟩ := h.timers e he
  rw [ht]
  nofun

theorem left_iff {s : State} (h : Inv [] s) (hphase : s.phase = .idle) {a : Addr}
    (ha : s.heap a ≠ none) : Left s a ↔ a ∉ s.timers.toList.map TimerEntry.timer := by
  have hqueue : queue s = s.pendingFunctors := by
    unfold queue
    rw [hphase]
    rfl
  have hstored : a ∈ s.timers.toList.map TimerEntry.timer ↔ At s a .stored := by
    rw [List.mem_map]
    rfl
  rw [hstored]
  constructor
  · rintro (hq | ⟨c, q, hc⟩) hat
    · obtain ⟨k, hk⟩ := List.mem_iff_getElem?.mp hq
      have hat' : At s a (.queued k) := by
        unfold At
        rw [hqueue]
        exact hk
      cases place_unique h hat hat'
    · have hat' : At s a (.adding c) := ⟨q, hc⟩
      cases place_unique h hat hat'
  · intro hno
    obtain ⟨p, hp⟩ := exists_place h ha
    cases p with
    | adding c =>
      obtain ⟨q, hc⟩ := hp
      exact .inr ⟨c, q, hc⟩
    | queued k =>
      refine .inl ?_
      rw [← hqueue]
      exact List.mem_of_getElem? hp
    | stored => exact absurd hp hno
    | expired k =>
      obtain ⟨e, he, -⟩ := hp
      rw [hphase] at he
      cases he

/-- **After every run** the destructor deletes the stored timers, each of them once, and the timers
that are left are exactly those whose insertion has not been executed. -/
theorem teardown_ok {l : List Act} {s : State} (hr : Run exec initial l s)
    (hphase : s.phase = .idle) : ∃ s', destroy s = .ok s' ∧
      (∀ e ∈ s.timers, s.heap e.timer ≠ none ∧ s'.heap e.timer = none) ∧
        ∀ a t, s'.heap a = some t ↔ s.heap a = some t ∧ Left s a := by
  have h := reachable_inv hr
  refine ⟨_, destroy_spec h hphase, fun e he => ⟨?_, ?_⟩, fun a t => ?_⟩
  · obtain ⟨t, ht, -⟩ := h.timers e he
    rw [ht]
    nofun
  · exact if_pos (List.mem_map_of_mem he)
  · show without s.heap s.timers.toList a = some t ↔ _
    unfold without
    split_ifs with hmem
    · refine iff_of_false nofun fun ⟨ht, hleft⟩ => ?_
      exact (left_iff h hphase (by rw [ht]; nofun)).mp hleft hmem
    · refine ⟨fun ht => ⟨ht, (left_iff h hphase (by rw [ht]; nofun)).mpr hmem⟩, And.left⟩

/-- A timer is stored, and the insertions of two others are on their way. -/
def threeAdded : List Act :=
  [.addTimer ⟨16, 1⟩ (.runAt 1000) 500, .clientNew 0 32 (.runAt 2000), .clientPush 0,
    .clientNew 1 48 (.runAt 3000)]

theorem teardown_ok_threeAdded : let s := after exec initial threeAdded
    ∃ s', destroy s = .ok s' ∧
      (∀ e ∈ s.timers, s.heap e.timer ≠ none ∧ s'.heap e.timer = none) ∧
        ∀ a t, s'.heap a = some t ↔ s.heap a = some t ∧ Left s a :=
  teardown_ok (run_after (l := threeAdded) rfl) rfl

end ToolsCxx.TimerScheduler.Teardown
