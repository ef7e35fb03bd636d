import ToolsCxx.Lib.Machine
import Mathlib.Data.List.Forall2

/-! # Transition systems, and machines that refine them

A transition system is a relation `Step : σ → β → σ → Prop`: the label `b` may lead from one state
to another. `Path Step s l s'` says that the labels `l`, one after the other, may lead from `s` to
`s'`.

* `Path.induction`: what holds of the start and is kept by every step holds at the end of a path;
  the property may speak about the labels so far.
* `trace`: the labels that are seen of the actions of a run, none, one or several of each.
* `Run.refinement`: if every action of a machine is matched by a path of its labels, the trace of a
  run is a path.
* `Run.matched`: if every action is matched by one of another machine, a run is matched by a run.
* `Halt.map`: the errors of a machine that is a part of another one.
* `exists_run`: a goal is reached if there is always an action that leaves less to do. -/

namespace ToolsCxx.Lib.Machine

variable {σ τ : Type} {α β ε : Type*}

/-! ### Paths -/

inductive Path (Step : σ → β → σ → Prop) : σ → List β → σ → Prop
  | nil (s : σ) : Path Step s [] s
  | snoc {s t s' : σ} {l : List β} {b : β} (hl : Path Step s l t) (hb : Step t b s') :
    Path Step s (l ++ [b]) s'

section
variable {Step : σ → β → σ → Prop} {s t s' : σ} {b : β}

theorem Path.single (h : Step s b s') : Path Step s [b] s' := .snoc (.nil s) h

theorem Path.of_nil (h : Path Step s [] s') : s' = s := by
  generalize hl : [] = l at h
  cases h with
  | nil => rfl
  | snoc => exact absurd hl (List.append_ne_nil_of_right_ne_nil _ (List.cons_ne_nil _ _)).symm

theorem Path.of_snoc {l : List β} (h : Path Step s (l ++ [b]) s') :
    ∃ t, Path Step s l t ∧ Step t b s' := by
  generalize hl : l ++ [b] = l' at h
  cases h with
  | nil => exact absurd hl (List.append_ne_nil_of_right_ne_nil _ (List.cons_ne_nil _ _))
  | snoc hpath hb =>
    obtain ⟨rfl, heq⟩ := List.append_inj' hl rfl
    cases heq
    exact ⟨_, hpath, hb⟩

theorem Path.of_single (h : Path Step s [b] s') : Step s b s' := by
  obtain ⟨t, hnil, hb⟩ := Path.of_snoc (List.nil_append [b] ▸ h : Path Step s ([] ++ [b]) s')
  rwa [hnil.of_nil] at hb

theorem Path.append {l l' : List β} (h : Path Step s l t) (h' : Path Step t l' s') :
    Path Step s (l ++ l') s' := by
  induction h' with
  | nil => rwa [List.append_nil]
  | snoc _ hb ih =>
    rw [← List.append_assoc]
    exact .snoc ih hb

/-- **Induction along a path**: the property may speak about the labels so far. -/
theorem Path.induction {P : List β → σ → Prop} (h0 : P [] s)
    (hstep : ∀ l t b t', Path Step s l t → P l t → Step t b t' → P (l ++ [b]) t')
    {l : List β} (h : Path Step s l s') : P l s' := by
  induction h with
  | nil => exact h0
  | snoc hl hb ih => exact hstep _ _ _ _ hl ih hb

end

/-! ### Traces -/

/-- The labels that are seen of the actions `l`. -/
def trace (exec : σ → α → Except ε σ) (see : σ → α → List β) : σ → List α → List β
  | _, [] => []
  | s, a :: l => see s a ++ trace exec see (after exec s [a]) l

variable {exec : σ → α → Except ε σ} {see : σ → α → List β}

theorem trace_snoc {l : List α} {a : α} {s t : σ} (h : Run exec s l t) :
    trace exec see s (l ++ [a]) = trace exec see s l ++ see t a := by
  induction l generalizing s with
  | nil =>
    rw [run_nil.mp h]
    exact List.append_nil _
  | cons b l ih =>
    obtain ⟨u, hb, hl⟩ := run_cons.mp h
    have hu : after exec s [b] = u := after_eq (run_cons.mpr ⟨u, hb, run_nil.mpr rfl⟩)
    rw [List.cons_append, trace, trace, hu, ih hl, List.append_assoc]

/-- **Refinement**: the trace of a run is a path, if every action is matched by one. -/
theorem Run.refinement {Step : τ → β → τ → Prop} {R : σ → τ → Prop}
    (hstep : ∀ s a s' t, R s t → exec s a = .ok s' → ∃ t', Path Step t (see s a) t' ∧ R s' t')
    {s s' : σ} {t : τ} {l : List α} (hR : R s t) (h : Run exec s l s') :
    ∃ t', Path Step t (trace exec see s l) t' ∧ R s' t' := by
  refine Run.induction (P := fun l s' => ∃ t', Path Step t (trace exec see s l) t' ∧ R s' t')
    ⟨t, .nil t, hR⟩ ?_ h
  rintro l u a u' hl ⟨t', hpath, hR'⟩ ha
  obtain ⟨t'', hlabels, hR''⟩ := hstep u a u' t' hR' ha
  rw [trace_snoc hl]
  exact ⟨t'', hpath.append hlabels, hR''⟩

/-! ### Machines that are put together -/

/-- **Refinement of a machine by another one**: every action is matched by one of the other's. -/
theorem Run.matched {α' ε' : Type*} {exec' : τ → α' → Except ε' τ} {R : σ → τ → Prop}
    {M : α → α' → Prop}
    (hstep : ∀ s a s' t, R s t → exec s a = .ok s' →
      ∃ a' t', M a a' ∧ exec' t a' = .ok t' ∧ R s' t')
    {s s' : σ} {t : τ} {l : List α} (hR : R s t) (h : Run exec s l s') :
    ∃ l' t', List.Forall₂ M l l' ∧ Run exec' t l' t' ∧ R s' t' := by
  refine Run.induction (P := fun l s' => ∃ l' t', List.Forall₂ M l l' ∧ Run exec' t l' t' ∧ R s' t')
    ⟨[], t, .nil, run_nil.mpr rfl, hR⟩ ?_ h
  rintro l u a u' - ⟨l', t', hl, hrun, hR'⟩ ha
  obtain ⟨a', t'', hM, ha', hR''⟩ := hstep u a u' t' hR' ha
  exact ⟨l' ++ [a'], t'', List.rel_append hl (.cons hM .nil), hrun.snoc ha', hR''⟩

/-! ### Progress -/

/-- **The rule of progress**: if short of the goal there is always an action that reaches it or
leaves less to do, the goal is reached, in one more action than there is to do at most. -/
theorem exists_run {I G : σ → Prop} {A : α → Prop} {μ : σ → ℕ} (hstep : ∀ s, I s → ¬ G s →
    ∃ a s', A a ∧ exec s a = .ok s' ∧ I s' ∧ (G s' ∨ μ s' < μ s)) {s : σ} (hs : I s) :
    ∃ l s', (∀ a ∈ l, A a) ∧ l.length ≤ μ s + 1 ∧ Run exec s l s' ∧ I s' ∧ G s' := by
  induction hn : μ s using Nat.strongRecOn generalizing s with
  | ind n ih =>
    by_cases hG : G s
    · exact ⟨[], s, fun _ ha => absurd ha List.not_mem_nil, Nat.zero_le _, run_nil.mpr rfl, hs, hG⟩
    · obtain ⟨a, t, hA, ha, ht, hgoal | hlt⟩ := hstep s hs hG
      · refine ⟨[a], t, ?_, Nat.le_add_left 1 n, run_cons.mpr ⟨t, ha, run_nil.mpr rfl⟩, ht, hgoal⟩
        exact List.forall_mem_cons.mpr ⟨hA, fun _ hb => absurd hb List.not_mem_nil⟩
      · obtain ⟨l, s', hl, hlen, hr, hs', hG'⟩ := ih (μ t) (hn ▸ hlt) ht rfl
        have hrun := run_cons.mpr ⟨t, ha, hr⟩
        refine ⟨a :: l, s', List.forall_mem_cons.mpr ⟨hA, hl⟩, ?_, hrun, hs', hG'⟩
        rw [List.length_cons]
        omega

/-! ### The errors of a part -/

/-- The part's errors are some of the whole's. -/
def Halt.map {ε' : Type*} (f : ε → ε') : Halt ε → Halt ε'
  | .disabled => .disabled
  | .fault e => .fault (f e)

section
variable {γ : Type} {ε' : Type*} {x : Except (Halt ε) γ} {f : ε → ε'}

theorem mapError_eq_ok {c : γ} : x.mapError (Halt.map f) = .ok c ↔ x = .ok c := by
  cases x with
  | ok d => exact ⟨fun h => by cases h; rfl, fun h => by cases h; rfl⟩
  | error e => exact iff_of_false nofun nofun

end

end ToolsCxx.Lib.Machine
