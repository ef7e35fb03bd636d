import Mathlib.Data.List.Basic
import Mathlib.Data.List.Induction

/-! # Machines that take actions, and their runs

A machine is a function `exec : σ → α → Except ε σ`: what the action `a` does in the state `s`. The
error says why it cannot be taken. `Run exec s l s'` says that the actions `l`, one after the other,
lead from `s` to `s'`. All choices (the scheduler of the threads, the values a clock shows, the
addresses an allocator hands out) are in the actions, so that a run can be evaluated.

* `Halt`, `enable`, `check`: an action that is *disabled* is not a step of the machine, an action
  that *faults* is one that goes wrong.
* `seen`: what is seen of the actions of a run, each in the state it is taken in.
* `Happened`: an action of a kind has been taken; `happened_snoc`: up to one action more.
* `Run.induction`: what holds of the start and is kept by every action holds after every run; the
  property may speak about the actions taken so far.
* `Run.invariant_of`: the same for a property of the state and the actions of a kind;
  `Run.invariant_step`: what an action does may be known only under an invariant.
* `Run.simulation`: a run of one machine is matched, action by action, by a run of another.
* A machine that always goes on is a function `step : σ → α → σ`, and its runs are folds;
  `Always.induction` is the rule for runs that meet a condition at every action. -/

namespace ToolsCxx.Lib.Machine

variable {σ τ : Type} {α ε : Type*}

/-! ### Guards -/

/-- Why an action is not taken: it is not enabled, or it is, and goes wrong. -/
inductive Halt (ε : Type*) where
  | disabled
  | fault (e : ε)
  deriving DecidableEq, Repr

/-- The action is enabled only if `p`. -/
def enable (p : Prop) [Decidable p] : Except (Halt ε) Unit :=
  if p then .ok () else .error .disabled

/-- The action goes wrong with `e` unless `p`. -/
def check (p : Prop) [Decidable p] (e : ε) : Except (Halt ε) Unit :=
  if p then .ok () else .error (.fault e)

theorem bind_eq_ok {β γ : Type} {x : Except ε β} {f : β → Except ε γ} {c : γ} :
    (x >>= f) = .ok c ↔ ∃ b, x = .ok b ∧ f b = .ok c := by
  cases x with
  | error e => simp [bind, Except.bind]
  | ok b => simp [bind, Except.bind]

@[simp] theorem enable_eq_ok {p : Prop} [Decidable p] {u : Unit} :
    (enable p : Except (Halt ε) Unit) = .ok u ↔ p := by
  unfold enable; split_ifs with h <;> simp [h]

@[simp] theorem check_eq_ok {p : Prop} [Decidable p] {e : ε} {u : Unit} :
    check p e = .ok u ↔ p := by
  unfold check; split_ifs with h <;> simp [h]

@[simp] theorem enable_bind_eq_ok {β : Type} {p : Prop} [Decidable p]
    {f : Unit → Except (Halt ε) β} {b : β} : (enable p >>= f) = .ok b ↔ p ∧ f () = .ok b := by
  rw [bind_eq_ok]
  exact ⟨fun ⟨_, h, h'⟩ => ⟨enable_eq_ok.mp h, h'⟩, fun ⟨h, h'⟩ => ⟨(), enable_eq_ok.mpr h, h'⟩⟩

@[simp] theorem check_bind_eq_ok {β : Type} {p : Prop} [Decidable p] {e : ε}
    {f : Unit → Except (Halt ε) β} {b : β} : (check p e >>= f) = .ok b ↔ p ∧ f () = .ok b := by
  rw [bind_eq_ok]
  exact ⟨fun ⟨_, h, h'⟩ => ⟨check_eq_ok.mp h, h'⟩, fun ⟨h, h'⟩ => ⟨(), check_eq_ok.mpr h, h'⟩⟩

theorem enable_bind_of {β : Type} {p : Prop} [Decidable p] {f : Unit → Except (Halt ε) β} (h : p) :
    (enable p >>= f) = f () := by
  unfold enable; rw [if_pos h]; rfl

theorem check_bind_of {β : Type} {p : Prop} [Decidable p] {e : ε}
    {f : Unit → Except (Halt ε) β} (h : p) : (check p e >>= f) = f () := by
  unfold check; rw [if_pos h]; rfl

theorem enable_bind_eq_fault {β : Type} {p : Prop} [Decidable p] {e : ε}
    {f : Unit → Except (Halt ε) β} :
    (enable p >>= f) = .error (.fault e) ↔ p ∧ f () = .error (.fault e) := by
  by_cases h : p
  · rw [enable_bind_of h]; exact ⟨fun hf => ⟨h, hf⟩, fun hf => hf.2⟩
  · unfold enable; rw [if_neg h]; exact ⟨nofun, fun hf => absurd hf.1 h⟩

theorem enable_bind_ne_fault {β : Type} {p : Prop} [Decidable p] {e : ε}
    {f : Unit → Except (Halt ε) β} (h : f () ≠ .error (.fault e)) :
    (enable p >>= f) ≠ .error (.fault e) := by
  unfold enable
  split_ifs with hp
  · exact h
  · exact nofun

theorem bind_ne_disabled {β γ : Type} {x : Except (Halt ε) β} {f : β → Except (Halt ε) γ}
    (hx : x ≠ .error .disabled) (hf : ∀ b, f b ≠ .error .disabled) :
    (x >>= f) ≠ .error .disabled := by
  cases x with
  | error e => exact fun h => hx (by cases h; rfl)
  | ok b => exact hf b

theorem check_ne_disabled {p : Prop} [Decidable p] {e : ε} :
    check p e ≠ .error .disabled := by
  unfold check; split_ifs <;> exact nofun

/-! ### Runs -/

/-- **A run**: the actions `l`, in order, lead from `s` to `s'`. -/
def Run (exec : σ → α → Except ε σ) (s : σ) (l : List α) (s' : σ) : Prop :=
  l.foldlM exec s = .ok s'

variable {exec : σ → α → Except ε σ}

@[simp] theorem run_nil {s s' : σ} : Run exec s [] s' ↔ s = s' := by
  simp [Run, pure, Except.pure]

@[simp] theorem run_cons {s s' : σ} {a : α} {l : List α} :
    Run exec s (a :: l) s' ↔ ∃ t, exec s a = .ok t ∧ Run exec t l s' := by
  simp only [Run, List.foldlM_cons, bind_eq_ok]

theorem run_append : ∀ {l l' : List α} {s s' : σ},
    Run exec s (l ++ l') s' ↔ ∃ t, Run exec s l t ∧ Run exec t l' s'
  | [], l', s, s' => by simp
  | a :: l, l', s, s' => by
    simp only [List.cons_append, run_cons, run_append]
    constructor
    · rintro ⟨t, ha, u, hl, hl'⟩; exact ⟨u, ⟨t, ha, hl⟩, hl'⟩
    · rintro ⟨u, ⟨t, ha, hl⟩, hl'⟩; exact ⟨t, ha, u, hl, hl'⟩

theorem run_snoc {l : List α} {a : α} {s s' : σ} :
    Run exec s (l ++ [a]) s' ↔ ∃ t, Run exec s l t ∧ exec t a = .ok s' := by
  simp [run_append]

theorem Run.trans {l l' : List α} {s t s' : σ} (h : Run exec s l t) (h' : Run exec t l' s') :
    Run exec s (l ++ l') s' :=
  run_append.mpr ⟨t, h, h'⟩

theorem Run.snoc {l : List α} {a : α} {s t s' : σ} (h : Run exec s l t)
    (ha : exec t a = .ok s') : Run exec s (l ++ [a]) s' :=
  run_snoc.mpr ⟨t, h, ha⟩

/-- The state after the actions `l`, if they can be taken. -/
def after (exec : σ → α → Except ε σ) (s : σ) (l : List α) : σ :=
  match l.foldlM exec s with
  | .ok s' => s'
  | .error _ => s

/-- The run that is found by taking the actions. -/
theorem run_after {s : σ} {l : List α} (h : (l.foldlM exec s).isOk = true) :
    Run exec s l (after exec s l) := by
  unfold Run after
  cases hs : l.foldlM exec s with
  | error e => rw [hs] at h; cases h
  | ok s' => rfl

theorem after_eq {s s' : σ} {l : List α} (h : Run exec s l s') : after exec s l = s' := by
  have hs : l.foldlM exec s = .ok s' := h
  unfold after
  rw [hs]

/-- One action. -/
theorem exec_eq_after {s : σ} {a : α} (h : (exec s a).isOk = true) :
    exec s a = .ok (after exec s [a]) := by
  cases hs : exec s a with
  | error e => rw [hs] at h; cases h
  | ok s' => rw [after_eq (run_cons.mpr ⟨s', hs, run_nil.mpr rfl⟩)]

/-- The last action of it. -/
theorem exec_after {s : σ} {l : List α} {a : α} (h : ((l ++ [a]).foldlM exec s).isOk = true) :
    exec (after exec s l) a = .ok (after exec s (l ++ [a])) := by
  obtain ⟨t, hl, ha⟩ := run_snoc.mp (run_after h)
  rw [after_eq hl, ha]

/-- What is seen of the actions `l`: `see s a` is what is seen of `a` when it is taken in `s`. -/
def seen {β : Type*} (exec : σ → α → Except ε σ) (see : σ → α → Option β) : σ → List α → List β
  | _, [] => []
  | s, a :: l => (see s a).toList ++ seen exec see (after exec s [a]) l

theorem seen_append {β : Type*} {see : σ → α → Option β} {l l' : List α} {s t : σ}
    (h : Run exec s l t) : seen exec see s (l ++ l') = seen exec see s l ++ seen exec see t l' := by
  induction l generalizing s with
  | nil => rw [run_nil.mp h]; rfl
  | cons a l ih =>
    obtain ⟨u, ha, hl⟩ := run_cons.mp h
    have hu : after exec s [a] = u := after_eq (run_cons.mpr ⟨u, ha, run_nil.mpr rfl⟩)
    rw [List.cons_append, seen, seen, hu, ih hl, List.append_assoc]

theorem seen_snoc {β : Type*} {see : σ → α → Option β} {l : List α} {a : α} {s t : σ}
    (h : Run exec s l t) : seen exec see s (l ++ [a]) = seen exec see s l ++ (see t a).toList := by
  rw [seen_append h, seen, seen, List.append_nil]

/-- An action of which `P` holds has been taken. It may speak about the actions before it. -/
def Happened (exec : σ → α → Except ε σ) (P : List α → σ → α → Prop) (s : σ) (l : List α) : Prop :=
  ∃ l₁ a l₂ t, l = l₁ ++ a :: l₂ ∧ Run exec s l₁ t ∧ P l₁ t a

section
variable {P : List α → σ → α → Prop} {s t : σ} {l : List α} {a : α}

theorem not_happened_nil : ¬ Happened exec P s [] := by
  rintro ⟨l₁, a, l₂, t, hl, -⟩
  exact List.append_ne_nil_of_right_ne_nil l₁ (List.cons_ne_nil a l₂) hl.symm

theorem happened_snoc (h : Run exec s l t) :
    Happened exec P s (l ++ [a]) ↔ Happened exec P s l ∨ P l t a := by
  constructor
  · rintro ⟨l₁, b, l₂, u, hl, hu, hP⟩
    rcases List.eq_nil_or_concat' l₂ with rfl | ⟨l₂, c, rfl⟩
    · obtain ⟨rfl, hab⟩ := List.append_inj' hl rfl
      obtain rfl : a = b := List.singleton_inj.mp hab
      obtain rfl : t = u := (after_eq h).symm.trans (after_eq hu)
      exact Or.inr hP
    · rw [← List.cons_append, ← List.append_assoc] at hl
      obtain ⟨rfl, -⟩ := List.append_inj' hl rfl
      exact Or.inl ⟨l₁, b, l₂, u, rfl, hu, hP⟩
  · rintro (⟨l₁, b, l₂, u, rfl, hu, hP⟩ | hP)
    · exact ⟨l₁, b, l₂ ++ [a], u, by rw [List.append_assoc, List.cons_append], hu, hP⟩
    · exact ⟨l, a, [], t, rfl, h, hP⟩

end

/-- **Induction along a run**: the property may speak about the actions taken so far. -/
theorem Run.induction {P : List α → σ → Prop} {s : σ} (h0 : P [] s)
    (hstep : ∀ l t a t', Run exec s l t → P l t → exec t a = .ok t' → P (l ++ [a]) t')
    {l : List α} {s' : σ} (h : Run exec s l s') : P l s' := by
  induction l using List.reverseRecOn generalizing s' with
  | nil => rw [run_nil] at h; exact h ▸ h0
  | append_singleton l a ih =>
    obtain ⟨t, hl, ha⟩ := run_snoc.mp h
    exact hstep l t a s' hl (ih hl) ha

/-- **The invariant rule**, for runs whose actions are all of a kind `A`. -/
theorem Run.invariant_of {P : σ → Prop} {A : α → Prop}
    (hstep : ∀ t a t', P t → A a → exec t a = .ok t' → P t') {s : σ} (h0 : P s)
    {l : List α} (hl : ∀ a ∈ l, A a) {s' : σ} (h : Run exec s l s') : P s' := by
  refine Run.induction (P := fun l t => (∀ a ∈ l, A a) → P t) (fun _ => h0) ?_ h hl
  intro l t a t' _ ih ha hA
  exact hstep t a t' (ih fun b hb => hA b (by simp [hb])) (hA a (by simp)) ha

/-- **The invariant rule, relative to an invariant** `I` under which `Step` is what the actions
do. -/
theorem Run.invariant_step {I P : σ → Prop} {A : α → Prop} {Step : σ → α → σ → Prop}
    (hexec : ∀ t a t', I t → exec t a = .ok t' → Step t a t' ∧ I t')
    (hstep : ∀ t a t', A a → I t → P t → Step t a t' → I t' → P t') {s : σ} (hI : I s) (h0 : P s)
    {l : List α} (hl : ∀ a ∈ l, A a) {s' : σ} (h : Run exec s l s') : I s' ∧ P s' := by
  refine Run.invariant_of (P := fun t => I t ∧ P t) ?_ ⟨hI, h0⟩ hl h
  rintro t a t' ⟨hIt, hPt⟩ hA ha
  obtain ⟨hs, hIt'⟩ := hexec t a t' hIt ha
  exact ⟨hIt', hstep t a t' hA hIt hPt hs hIt'⟩

/-- **Simulation**: related states take the same actions to related states. -/
theorem Run.simulation {ε' : Type*} {exec' : τ → α → Except ε' τ} {R : σ → τ → Prop}
    (hstep : ∀ s a s' t, R s t → exec s a = .ok s' → ∃ t', exec' t a = .ok t' ∧ R s' t')
    {s s' : σ} {t : τ} {l : List α} (hR : R s t) (h : Run exec s l s') :
    ∃ t', Run exec' t l t' ∧ R s' t' := by
  refine Run.induction (P := fun l s' => ∃ t', Run exec' t l t' ∧ R s' t')
    ⟨t, run_nil.mpr rfl, hR⟩ ?_ h
  rintro l u a u' - ⟨t', hl, hR'⟩ ha
  obtain ⟨t'', ha', hR''⟩ := hstep u a u' t' hR' ha
  exact ⟨t'', hl.snoc ha', hR''⟩

/-! ### Machines that always go on -/

section
variable {step : σ → α → σ} {C : σ → α → Prop} {s : σ}

/-- Every action of `l` is taken in a state in which `C` holds of it. -/
def Always (step : σ → α → σ) (C : σ → α → Prop) : σ → List α → Prop
  | _, [] => True
  | s, a :: l => C s a ∧ Always step C (step s a) l

theorem always_of_forall {l : List α} (h : ∀ a ∈ l, ∀ s, C s a) (s : σ) : Always step C s l := by
  induction l generalizing s with
  | nil => trivial
  | cons a l ih =>
    exact ⟨h a List.mem_cons_self s, ih (fun b hb => h b (List.mem_cons_of_mem a hb)) (step s a)⟩

theorem always_snoc {l : List α} {a : α} :
    Always step C s (l ++ [a]) ↔ Always step C s l ∧ C (l.foldl step s) a := by
  induction l generalizing s with
  | nil => exact and_comm
  | cons b l ih =>
    rw [List.cons_append, List.foldl_cons, Always, Always, ih, and_assoc]

/-- **Induction along the actions.** -/
theorem Always.induction {P : List α → σ → Prop} (h0 : P [] s)
    (hstep : ∀ l t a, P l t → C t a → P (l ++ [a]) (step t a)) {l : List α}
    (h : Always step C s l) : P l (l.foldl step s) := by
  induction l using List.reverseRecOn with
  | nil => exact h0
  | append_singleton l a ih =>
    obtain ⟨hl, ha⟩ := always_snoc.mp h
    rw [List.foldl_append]
    exact hstep l _ a (ih hl) ha

end

end ToolsCxx.Lib.Machine
