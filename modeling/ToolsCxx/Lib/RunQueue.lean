import ToolsCxx.Lib.Transitions
import Mathlib.Data.List.Nodup
import Mathlib.Data.List.Count
import Mathlib.Data.List.Permutation

/-! # Run queues

What a cooperative scheduler is for, without its data structures. The tasks in line take turns, in
rounds: a task that yields has its next turn in the next round. A task that is submitted waits until
the end of the round and is accepted then, behind those that have yielded; between two rounds a task
may also join the line without waiting.

* `Step`: what each label does.
* `Tidy`: a task is in one place, once.
* `next_turns`: the tasks in line have the next turns, in their order.
* `turns_fair`: of two tasks in line none has two turns more than the other one, as long as both
  stay.
* `bypassed_le`: no task has more than two turns while another one waits for its first. -/

namespace ToolsCxx.Lib.RunQueue

open ToolsCxx.Lib.Machine

@[ext] structure State (K : Type) where
  submitted : List K
  /-- submitted, and not being accepted yet -/
  waiting : List K
  /-- accepted when they come up, after the round -/
  accepting : List K
  /-- those that have a turn in this round yet -/
  round : List K
  /-- those that have one in the next round -/
  next : List K
  running : Option K
  /-- no round is being run -/
  closed : Bool

inductive Label (K : Type) where
  | submit (k : K)
  | join (k : K)
  | openRound
  | resume (k : K)
  | yield (k : K)
  | finish (k : K)
  | closeRound
  | accept (k : K)
  deriving DecidableEq

variable {K : Type}

/-- No task has been submitted. -/
def initial : State K where
  submitted := []
  waiting := []
  accepting := []
  round := []
  next := []
  running := none
  closed := true

inductive Step : State K → Label K → State K → Prop
  | submit {s : State K} {k : K} (hk : k ∉ s.submitted) :
    Step s (.submit k) { s with submitted := s.submitted ++ [k], waiting := s.waiting ++ [k] }
  | join {s : State K} {k : K} (hk : k ∉ s.submitted) (hclosed : s.closed = true)
    (haccepting : s.accepting = []) :
    Step s (.join k) { s with submitted := s.submitted ++ [k], next := s.next ++ [k] }
  | openRound {s : State K} (hclosed : s.closed = true) (haccepting : s.accepting = [])
    (hround : s.round = []) :
    Step s .openRound { s with round := s.next, next := [], closed := false }
  | resume {s : State K} {k : K} {rest : List K} (hrunning : s.running = none)
    (hround : s.round = k :: rest) :
    Step s (.resume k) { s with round := rest, running := some k }
  | yield {s : State K} {k : K} (hrunning : s.running = some k) :
    Step s (.yield k) { s with next := s.next ++ [k], running := none }
  | finish {s : State K} {k : K} (hrunning : s.running = some k) :
    Step s (.finish k) { s with running := none }
  | closeRound {s : State K} (hclosed : s.closed = false) (hrunning : s.running = none)
    (hround : s.round = []) (haccepting : s.accepting = []) :
    Step s .closeRound { s with accepting := s.waiting, waiting := [], closed := true }
  | accept {s : State K} {k : K} {rest : List K} (hclosed : s.closed = true)
    (haccepting : s.accepting = k :: rest) :
    Step s (.accept k) { s with accepting := rest, next := s.next ++ [k] }

/-- The tasks in line, the next one first. -/
def line (s : State K) : List K := s.round ++ s.next

/-- The turns that begin. -/
def turns (l : List (Label K)) : List K :=
  l.filterMap fun
    | .resume k => some k
    | _ => none

section
variable {s s' t : State K} {l : List (Label K)} {b : Label K}

theorem turns_snoc (l : List (Label K)) (b : Label K) : turns (l ++ [b]) = turns l ++ turns [b] :=
  List.filterMap_append

/-! ### The next turns -/

/-- How far the turns `done` have got with the tasks that were in the line `first`. -/
def Served (first done line : List K) : Prop :=
  (∃ rest back, first = done ++ rest ∧ line = rest ++ back) ∨ first <+: done

theorem Served.append {first done line : List K} (h : Served first done line) (k : K) :
    Served first done (line ++ [k]) := by
  rcases h with ⟨rest, back, hfirst, hline⟩ | h
  · exact .inl ⟨rest, back ++ [k], hfirst, by rw [hline, List.append_assoc]⟩
  · exact .inr h

theorem Served.resume {first done line : List K} {k : K} (h : Served first done (k :: line)) :
    Served first (done ++ [k]) line := by
  rcases h with ⟨rest, back, hfirst, hline⟩ | h
  · cases rest with
    | nil =>
      rw [hfirst, List.append_nil]
      exact .inr (List.prefix_append _ _)
    | cons x rest =>
      obtain ⟨rfl, htail⟩ := List.cons.inj hline
      exact .inl ⟨rest, back, by rw [hfirst, List.append_assoc]; rfl, htail⟩
  · exact .inr (h.trans (List.prefix_append _ _))

theorem served_step {first : List K} (h : Served first (turns l) (line s)) (hs : Step s b t) :
    Served first (turns (l ++ [b])) (line t) := by
  rw [turns_snoc]
  cases hs with
  | @resume k rest hrunning hround =>
    unfold line at h
    rw [hround] at h
    exact h.resume
  | @join k hk hclosed haccepting | @yield k hrunning | @accept k rest hclosed haccepting =>
    show Served _ (turns l ++ []) (s.round ++ (s.next ++ [k]))
    rw [List.append_nil, ← List.append_assoc]
    exact h.append k
  | openRound hclosed haccepting hround =>
    show Served _ (turns l ++ []) (s.next ++ [])
    unfold line at h
    rw [hround] at h
    rw [List.append_nil, List.append_nil]
    exact h
  | submit | finish | closeRound =>
    show Served _ (turns l ++ []) (line s)
    rw [List.append_nil]
    exact h

/-- **The next turns** are those of the tasks in line, in their order. -/
theorem next_turns (h : Path Step s l t) : turns l <+: line s ∨ line s <+: turns l := by
  have hserved : Served (line s) (turns l) (line t) :=
    Path.induction (P := fun l t => Served (line s) (turns l) (line t))
      (.inl ⟨line s, [], rfl, (List.append_nil _).symm⟩)
      (fun _ _ _ _ _ h hb => served_step h hb) h
  exact hserved.imp_left fun ⟨rest, _, hline, _⟩ => ⟨rest, hline.symm⟩

end

/-! ### The places of the tasks -/

/-- The tasks that have been accepted and have not finished; the one that runs comes last. -/
def ring (s : State K) : List K := line s ++ s.running.toList

/-- The tasks that have not finished. -/
def everyone (s : State K) : List K := s.waiting ++ s.accepting ++ ring s

/-- **Every task is in one place, once.** -/
structure Tidy (s : State K) : Prop where
  nodup : (everyone s).Nodup
  submitted : ∀ k ∈ everyone s, k ∈ s.submitted
  rest : s.closed = true → s.round = [] ∧ s.running = none

theorem tidy_initial : Tidy (initial : State K) where
  nodup := List.nodup_nil
  submitted _ h := absurd h List.not_mem_nil
  rest _ := ⟨rfl, rfl⟩

section
variable {s s' t : State K} {l : List (Label K)} {b : Label K}

/-- The tasks change their places. -/
theorem Tidy.of_perm (h : Tidy s) (hperm : (everyone t).Perm (everyone s))
    (hsubmitted : t.submitted = s.submitted)
    (hrest : t.closed = true → t.round = [] ∧ t.running = none) : Tidy t where
  nodup := hperm.nodup_iff.mpr h.nodup
  submitted k hk := hsubmitted ▸ h.submitted k (hperm.mem_iff.mp hk)
  rest := hrest

/-- A new task comes in. -/
theorem Tidy.of_new (h : Tidy s) {k : K} (hk : k ∉ s.submitted)
    (hperm : (everyone t).Perm (k :: everyone s)) (hsubmitted : t.submitted = s.submitted ++ [k])
    (hrest : t.closed = true → t.round = [] ∧ t.running = none) : Tidy t where
  nodup := by
    rw [hperm.nodup_iff, List.nodup_cons]
    exact ⟨fun hmem => hk (h.submitted k hmem), h.nodup⟩
  submitted x hx := by
    rw [hsubmitted, List.mem_append, List.mem_singleton]
    rcases List.mem_cons.mp (hperm.mem_iff.mp hx) with rfl | hx
    · exact .inr rfl
    · exact .inl (h.submitted x hx)
  rest := hrest

theorem tidy_step (h : Tidy s) (hs : Step s b t) : Tidy t := by
  cases hs with
  | @submit k hk =>
    refine h.of_new hk ?_ rfl h.rest
    show ((s.waiting ++ [k]) ++ s.accepting ++ ring s).Perm _
    rw [List.append_assoc s.waiting, List.append_assoc s.waiting]
    exact (List.perm_middle).trans (.of_eq (congrArg _ (List.append_assoc _ _ _).symm))
  | @join k hk hclosed haccepting =>
    obtain ⟨hround, hrunning⟩ := h.rest hclosed
    refine h.of_new hk ?_ rfl fun _ => ⟨hround, hrunning⟩
    unfold everyone ring line
    rw [hrunning, hround, haccepting]
    simp only [Option.toList_none, List.append_nil, List.nil_append, ← List.append_assoc]
    exact List.perm_append_singleton _ _
  | openRound hclosed haccepting hround =>
    refine h.of_perm (.of_eq ?_) rfl nofun
    unfold everyone ring line
    simp [hround]
  | @resume k rest hrunning hround =>
    refine h.of_perm ?_ rfl fun hclosed => ?_
    · unfold everyone ring line
      rw [hrunning, hround]
      simp only [Option.toList_none, Option.toList_some, List.append_nil, List.cons_append]
      exact ((List.perm_append_singleton _ _)).append_left _
    · rw [(h.rest hclosed).1] at hround
      cases hround
  | @yield k hrunning =>
    refine h.of_perm (.of_eq ?_) rfl fun hclosed => ⟨(h.rest hclosed).1, rfl⟩
    unfold everyone ring line
    simp [hrunning]
  | @finish k hrunning =>
    have hsub : (everyone { s with running := none }).Sublist (everyone s) := by
      unfold everyone ring line
      rw [hrunning]
      exact ((List.nil_sublist _).append_left _).append_left _
    exact ⟨h.nodup.sublist hsub, fun k hk => h.submitted k (hsub.subset hk),
      fun hclosed => ⟨(h.rest hclosed).1, rfl⟩⟩
  | closeRound hclosed hrunning hround haccepting =>
    refine h.of_perm ?_ rfl fun _ => ⟨hround, hrunning⟩
    unfold everyone ring line
    simp [haccepting]
  | @accept k rest hclosed haccepting =>
    obtain ⟨hround, hrunning⟩ := h.rest hclosed
    refine h.of_perm ?_ rfl fun _ => ⟨hround, hrunning⟩
    unfold everyone ring line
    rw [haccepting, hround, hrunning]
    simp only [Option.toList_none, List.append_nil, List.nil_append, List.append_assoc]
    refine List.Perm.append_left _ ?_
    rw [← List.append_assoc]
    exact List.perm_append_singleton _ _

theorem Tidy.path (hs : Tidy s) (h : Path Step s l t) : Tidy t :=
  Path.induction (P := fun _ t => Tidy t) hs (fun _ _ _ _ _ h hb => tidy_step h hb) h

/-- A task that is in line has no other place. -/
theorem Tidy.not_mem_ring (h : Tidy s) {k : K} (hk : k ∈ s.waiting ∨ k ∈ s.accepting) :
    k ∉ ring s :=
  fun hring => List.disjoint_of_nodup_append h.nodup (List.mem_append.mpr hk) hring

theorem Tidy.mem_submitted (h : Tidy s) {k : K} (hk : k ∈ ring s) : k ∈ s.submitted :=
  h.submitted k (List.mem_append_right _ hk)

end

/-! ### Fairness -/

section
variable [DecidableEq K] {s s' t : State K} {l : List (Label K)} {b : Label K} {k k' x : K}
  {r : List K} {n n' : ℕ}

/-- What is left of a list of these two tasks. -/
def pair (k k' : K) (l : List K) : List K := l.filter fun x => x = k ∨ x = k'

theorem pair_cons_of_ne (h : x ≠ k) (h' : x ≠ k') : pair k k' (x :: r) = pair k k' r :=
  List.filter_cons_of_neg (by simp [h, h'])

theorem pair_snoc_of_ne (h : x ≠ k) (h' : x ≠ k') : pair k k' (r ++ [x]) = pair k k' r := by
  unfold pair
  rw [List.filter_append]
  exact (congrArg _ (pair_cons_of_ne h h')).trans (List.append_nil _)

theorem mem_pair : x ∈ pair k k' r ↔ x ∈ r ∧ (x = k ∨ x = k') := by
  unfold pair
  rw [List.mem_filter, decide_eq_true_iff]

/-- Two tasks are in a list in one order or the other. -/
theorem pair_cases (hn : r.Nodup) (hk : k ∈ r) (hk' : k' ∈ r) (hne : k ≠ k') :
    pair k k' r = [k, k'] ∨ pair k k' r = [k', k] := by
  refine List.perm_pair.mp ((List.perm_ext_iff_of_nodup (hn.filter _) ?_).mpr fun x => ?_)
  · exact List.nodup_cons.mpr ⟨fun hmem => hne (List.mem_singleton.mp hmem), List.nodup_singleton _⟩
  · refine mem_pair.trans ⟨fun h => by simpa using h.2, fun h => ?_⟩
    have hor : x = k ∨ x = k' := by simpa using h
    exact ⟨by rcases hor with rfl | rfl <;> assumption, hor⟩

/-- The tasks have had `n` and `n'` turns, as many each, or the one that was ahead has had one
more and is behind now. -/
def Balanced (k k' : K) (r : List K) (n n' : ℕ) : Prop :=
  pair k k' r = [k, k'] ∧ n = n' ∨ pair k k' r = [k', k] ∧ n = n' + 1

theorem Balanced.mem (h : Balanced k k' r n n') : k ∈ r ∧ k' ∈ r := by
  have hmem : ∀ x ∈ pair k k' r, x ∈ r := fun x hx => (mem_pair.mp hx).1
  rcases h with ⟨hpair, -⟩ | ⟨hpair, -⟩ <;>
    exact ⟨hmem k (by simp [hpair]), hmem k' (by simp [hpair])⟩

/-- Another task comes behind them, or goes. -/
theorem balanced_snoc (hx : x ≠ k) (hx' : x ≠ k') :
    Balanced k k' (r ++ [x]) n n' ↔ Balanced k k' r n n' := by
  unfold Balanced
  rw [pair_snoc_of_ne hx hx']

/-- The first task has a turn. -/
theorem Balanced.rotate (h : Balanced k k' (x :: r) n n') (hne : k ≠ k') :
    Balanced k k' (r ++ [x]) (n + [x].count k) (n' + [x].count k') := by
  have hsnoc : pair k k' (r ++ [x]) = pair k k' r ++ pair k k' [x] := List.filter_append _ _
  by_cases hx : x = k
  · subst hx
    have hself : pair x k' [x] = [x] := List.filter_cons_of_pos (by simp)
    have hcons : pair x k' (x :: r) = x :: pair x k' r := List.filter_cons_of_pos (by simp)
    have hfirst : pair x k' r = [k'] ∧ n = n' := by
      rcases h with ⟨hpair, heq⟩ | ⟨hpair, -⟩
      · exact ⟨(List.cons.inj (hcons.symm.trans hpair)).2, heq⟩
      · exact absurd (List.cons.inj (hcons.symm.trans hpair)).1 hne
    refine .inr ⟨by rw [hsnoc, hself, hfirst.1]; rfl, ?_⟩
    rw [List.count_singleton_self, List.count_singleton, if_neg (by simpa using hne), hfirst.2]
  · by_cases hx' : x = k'
    · subst hx'
      have hself : pair k x [x] = [x] := List.filter_cons_of_pos (by simp)
      have hcons : pair k x (x :: r) = x :: pair k x r := List.filter_cons_of_pos (by simp)
      have hfirst : pair k x r = [k] ∧ n = n' + 1 := by
        rcases h with ⟨hpair, -⟩ | ⟨hpair, heq⟩
        · exact absurd (List.cons.inj (hcons.symm.trans hpair)).1 hx
        · exact ⟨(List.cons.inj (hcons.symm.trans hpair)).2, heq⟩
      refine .inl ⟨by rw [hsnoc, hself, hfirst.1]; rfl, ?_⟩
      rw [List.count_singleton_self, List.count_singleton, if_neg (by simpa using hx), hfirst.2]
    · have hcount : ∀ y, x ≠ y → [x].count y = 0 := fun y hy =>
        List.count_eq_zero_of_not_mem fun hmem => hy (List.mem_singleton.mp hmem).symm
      unfold Balanced at h
      rw [pair_cons_of_ne hx hx'] at h
      rw [hcount k hx, hcount k' hx', balanced_snoc hx hx']
      exact h

theorem balanced_step (hne : k ≠ k') (htidy : Tidy s) (hs : Step s b t)
    (hk : b ≠ .finish k) (hk' : b ≠ .finish k')
    (h : Balanced k k' (ring s) ((turns l).count k) ((turns l).count k')) :
    Balanced k k' (ring t) ((turns (l ++ [b])).count k) ((turns (l ++ [b])).count k') := by
  obtain ⟨hmem, hmem'⟩ := h.mem
  -- a task that comes into the line is another one
  have hcome : ∀ x, s.running = none → (∀ y ∈ ring s, x ≠ y) →
      Balanced k k' (s.round ++ (s.next ++ [x]) ++ s.running.toList) ((turns l).count k)
        ((turns l).count k') := fun x hrunning hx => by
    have hring : ring s = line s := by
      unfold ring
      rw [hrunning]
      exact List.append_nil _
    rw [hring] at h
    rw [hrunning, ← List.append_assoc]
    show Balanced k k' (line s ++ [x] ++ []) _ _
    rwa [List.append_nil, balanced_snoc (hx k hmem) (hx k' hmem')]
  rw [turns_snoc, List.count_append, List.count_append]
  cases hs with
  | @submit x hx => exact h
  | @join x hx hclosed haccepting =>
    exact hcome x (htidy.rest hclosed).2 fun y hy heq => hx (heq ▸ htidy.mem_submitted hy)
  | openRound hclosed haccepting hround =>
    unfold ring line at h
    rw [hround] at h
    show Balanced k k' (s.next ++ [] ++ s.running.toList) _ _
    rwa [List.append_nil]
  | @resume x rest hrunning hround =>
    unfold ring line at h
    rw [hround, hrunning] at h
    have hrotate := Balanced.rotate (r := rest ++ s.next) (by simpa using h) hne
    exact hrotate
  | @yield x hrunning =>
    unfold ring line at h
    rw [hrunning] at h
    show Balanced k k' (s.round ++ (s.next ++ [x]) ++ []) _ _
    rwa [List.append_nil, ← List.append_assoc]
  | @finish x hrunning =>
    unfold ring line at h
    rw [hrunning] at h
    have hx : x ≠ k := fun heq => hk (heq ▸ rfl)
    have hx' : x ≠ k' := fun heq => hk' (heq ▸ rfl)
    have hline := (balanced_snoc hx hx').mp h
    show Balanced k k' (s.round ++ s.next ++ []) _ _
    rwa [List.append_nil]
  | closeRound hclosed hrunning hround haccepting => exact h
  | @accept x rest hclosed haccepting =>
    refine hcome x (htidy.rest hclosed).2 fun y hy heq => ?_
    refine htidy.not_mem_ring (.inr ?_) (heq ▸ hy)
    rw [haccepting]
    exact List.mem_cons_self

/-- **Fairness**: of two tasks in line that do not finish, none has two turns more than the other
one. -/
theorem turns_fair (htidy : Tidy s) (h : Path Step s l t) (hmem : k ∈ ring s) (hmem' : k' ∈ ring s)
    (hk : .finish k ∉ l) (hk' : .finish k' ∉ l) :
    (turns l).count k ≤ (turns l).count k' + 1 := by
  rcases eq_or_ne k k' with rfl | hne
  · exact Nat.le_succ _
  have hrun : ∀ {y y' : K}, y ≠ y' → .finish y ∉ l → .finish y' ∉ l → pair y y' (ring s) = [y, y'] →
      Balanced y y' (ring t) ((turns l).count y) ((turns l).count y') :=
    fun {y y'} hyy hy hy' hpair =>
      (Path.induction (P := fun l t => Tidy t ∧ (.finish y ∉ l → .finish y' ∉ l →
          Balanced y y' (ring t) ((turns l).count y) ((turns l).count y')))
        ⟨htidy, fun _ _ => .inl ⟨hpair, rfl⟩⟩
        (fun l u b u' _ ih hb => ⟨tidy_step ih.1 hb, fun hl hl' => by
          simp only [List.mem_append, List.mem_singleton, not_or] at hl hl'
          exact balanced_step hyy ih.1 hb (Ne.symm hl.2) (Ne.symm hl'.2) (ih.2 hl.1 hl'.1)⟩)
        h).2 hy hy'
  have hnodup : (ring s).Nodup := (List.nodup_append.mp htidy.nodup).2.1
  rcases pair_cases hnodup hmem hmem' hne with hpair | hpair
  · rcases hrun hne hk hk' hpair with ⟨-, heq⟩ | ⟨-, heq⟩ <;> omega
  · have hswap : pair k' k (ring s) = [k', k] := by
      rw [← hpair]
      exact List.filter_congr fun x _ => by simp [or_comm]
    rcases hrun hne.symm hk' hk hswap with ⟨-, heq⟩ | ⟨-, heq⟩ <;> omega

/-! ### The first turn -/

/-- Where a task is that has not had a turn, and how many turns `n` the task `x` can have had while
it waited. -/
inductive Behind (k x : K) (s : State K) (n : ℕ) : Prop
  | waiting (hk : k ∈ s.waiting) (hn : n = 0 ∨ n ≤ 1 ∧ s.closed = false ∧ x ∉ s.round)
  | accepting (hk : k ∈ s.accepting ∨ k ∈ s.next) (hclosed : s.closed = true) (hn : n ≤ 1)
  | inRound (hk : k ∈ s.round) (hn : n ≤ 1 ∨ n ≤ 2 ∧ x ∉ s.round)

omit [DecidableEq K] in
theorem Behind.le (h : Behind k x s n) : n ≤ 2 := by
  cases h with
  | waiting hk hn => omega
  | accepting hk hclosed hn => omega
  | inRound hk hn => omega

/-- A task of the round has a turn, and no other one in it. -/
theorem behind_resume (htidy : Tidy s) {y : K} {rest : List K} (hround : s.round = y :: rest)
    (hopen : s.closed = false) (hy : y ≠ k) (h : Behind k x s n) :
    Behind k x { s with round := rest, running := some y } (n + [y].count x) := by
  have hnodup : (y :: rest).Nodup := by
    have hring : (line s).Nodup :=
      (List.nodup_append.mp (List.nodup_append.mp htidy.nodup).2.1).1
    exact hround ▸ (List.nodup_append.mp hring).1
  have hrest : x ∉ s.round → x ∉ rest := fun hx hmem =>
    hx (hround ▸ List.mem_cons_of_mem _ hmem)
  by_cases hyx : y = x
  · subst hyx
    have hx : y ∈ s.round := hround ▸ List.mem_cons_self
    have hgone : y ∉ rest := (List.nodup_cons.mp hnodup).1
    rw [List.count_singleton_self]
    cases h with
    | waiting hk hn =>
      have hn' : n = 0 := hn.elim id fun hn => absurd hx hn.2.2
      exact .waiting hk (.inr ⟨by omega, hopen, hgone⟩)
    | accepting hk hclosed hn =>
      rw [hopen] at hclosed
      cases hclosed
    | inRound hk hn =>
      rw [hround] at hk
      have hn' : n ≤ 1 := hn.elim id fun hn => absurd hx hn.2
      exact .inRound ((List.mem_cons.mp hk).resolve_left hy.symm) (.inr ⟨by omega, hgone⟩)
  · have hcount : [y].count x = 0 :=
      List.count_eq_zero_of_not_mem fun hmem => hyx (List.mem_singleton.mp hmem).symm
    rw [hcount, Nat.add_zero]
    cases h with
    | waiting hk hn => exact .waiting hk (hn.imp_right fun hn => ⟨hn.1, hn.2.1, hrest hn.2.2⟩)
    | accepting hk hclosed hn => exact .accepting hk hclosed hn
    | inRound hk hn =>
      rw [hround] at hk
      exact .inRound ((List.mem_cons.mp hk).resolve_left hy.symm)
        (hn.imp_right fun hn => ⟨hn.1, hrest hn.2⟩)

theorem behind_step (htidy : Tidy s) (hs : Step s b t) (hb : b ≠ .resume k)
    (h : Behind k x s ((turns l).count x)) : Behind k x t ((turns (l ++ [b])).count x) := by
  rw [turns_snoc, List.count_append]
  have hclosed_of : ∀ {y : K}, y ∈ s.round → s.closed = false := fun {y} hy => by
    rw [← Bool.not_eq_true]
    intro hclosed
    rw [(htidy.rest hclosed).1] at hy
    cases hy
  cases hs with
  | @submit y hy =>
    cases h with
    | waiting hk hn => exact .waiting (List.mem_append_left _ hk) hn
    | accepting hk hclosed hn => exact .accepting hk hclosed hn
    | inRound hk hn => exact .inRound hk hn
  | @join y hy hclosed haccepting =>
    cases h with
    | waiting hk hn => exact .waiting hk hn
    | accepting hk hclosed hn =>
      exact .accepting (hk.imp_right fun hk => List.mem_append_left _ hk) hclosed hn
    | inRound hk hn => exact .inRound hk hn
  | openRound hclosed haccepting hround =>
    cases h with
    | waiting hk hn =>
      have hn' : (turns l).count x = 0 := hn.elim id fun hn => by
        rw [hclosed] at hn
        cases hn.2.1
      exact .waiting hk (.inl hn')
    | accepting hk _ hn =>
      rw [haccepting] at hk
      exact .inRound (hk.resolve_left List.not_mem_nil) (.inl hn)
    | inRound hk hn =>
      rw [hround] at hk
      cases hk
  | @resume y rest hrunning hround =>
    refine behind_resume htidy hround (hclosed_of (hround ▸ List.mem_cons_self)) ?_ h
    rintro rfl
    exact hb rfl
  | @yield y hrunning =>
    cases h with
    | waiting hk hn => exact .waiting hk hn
    | accepting hk hclosed hn =>
      rw [(htidy.rest hclosed).2] at hrunning
      cases hrunning
    | inRound hk hn => exact .inRound hk hn
  | @finish y hrunning =>
    cases h with
    | waiting hk hn => exact .waiting hk hn
    | accepting hk hclosed hn => exact .accepting hk hclosed hn
    | inRound hk hn => exact .inRound hk hn
  | closeRound hclosed hrunning hround haccepting =>
    cases h with
    | waiting hk hn => exact .accepting (.inl hk) rfl (by show (turns l).count x + 0 ≤ 1; omega)
    | accepting hk hclosed' hn =>
      rw [hclosed] at hclosed'
      cases hclosed'
    | inRound hk hn =>
      rw [hround] at hk
      cases hk
  | @accept y rest hclosed haccepting =>
    cases h with
    | waiting hk hn => exact .waiting hk hn
    | accepting hk _ hn =>
      refine .accepting ?_ hclosed hn
      show k ∈ rest ∨ k ∈ s.next ++ [y]
      rw [List.mem_append, List.mem_singleton]
      rw [haccepting, List.mem_cons] at hk
      rcases hk with (rfl | hk) | hk
      · exact .inr (.inr rfl)
      · exact .inl hk
      · exact .inr (.inl hk)
    | inRound hk hn => exact .inRound hk hn

/-- **Bounded bypass**: until a task that waits has its first turn, no other one has more than
two. -/
theorem bypassed_le (htidy : Tidy s) (h : Path Step s l t) (hk : k ∈ s.waiting)
    (hno : k ∉ turns l) (x : K) : (turns l).count x ≤ 2 := by
  have hrun : Tidy t ∧ (k ∉ turns l → Behind k x t ((turns l).count x)) := by
    refine Path.induction (P := fun l t => Tidy t ∧ (k ∉ turns l →
      Behind k x t ((turns l).count x))) ⟨htidy, fun _ => .waiting hk (.inl rfl)⟩ ?_ h
    intro l u b u' _ ih hb
    refine ⟨tidy_step ih.1 hb, fun hl => ?_⟩
    rw [turns_snoc, List.mem_append, not_or] at hl
    refine behind_step ih.1 hb ?_ (ih.2 hl.1)
    rintro rfl
    exact hl.2 List.mem_cons_self
  exact (hrun.2 hno).le

end

end ToolsCxx.Lib.RunQueue
