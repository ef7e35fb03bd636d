import ToolsCxx.Lib.Transitions
import Mathlib.Order.Lattice
import Mathlib.Logic.Function.Basic
import Mathlib.Data.List.Basic

/-! # Alarms

What a timer service is for, without its data structures: a key `k` is made for an alarm with a
first deadline `d` and a kind `i`; the alarm is armed, goes off in a round at a time `now` that is
not before its deadline, and after the round is armed again for `next i now`, if there is such a
time. A cancelled alarm is not armed again.

In a round everything that is due is fired, the earliest deadline first; a call that is made during
the round may cancel what is due, which is then fired all the same, and is over after the round.

* `Step`: what each label does to the `Place` of every alarm.
* `paced_of_path`: along every path from the start, an alarm is fired at times which keep `Paced`:
  the first not before its first deadline, and each other one not before the deadline that follows
  from the one before.
* `fired_in_order`: of two alarms that are armed the one with the earlier deadline is fired first,
  if it is not cancelled. -/

namespace ToolsCxx.Lib.Alarms

open ToolsCxx.Lib.Machine

/-- Where an alarm is. What is due or fired may have been cancelled. -/
inductive Place (T : Type) where
  /-- not made, or over -/
  | out
  | waiting
  | armed (deadline : T)
  | due (deadline : T) (cancelled : Bool)
  | fired (cancelled : Bool)

/-- A round: its calls, and the time after them. -/
inductive Round (T : Type) where
  | rest
  | calling (now : T)
  | settling (now : T)

structure State (K T I : Type) where
  made : K → Option (T × I)
  place : K → Place T
  round : Round T

inductive Label (K T I : Type) where
  | make (k : K) (deadline : T) (kind : I)
  | arm (k : K)
  | cancel (k : K)
  | dispatch (now : T)
  | fire (k : K) (now : T)
  | finish
  | settle (k : K)
  | done
  deriving DecidableEq

variable {K T I : Type}

/-- No alarm has been made. -/
def initial : State K T I where
  made _ := none
  place _ := .out
  round := .rest

namespace Place

/-- What a cancellation does. -/
def cancel (round : Round T) : Place T → Place T
  | .armed _ => .out
  | .due deadline cancelled =>
    match round with
    | .calling _ => .due deadline true
    | _ => .due deadline cancelled
  | .fired cancelled =>
    match round with
    | .calling _ => .fired true
    | _ => .fired cancelled
  | p => p

variable [LinearOrder T]

/-- What the beginning of a round does. -/
def dispatch (now : T) : Place T → Place T
  | .armed deadline => if deadline ≤ now then .due deadline false else .armed deadline
  | p => p

/-- What the end of a round does. -/
def settle (again : Option T) : Place T → Place T
  | .fired false => again.elim .out .armed
  | _ => .out

end Place

section
variable [DecidableEq K] [LinearOrder T] (next : I → T → Option T)

/-- The alarm `k` is in another place. -/
def State.move (s : State K T I) (k : K) (p : Place T) : State K T I :=
  { s with place := Function.update s.place k p }

/-- The alarm `k` is made. -/
def State.make (s : State K T I) (k : K) (deadline : T) (kind : I) : State K T I :=
  { s.move k .waiting with made := Function.update s.made k (some (deadline, kind)) }

inductive Step : State K T I → Label K T I → State K T I → Prop
  | make {s : State K T I} {k : K} {deadline : T} {kind : I} (hk : s.made k = none) :
    Step s (.make k deadline kind) (s.make k deadline kind)
  | arm {s : State K T I} {k : K} {deadline : T} {kind : I} (hk : s.place k = .waiting)
    (hmade : s.made k = some (deadline, kind)) : Step s (.arm k) (s.move k (.armed deadline))
  | cancel {s : State K T I} {k : K} :
    Step s (.cancel k) (s.move k ((s.place k).cancel s.round))
  | dispatch {s : State K T I} {now : T} (hround : s.round = .rest) :
    Step s (.dispatch now)
      { s with place := fun k => (s.place k).dispatch now, round := .calling now }
  | fire {s : State K T I} {k : K} {now deadline : T} {cancelled : Bool}
    (hround : s.round = .calling now) (hk : s.place k = .due deadline cancelled)
    (hfirst : ∀ k' deadline' cancelled', s.place k' = .due deadline' cancelled' →
      deadline ≤ deadline') : Step s (.fire k now) (s.move k (.fired cancelled))
  | finish {s : State K T I} {now : T} (hround : s.round = .calling now)
    (hdue : ∀ k deadline cancelled, s.place k ≠ .due deadline cancelled) :
    Step s .finish { s with round := .settling now }
  | settle {s : State K T I} {k : K} {now deadline : T} {kind : I} {cancelled : Bool}
    (hround : s.round = .settling now) (hk : s.place k = .fired cancelled)
    (hmade : s.made k = some (deadline, kind)) :
    Step s (.settle k) (s.move k ((Place.fired cancelled).settle (next kind now)))
  | done {s : State K T I} {now : T} (hround : s.round = .settling now)
    (hfired : ∀ k cancelled, s.place k ≠ .fired cancelled) :
    Step s .done { s with round := .rest }

end

/-! ### Pace -/

/-- Times at which an alarm may be fired whose deadline is `d`, if any, and after it has been fired
at `now` is `f now`. -/
def Paced [LE T] (f : T → Option T) : Option T → List T → Prop
  | _, [] => True
  | none, _ :: _ => False
  | some d, now :: times => d ≤ now ∧ Paced f (f now) times

/-- The deadline after these times. -/
def deadlineAfter (f : T → Option T) (d : Option T) (times : List T) : Option T :=
  times.getLast?.elim d f

theorem paced_snoc [LE T] {f : T → Option T} {d : Option T} {times : List T} {now : T} :
    Paced f d (times ++ [now]) ↔
      Paced f d times ∧ ∃ d', deadlineAfter f d times = some d' ∧ d' ≤ now := by
  induction times generalizing d with
  | nil =>
    cases d with
    | none => exact iff_of_false id fun h => by obtain ⟨-, d', hd', -⟩ := h; cases hd'
    | some d =>
      constructor
      · rintro ⟨hle, -⟩
        exact ⟨trivial, d, rfl, hle⟩
      · rintro ⟨-, d', hd', hle⟩
        cases hd'
        exact ⟨hle, trivial⟩
  | cons t times ih =>
    cases d with
    | none => exact iff_of_false id fun h => h.1
    | some d =>
      have hlast : deadlineAfter f (some d) (t :: times) = deadlineAfter f (f t) times := by
        unfold deadlineAfter
        cases times with
        | nil => rfl
        | cons u times => rfl
      rw [hlast]
      exact (and_congr_right fun _ => ih).trans and_assoc.symm

/-- The times at which `k` is fired. -/
def firings [DecidableEq K] (k : K) (l : List (Label K T I)) : List T :=
  l.filterMap fun
    | .fire k' now => if k' = k then some now else none
    | _ => none

/-! ### The invariant -/

section
variable [DecidableEq K] [LinearOrder T] {next : I → T → Option T}

/-- What is known of an alarm in its place, with its deadline after it has been fired at `times`. -/
def Timely (round : Round T) (d : Option T) (f : T → Option T) (times : List T) : Place T → Prop
  | .out => True
  | .waiting => times = []
  | .armed deadline => deadlineAfter f d times = some deadline
  | .due deadline _ =>
    deadlineAfter f d times = some deadline ∧ ∃ now, round = .calling now ∧ deadline ≤ now
  | .fired _ => ∃ now, (round = .calling now ∨ round = .settling now) ∧ times.getLast? = some now

/-- **The invariant** of the alarms along a path. -/
structure Kept (next : I → T → Option T) (l : List (Label K T I)) (s : State K T I) : Prop where
  unmade : ∀ k, s.made k = none → s.place k = .out ∧ firings k l = []
  paced : ∀ k d i, s.made k = some (d, i) →
    Paced (next i) (some d) (firings k l) ∧
      Timely s.round (some d) (next i) (firings k l) (s.place k)
  made : ∀ k d i, .make k d i ∈ l → s.made k = some (d, i)

theorem kept_initial : Kept next ([] : List (Label K T I)) initial where
  unmade _ _ := ⟨rfl, rfl⟩
  paced _ _ _ h := by cases h
  made _ _ _ h := absurd h List.not_mem_nil

omit [LinearOrder T] in
theorem firings_of_not_fire {k : K} {l : List (Label K T I)} {b : Label K T I}
    (hb : ∀ now, b ≠ .fire k now) : firings k (l ++ [b]) = firings k l := by
  unfold firings
  rw [List.filterMap_append]
  refine (congrArg _ ?_).trans (List.append_nil _)
  cases b with
  | fire k' now =>
    have hne : k' ≠ k := fun heq => hb now (heq ▸ rfl)
    exact List.filterMap_cons_none (if_neg hne)
  | _ => rfl

omit [LinearOrder T] in
theorem firings_fire {k : K} {l : List (Label K T I)} {now : T} :
    firings k (l ++ [.fire k now]) = firings k l ++ [now] := by
  unfold firings
  rw [List.filterMap_append]
  exact congrArg _ (List.filterMap_cons_some (if_pos rfl))

variable {s s' : State K T I} {l : List (Label K T I)} {b : Label K T I}

/-- An alarm goes to another place, and is not fired. -/
theorem Kept.move (h : Kept next l s) {k : K} {p : Place T}
    (hfire : ∀ k now, b ≠ .fire k now) (hmake : ∀ k d i, b ≠ .make k d i)
    (hout : s.made k = none → p = .out)
    (hp : ∀ d i, s.made k = some (d, i) →
      Timely s.round (some d) (next i) (firings k l) p) : Kept next (l ++ [b]) (s.move k p) where
  unmade k' hk' := by
    rw [firings_of_not_fire (hfire k')]
    refine ⟨?_, (h.unmade k' hk').2⟩
    show Function.update s.place k p k' = .out
    rw [Function.update_apply]
    split_ifs with heq
    · exact hout (heq ▸ hk')
    · exact (h.unmade k' hk').1
  paced k' d i hk' := by
    rw [firings_of_not_fire (hfire k')]
    refine ⟨(h.paced k' d i hk').1, ?_⟩
    show Timely s.round _ _ _ (Function.update s.place k p k')
    rw [Function.update_apply]
    split_ifs with heq
    · subst heq
      exact hp d i hk'
    · exact (h.paced k' d i hk').2
  made k' d i hm := by
    rcases List.mem_append.mp hm with hm | hm
    · exact h.made k' d i hm
    · exact absurd (List.mem_singleton.mp hm).symm (hmake k' d i)

/-- The round goes on, with no alarm fired. -/
theorem Kept.turn (h : Kept next l s) (hfire : ∀ k now, b ≠ .fire k now)
    (hmake : ∀ k d i, b ≠ .make k d i) (hmade : s'.made = s.made)
    (hout : ∀ k, s.place k = .out → s'.place k = .out)
    (hp : ∀ k d f, Timely s.round d f (firings k l) (s.place k) →
      Timely s'.round d f (firings k l) (s'.place k)) : Kept next (l ++ [b]) s' where
  unmade k hk := by
    rw [firings_of_not_fire (hfire k)]
    rw [hmade] at hk
    exact ⟨hout k (h.unmade k hk).1, (h.unmade k hk).2⟩
  paced k d i hk := by
    rw [firings_of_not_fire (hfire k)]
    rw [hmade] at hk
    exact ⟨(h.paced k d i hk).1, hp k _ _ (h.paced k d i hk).2⟩
  made k d i hm := by
    rw [hmade]
    rcases List.mem_append.mp hm with hm | hm
    · exact h.made k d i hm
    · exact absurd (List.mem_singleton.mp hm).symm (hmake k d i)

/-- A cancellation makes no place wrong. -/
theorem timely_cancel {round : Round T} {d : Option T} {f : T → Option T} {times : List T}
    {p : Place T} (h : Timely round d f times p) : Timely round d f times (p.cancel round) := by
  cases p with
  | out | waiting => exact h
  | armed deadline => trivial
  | due deadline cancelled => cases round <;> exact h
  | fired cancelled => cases round <;> exact h

theorem Kept.make (h : Kept next l s) {k : K} {d : T} {i : I} (hk : s.made k = none) :
    Kept next (l ++ [.make k d i]) (s.make k d i) := by
  have hfirings : ∀ k', firings k' (l ++ [.make k d i]) = firings k' l := fun k' =>
    firings_of_not_fire fun now => nofun
  refine ⟨fun k' hk' => ?_, fun k' d' i' hk' => ?_, fun k' d' i' hm => ?_⟩
  · change Function.update s.made k (some (d, i)) k' = none at hk'
    rw [hfirings]
    have hne : k' ≠ k := by
      rintro rfl
      rw [Function.update_self] at hk'
      cases hk'
    rw [Function.update_of_ne hne] at hk'
    exact ⟨(Function.update_of_ne hne _ _).trans (h.unmade k' hk').1, (h.unmade k' hk').2⟩
  · change Function.update s.made k (some (d, i)) k' = some (d', i') at hk'
    rw [hfirings]
    show _ ∧ Timely s.round _ _ _ (Function.update s.place k .waiting k')
    rcases eq_or_ne k' k with rfl | hne
    · rw [(h.unmade k' hk).2, Function.update_self]
      exact ⟨trivial, rfl⟩
    · rw [Function.update_of_ne hne] at hk' ⊢
      exact h.paced k' d' i' hk'
  · rcases List.mem_append.mp hm with hm | hm
    · have hmade := h.made k' d' i' hm
      have hne : k' ≠ k := by
        rintro rfl
        rw [hk] at hmade
        cases hmade
      exact (Function.update_of_ne hne _ _).trans hmade
    · cases List.mem_singleton.mp hm
      exact Function.update_self _ _ _

theorem Kept.fire (h : Kept next l s) {k : K} {now d : T} {cancelled : Bool}
    (hround : s.round = .calling now) (hk : s.place k = .due d cancelled) :
    Kept next (l ++ [.fire k now]) (s.move k (.fired cancelled)) := by
  have hother : ∀ k', k' ≠ k → firings k' (l ++ [.fire k now]) = firings k' l := fun k' hne =>
    firings_of_not_fire fun now' heq => hne (Label.fire.inj heq).1.symm
  refine ⟨fun k' hk' => ?_, fun k' d' i hk' => ?_, fun k' d' i hm => ?_⟩
  · have hne : k' ≠ k := by
      rintro rfl
      have hout := (h.unmade k' hk').1
      rw [hk] at hout
      cases hout
    rw [hother k' hne]
    exact ⟨(Function.update_of_ne hne _ _).trans (h.unmade k' hk').1, (h.unmade k' hk').2⟩
  · obtain ⟨hpaced, htimely⟩ := h.paced k' d' i hk'
    show _ ∧ Timely s.round _ _ _ (Function.update s.place k (.fired cancelled) k')
    rcases eq_or_ne k' k with rfl | hne
    · rw [hk] at htimely
      obtain ⟨hdeadline, now', hnow, hle⟩ := htimely
      cases hround.symm.trans hnow
      rw [firings_fire, Function.update_self]
      exact ⟨paced_snoc.mpr ⟨hpaced, d, hdeadline, hle⟩, now, .inl hround, List.getLast?_concat ..⟩
    · rw [hother k' hne, Function.update_of_ne hne]
      exact ⟨hpaced, htimely⟩
  · rcases List.mem_append.mp hm with hm | hm
    · exact h.made k' d' i hm
    · cases List.mem_singleton.mp hm

/-- After the round an alarm has the deadline that follows from the time it was fired at. -/
theorem timely_settle {d : T} {f : T → Option T} {times : List T} {now : T} {cancelled : Bool}
    {round : Round T} (hround : round = .settling now)
    (h : Timely round (some d) f times (.fired cancelled)) :
    Timely round (some d) f times ((Place.fired cancelled).settle (f now)) := by
  obtain ⟨now', hnow, hlast⟩ := h
  have heq : now' = now := by
    rcases hnow with hnow | hnow <;> cases hround.symm.trans hnow
    rfl
  subst heq
  cases cancelled with
  | true => trivial
  | false =>
    cases hf : f now' with
    | none => exact trivial
    | some d' =>
      show times.getLast?.elim (some d) f = some d'
      rw [hlast]
      exact hf

theorem kept_step (h : Kept next l s) (hs : Step next s b s') : Kept next (l ++ [b]) s' := by
  cases hs with
  | make hk => exact h.make hk
  | @arm k d i hk hmade =>
    refine h.move nofun nofun (fun hnone => ?_) fun d' i' hk' => ?_
    · rw [hmade] at hnone
      cases hnone
    · have htimely := (h.paced k d' i' hk').2
      rw [hk] at htimely
      cases hmade.symm.trans hk'
      have htimes : firings k l = [] := htimely
      rw [htimes]
      rfl
  | @cancel k =>
    refine h.move nofun nofun (fun hnone => ?_) fun d i hk => timely_cancel (h.paced k d i hk).2
    rw [(h.unmade k hnone).1]
    rfl
  | @dispatch now hround =>
    refine h.turn nofun nofun rfl (fun k hk => ?_) fun k d f htimely => ?_
    · show (s.place k).dispatch now = .out
      rw [hk]
      rfl
    · show Timely (.calling now) d f _ ((s.place k).dispatch now)
      cases hp : s.place k with
      | out => trivial
      | waiting => rwa [hp] at htimely
      | armed deadline =>
        rw [hp] at htimely
        show Timely _ _ _ _ (if deadline ≤ now then .due deadline false else .armed deadline)
        split_ifs with hle
        · exact ⟨htimely, now, rfl, hle⟩
        · exact htimely
      | due deadline cancelled =>
        rw [hp] at htimely
        obtain ⟨-, now', hnow, -⟩ := htimely
        cases hround.symm.trans hnow
      | fired cancelled =>
        rw [hp] at htimely
        obtain ⟨now', hnow, -⟩ := htimely
        rcases hnow with hnow | hnow <;> cases hround.symm.trans hnow
  | fire hround hk => exact h.fire hround hk
  | @finish now hround hdue =>
    refine h.turn nofun nofun rfl (fun k hk => hk) fun k d f htimely => ?_
    show Timely (.settling now) d f _ (s.place k)
    cases hp : s.place k with
    | out | waiting | armed deadline => rwa [hp] at htimely
    | due deadline cancelled => exact absurd hp (hdue k deadline cancelled)
    | fired cancelled =>
      rw [hp] at htimely
      obtain ⟨now', hnow, hlast⟩ := htimely
      rcases hnow with hnow | hnow <;> cases hround.symm.trans hnow
      exact ⟨now, .inr rfl, hlast⟩
  | @settle k now d i cancelled hround hk hmade =>
    refine h.move nofun nofun (fun hnone => ?_) fun d' i' hk' => ?_
    · rw [hmade] at hnone
      cases hnone
    · cases hmade.symm.trans hk'
      have htimely := (h.paced k d i hk').2
      rw [hk] at htimely
      exact timely_settle hround htimely
  | @done now hround hfired =>
    refine h.turn nofun nofun rfl (fun k hk => hk) fun k d f htimely => ?_
    show Timely .rest d f _ (s.place k)
    cases hp : s.place k with
    | out | waiting | armed deadline => rwa [hp] at htimely
    | due deadline cancelled =>
      rw [hp] at htimely
      obtain ⟨-, now', hnow, -⟩ := htimely
      cases hround.symm.trans hnow
    | fired cancelled => exact absurd hp (hfired k cancelled)

theorem kept_of_path (h : Path (Step next) initial l s) : Kept next l s :=
  Path.induction (P := Kept next) kept_initial (fun _ _ _ _ _ hkept hs => kept_step hkept hs) h

/-- **An alarm keeps its pace** along every path. -/
theorem paced_of_path (h : Path (Step next) initial l s) {k : K} {d : T} {i : I}
    (hk : .make k d i ∈ l) : Paced (next i) (some d) (firings k l) :=
  ((kept_of_path h).paced k d i ((kept_of_path h).made k d i hk)).1

/-! ### Order -/

/-- The alarm `k` is to be fired before `k'`, or `k'` not any more. -/
structure Ahead (k k' : K) (d d' : T) (s : State K T I) : Prop where
  made : s.made k ≠ none
  made' : s.made k' ≠ none
  first : s.place k = .armed d ∨ ∃ c, s.place k = .due d c
  second : s.place k' = .out ∨ s.place k' = .armed d' ∨
    (∃ c, s.place k' = .due d' c) ∧ ∃ c, s.place k = .due d c

section
variable {k k' j : K} {d d' : T}

omit [DecidableEq K] [LinearOrder T] in
theorem Ahead.congr (h : Ahead k k' d d' s) (hk : s'.place k = s.place k)
    (hk' : s'.place k' = s.place k') (hmade : s'.made k = s.made k)
    (hmade' : s'.made k' = s.made k') : Ahead k k' d d' s' where
  made := by rw [hmade]; exact h.made
  made' := by rw [hmade']; exact h.made'
  first := by rw [hk]; exact h.first
  second := by rw [hk, hk']; exact h.second

omit [LinearOrder T] in
/-- Another alarm is moved. -/
theorem Ahead.move (h : Ahead k k' d d' s) (p : Place T) (hk : k ≠ j) (hk' : k' ≠ j) :
    Ahead k k' d d' (s.move j p) :=
  h.congr (Function.update_of_ne hk _ _) (Function.update_of_ne hk' _ _) rfl rfl

omit [DecidableEq K] [LinearOrder T] in
/-- An alarm that waits, or has been fired, is another one. -/
theorem Ahead.ne (h : Ahead k k' d d' s) (hj : s.place j = .waiting ∨ ∃ c, s.place j = .fired c) :
    k ≠ j ∧ k' ≠ j := by
  refine ⟨?_, ?_⟩ <;> rintro rfl
  · rcases h.first with hk | ⟨_, hk⟩ <;> rw [hk] at hj <;> exact hj.elim nofun nofun
  · rcases h.second with hk | hk | ⟨⟨_, hk⟩, -⟩ <;> rw [hk] at hj <;> exact hj.elim nofun nofun

omit [DecidableEq K] in
theorem Ahead.keys_ne (h : Ahead k k' d d' s) (hlt : d < d') : k ≠ k' := by
  rintro rfl
  rcases h.first with hk | ⟨c, hk⟩ <;> rcases h.second with hk' | hk' | ⟨⟨c', hk'⟩, -⟩ <;>
    cases hk.symm.trans hk' <;> exact lt_irrefl _ hlt

omit [LinearOrder T] in
/-- The later one is cancelled. -/
theorem Ahead.cancel (h : Ahead k k' d d' s) (hne : k ≠ k') :
    Ahead k k' d d' (s.move k' ((s.place k').cancel s.round)) where
  made := h.made
  made' := h.made'
  first := by
    rw [show (s.move k' _).place k = s.place k from Function.update_of_ne hne _ _]
    exact h.first
  second := by
    rw [show (s.move k' _).place k = s.place k from Function.update_of_ne hne _ _,
      show (s.move k' _).place k' = _ from Function.update_self _ _ _]
    rcases h.second with hk | hk | ⟨⟨c, hk⟩, hdue⟩
    · exact .inl (by rw [hk]; rfl)
    · exact .inl (by rw [hk]; rfl)
    · refine .inr (.inr ⟨?_, hdue⟩)
      rw [hk]
      cases s.round with
      | calling now => exact ⟨true, rfl⟩
      | rest | settling now => exact ⟨c, rfl⟩

omit [DecidableEq K] in
/-- A round begins: if the later one is due, so is the earlier one. -/
theorem Ahead.dispatch (h : Ahead k k' d d' s) (hlt : d < d') (now : T) :
    Ahead k k' d d'
      { s with place := fun i => (s.place i).dispatch now, round := .calling now } where
  made := h.made
  made' := h.made'
  first := by
    show (s.place k).dispatch now = _ ∨ ∃ c, (s.place k).dispatch now = _
    rcases h.first with hk | ⟨c, hk⟩ <;> rw [hk]
    · by_cases hle : d ≤ now
      · exact .inr ⟨false, if_pos hle⟩
      · exact .inl (if_neg hle)
    · exact .inr ⟨c, rfl⟩
  second := by
    show (s.place k').dispatch now = _ ∨ (s.place k').dispatch now = _ ∨
      (∃ c, (s.place k').dispatch now = _) ∧ ∃ c, (s.place k).dispatch now = _
    rcases h.second with hk | hk | ⟨⟨c, hk⟩, c', hdue⟩
    · exact .inl (by rw [hk]; rfl)
    · rw [hk]
      by_cases hle : d' ≤ now
      · refine .inr (.inr ⟨⟨false, if_pos hle⟩, ?_⟩)
        rcases h.first with hk | ⟨c, hk⟩ <;> rw [hk]
        · exact ⟨false, if_pos (hlt.le.trans hle)⟩
        · exact ⟨c, rfl⟩
      · exact .inr (.inl (if_neg hle))
    · rw [hk, hdue]
      exact .inr (.inr ⟨⟨c, rfl⟩, c', rfl⟩)

/-- **A step** fires or cancels the earlier alarm, or does not fire the later one. -/
theorem ahead_step (hlt : d < d') (h : Ahead k k' d d' s) (hs : Step next s b s') :
    (∃ now, b = .fire k now) ∨ b = .cancel k ∨ Ahead k k' d d' s' ∧ ∀ now, b ≠ .fire k' now := by
  cases hs with
  | @make j _ _ hj =>
    have hk : k ≠ j := by rintro rfl; exact h.made hj
    have hk' : k' ≠ j := by rintro rfl; exact h.made' hj
    exact .inr (.inr ⟨(h.move _ hk hk').congr rfl rfl (Function.update_of_ne hk _ _)
      (Function.update_of_ne hk' _ _), nofun⟩)
  | arm hj =>
    obtain ⟨hk, hk'⟩ := h.ne (.inl hj)
    exact .inr (.inr ⟨h.move _ hk hk', nofun⟩)
  | @cancel j =>
    rcases eq_or_ne k j with rfl | hk
    · exact .inr (.inl rfl)
    · refine .inr (.inr ⟨?_, nofun⟩)
      rcases eq_or_ne k' j with rfl | hk'
      · exact h.cancel (h.keys_ne hlt)
      · exact h.move _ hk hk'
  | @dispatch now => exact .inr (.inr ⟨h.dispatch hlt now, nofun⟩)
  | @fire j now deadline c hround hj hfirst =>
    rcases eq_or_ne k j with rfl | hk
    · exact .inl ⟨now, rfl⟩
    · rcases eq_or_ne k' j with rfl | hk'
      · -- the earlier one would be due too
        rcases h.second with hk' | hk' | ⟨⟨_, hk'⟩, _, hdue⟩ <;> cases hk'.symm.trans hj
        exact absurd (hfirst k d _ hdue) (not_le.mpr hlt)
      · refine .inr (.inr ⟨h.move _ hk hk', fun now' heq => hk' ?_⟩)
        cases heq
        rfl
  | finish => exact .inr (.inr ⟨h.congr rfl rfl rfl rfl, nofun⟩)
  | settle _ hj =>
    obtain ⟨hk, hk'⟩ := h.ne (.inr ⟨_, hj⟩)
    exact .inr (.inr ⟨h.move _ hk hk', nofun⟩)
  | done => exact .inr (.inr ⟨h.congr rfl rfl rfl rfl, nofun⟩)

/-- **Alarms are fired in the order of their deadlines**: when the later one is fired the earlier
one has been fired or cancelled. -/
theorem fired_in_order (hlt : d < d') (h : Ahead k k' d d' s) {l : List (Label K T I)}
    {t : State K T I} (hpath : Path (Step next) s l t) {now : T}
    (hs : Step next t (.fire k' now) s') : (∃ now', .fire k now' ∈ l) ∨ .cancel k ∈ l := by
  have hkept : (∃ now', .fire k now' ∈ l) ∨ .cancel k ∈ l ∨ Ahead k k' d d' t := by
    refine Path.induction (P := fun l t => (∃ now', .fire k now' ∈ l) ∨ .cancel k ∈ l ∨
      Ahead k k' d d' t) (.inr (.inr h)) ?_ hpath
    rintro l t b t' - (⟨now', hl⟩ | hl | hahead) hb
    · exact .inl ⟨now', List.mem_append_left _ hl⟩
    · exact .inr (.inl (List.mem_append_left _ hl))
    · have hlast : ∀ {b' : Label K T I}, b = b' → b' ∈ l ++ [b] := fun heq =>
        List.mem_append_right _ (List.mem_singleton.mpr heq.symm)
      rcases ahead_step hlt hahead hb with ⟨now', heq⟩ | heq | ⟨hahead', -⟩
      · exact .inl ⟨now', hlast heq⟩
      · exact .inr (.inl (hlast heq))
      · exact .inr (.inr hahead')
  rcases hkept with hfired | hcancelled | hahead
  · exact .inl hfired
  · exact .inr hcancelled
  · rcases ahead_step hlt hahead hs with ⟨now', heq⟩ | heq | ⟨-, hno⟩
    · cases heq
      exact absurd rfl (hahead.keys_ne hlt)
    · cases heq
    · exact absurd rfl (hno now)

end

end

end ToolsCxx.Lib.Alarms
