import ToolsCxx.Pollers.Base
import Mathlib.Data.Finset.Basic

/-! # What a poller is for

An `Interest` says which channels are registered, and of every channel the events it asks for: to
ask for events registers a channel, to remove it needs it to be registered. A `poll` reports the
registered channels that are ready, with their bits (`Interest.reported`).

`Holds` relates a poller's base class to an `Interest`, and `activateAll` is what both pollers'
`fill_active_channels` does with the events it is given. -/

namespace ToolsCxx.Pollers.Abstract

open ToolsCxx.Lib.Machine ToolsCxx.Pollers.Base

/-! ### The abstract poller -/

structure Interest (C : Type) where
  events : C → Events
  registered : Finset C

variable {C : Type} [DecidableEq C]

def Interest.initial : Interest C where
  events _ := 0
  registered := ∅

/-- The channel `c` changes its events, and is registered. -/
def Interest.update (i : Interest C) (c : C) (change : Change) : Interest C where
  events := Function.update i.events c (change.apply (i.events c))
  registered := insert c i.registered

/-- It is removed; its events stay. -/
def Interest.remove (i : Interest C) (c : C) : Interest C :=
  { i with registered := i.registered.erase c }

/-- What is done to a poller, if only registered channels are removed. -/
def Interest.exec (i : Interest C) : Op C → Result (Interest C)
  | .update c change => .ok (i.update c change)
  | .remove c => do
    enable (c ∈ i.registered)
    return i.remove c
  | .poll _ _ | .interrupted => .ok i

theorem update_events_self {i : Interest C} {c : C} {change : Change} :
    (i.update c change).events c = change.apply (i.events c) := Function.update_self _ _ _

theorem update_events_of_ne {i : Interest C} {c d : C} {change : Change} (h : d ≠ c) :
    (i.update c change).events d = i.events d := Function.update_of_ne h _ _

variable (fd : C → ℕ)

/-- The bits that are reported of a channel. -/
def Interest.reported (i : Interest C) (ready : ℕ → Events) (c : C) : Events :=
  report (i.events c) (ready (fd c))

/-- Those of the channels `l` that are ready, with their bits. -/
def Interest.active (i : Interest C) (ready : ℕ → Events) (l : List C) : List (C × Events) :=
  (l.filter fun c => i.reported fd ready c ≠ 0).map fun c => (c, i.reported fd ready c)

/-! ### Low bits -/

/-- Only the bits from `POLLIN` to `POLLHUP` are set. -/
def Low (events : Events) : Prop := events.toNat < 2 ^ 5

instance (events : Events) : Decidable (Low events) := inferInstanceAs (Decidable (_ < _))

theorem Low.or {a b : Events} (ha : Low a) (hb : Low b) : Low (a ||| b) := by
  unfold Low
  rw [BitVec.toNat_or]
  exact Nat.or_lt_two_pow ha hb

theorem Low.and_left {a b : Events} (hb : Low b) : Low (a &&& b) := by
  unfold Low
  rw [BitVec.toNat_and]
  exact Nat.and_lt_two_pow _ hb

theorem Low.and_right {a b : Events} (ha : Low a) : Low (a &&& b) := by
  rw [BitVec.and_comm]
  exact ha.and_left

theorem low_apply (change : Change) {events : Events} (h : Low events) :
    Low (change.apply events) := by
  cases change with
  | enableReading => exact h.or (by decide)
  | enableWriting => exact h.or (by decide)
  | disableReading | disableWriting => exact h.and_right

theorem low_report {events ready : Events} (h : Low events) : Low (report events ready) :=
  ((h.or (by decide : Low pollErr)).or (by decide : Low pollHup)).and_left

/-- A `short` holds the low bits. -/
theorem Low.short {events : Events} (h : Low events) :
    (events.truncate 16).signExtend 32 = events ∧
      (0 < (events.truncate 16).toInt ↔ events ≠ 0) ∧ (events.truncate 16 = 0 ↔ events = 0) := by
  have hall : ∀ n : Fin 32, ((BitVec.ofNat 32 n).truncate 16).signExtend 32 = BitVec.ofNat 32 n ∧
      (0 < ((BitVec.ofNat 32 n).truncate 16).toInt ↔ BitVec.ofNat 32 n ≠ 0) ∧
      ((BitVec.ofNat 32 n).truncate 16 = 0 ↔ BitVec.ofNat 32 n = 0) := by decide
  have heq := hall ⟨events.toNat, h⟩
  rw [BitVec.ofNat_toNat, BitVec.setWidth_eq] at heq
  exact heq

/-! ### The base class -/

/-- The base class of a poller has the channels of `i`. -/
structure Holds (i : Interest C) (s : Poller C) : Prop where
  events : ∀ c, (s.channels c).events = i.events c
  low : ∀ c, Low (i.events c)
  store : ∀ f c, s.channelStore.lookup f = some c ↔ c ∈ i.registered ∧ fd c = f

section
variable {C : Type} {fd : C → ℕ} {i : Interest C} {s t : Poller C} {c : C}

theorem holds_initial : Holds fd (Interest.initial : Interest C) Poller.initial where
  events _ := rfl
  low _ := by show Low 0; decide
  store f c := by
    show (∅ : Finmap fun _ : ℕ => C).lookup f = some c ↔ c ∈ (∅ : Finset C) ∧ _
    simp

theorem Holds.lookup (h : Holds fd i s) (hc : c ∈ i.registered) :
    s.channelStore.lookup (fd c) = some c := (h.store (fd c) c).mpr ⟨hc, rfl⟩

theorem Holds.lookup_none (hfd : Function.Injective fd) (h : Holds fd i s)
    (hc : c ∉ i.registered) : s.channelStore.lookup (fd c) = none := by
  rw [Option.eq_none_iff_forall_not_mem]
  intro d hd
  obtain ⟨hreg, heq⟩ := (h.store (fd c) d).mp hd
  exact hc (hfd heq ▸ hreg)

theorem Holds.clear (h : Holds fd i s) : Holds fd i { s with activeChannels := [] } where
  events := h.events
  low := h.low
  store := h.store

/-- There is only one store for it. -/
theorem Holds.store_eq (hs : Holds fd i s) (ht : Holds fd i t) : s.channelStore = t.channelStore :=
  Finmap.ext_lookup fun f => Option.ext fun c => (hs.store f c).trans (ht.store f c).symm

end

section
variable {fd} {i : Interest C} {s : Poller C} {c : C}

/-- The store after `m_channelStore.insert`. -/
theorem Holds.store_insert (hfd : Function.Injective fd) (h : Holds fd i s) (f : ℕ) (d : C) :
    (s.channelStore.insert (fd c) c).lookup f = some d ↔ d ∈ insert c i.registered ∧ fd d = f := by
  by_cases hf : f = fd c
  · subst hf
    rw [Finmap.lookup_insert, Option.some.injEq]
    constructor
    · rintro rfl
      exact ⟨Finset.mem_insert_self _ _, rfl⟩
    · rintro ⟨-, heq⟩
      exact (hfd heq).symm
  · rw [Finmap.lookup_insert_of_ne _ hf, h.store, Finset.mem_insert]
    refine and_congr_left fun heq => ?_
    have hdc : d ≠ c := by
      rintro rfl
      exact hf heq.symm
    simp [hdc]

/-- The store after `m_channelStore.erase`. -/
theorem Holds.store_erase (hfd : Function.Injective fd) (h : Holds fd i s) (f : ℕ) (d : C) :
    (s.channelStore.erase (fd c)).lookup f = some d ↔ d ∈ i.registered.erase c ∧ fd d = f := by
  by_cases hf : f = fd c
  · subst hf
    rw [Finmap.lookup_erase]
    constructor
    · exact nofun
    · rintro ⟨hd, heq⟩
      exact absurd (hfd heq) (Finset.ne_of_mem_erase hd)
  · rw [Finmap.lookup_erase_ne hf, h.store, Finset.mem_erase]
    refine and_congr_left fun heq => ?_
    have hdc : d ≠ c := by
      rintro rfl
      exact hf heq.symm
    simp [hdc]

/-- The channel `c` changes its events, and the store becomes `store`. -/
theorem Holds.update (h : Holds fd i s) (change : Change) (store : Finmap fun _ : ℕ => C)
    (hstore : ∀ f d, store.lookup f = some d ↔ d ∈ insert c i.registered ∧ fd d = f) :
    Holds fd (i.update c change) { s.setEvents c (change.apply (s.channels c).events) with
      channelStore := store } where
  events d := by
    show (Function.update s.channels c _ d).events = _
    by_cases hd : d = c
    · rw [hd, Function.update_self, update_events_self, h.events c]
    · rw [Function.update_of_ne hd, update_events_of_ne hd, h.events d]
  low d := by
    by_cases hd : d = c
    · rw [hd, update_events_self]; exact low_apply change (h.low c)
    · rw [update_events_of_ne hd]; exact h.low d
  store := hstore

theorem Holds.remove (hfd : Function.Injective fd) (h : Holds fd i s) :
    Holds fd (i.remove c) { s with channelStore := s.channelStore.erase (fd c) } where
  events := h.events
  low := h.low
  store := h.store_erase hfd

theorem setIndex_index {k : ℤ} : (fun d => ((s.setIndex c k).channels d).index) =
    Function.update (fun d => (s.channels d).index) c k := by
  funext d
  show (Function.update s.channels c _ d).index = _
  rw [Function.update_apply, Function.update_apply]
  split_ifs <;> rfl

theorem setEvents_index {events : Events} :
    (fun d => ((s.setEvents c events).channels d).index) = fun d => (s.channels d).index := by
  funext d
  show (Function.update s.channels c _ d).index = _
  rw [Function.update_apply]
  split_ifs with hd
  · rw [hd]
  · rfl

theorem Holds.setIndex (h : Holds fd i s) (k : ℤ) : Holds fd i (s.setIndex c k) where
  events d := by
    show (Function.update s.channels c _ d).events = _
    rw [Function.update_apply]
    split_ifs with hd
    · rw [hd]; exact h.events c
    · exact h.events d
  low := h.low
  store := h.store

/-! ### The active channels -/

/-- The channels `l` become active, each with its bits. -/
def activateAll (l : List (C × Events)) (s : Poller C) : Poller C :=
  l.foldl (fun s x => s.activate x.1 x.2) s

theorem activateAll_activeChannels : ∀ (l : List (C × Events)) (s : Poller C),
    (activateAll l s).activeChannels = s.activeChannels ++ l.map Prod.fst
  | [], s => (List.append_nil _).symm
  | x :: l, s => by
    refine (activateAll_activeChannels l (s.activate x.1 x.2)).trans ?_
    show (s.activeChannels ++ [x.1]) ++ l.map Prod.fst = _
    rw [List.append_assoc]
    rfl

theorem activateAll_channelStore : ∀ (l : List (C × Events)) (s : Poller C),
    (activateAll l s).channelStore = s.channelStore
  | [], _ => rfl
  | x :: l, s => activateAll_channelStore l (s.activate x.1 x.2)

/-- Only `m_revents` changes. -/
theorem activateAll_channels : ∀ (l : List (C × Events)) (s : Poller C) (c : C),
    ((activateAll l s).channels c).events = (s.channels c).events ∧
      ((activateAll l s).channels c).index = (s.channels c).index
  | [], _, _ => ⟨rfl, rfl⟩
  | x :: l, s, c => by
    obtain ⟨h1, h2⟩ := activateAll_channels l (s.activate x.1 x.2) c
    have hstep : ((s.activate x.1 x.2).channels c).events = (s.channels c).events ∧
        ((s.activate x.1 x.2).channels c).index = (s.channels c).index := by
      show (Function.update s.channels x.1 _ c).events = _ ∧
        (Function.update s.channels x.1 _ c).index = _
      rw [Function.update_apply]
      split_ifs with hc
      · rw [hc]; exact ⟨rfl, rfl⟩
      · exact ⟨rfl, rfl⟩
    exact ⟨h1.trans hstep.1, h2.trans hstep.2⟩

theorem activateAll_revents_of_not_mem : ∀ (l : List (C × Events)) (s : Poller C) {c : C},
    c ∉ l.map Prod.fst → ((activateAll l s).channels c).revents = (s.channels c).revents
  | [], _, _, _ => rfl
  | x :: l, s, c, hc => by
    rw [List.map_cons, List.mem_cons, not_or] at hc
    refine (activateAll_revents_of_not_mem l (s.activate x.1 x.2) hc.2).trans ?_
    show (Function.update s.channels x.1 _ c).revents = _
    rw [Function.update_of_ne hc.1]

/-- A channel that is activated once gets its bits. -/
theorem activateAll_revents : ∀ (l : List (C × Events)) (s : Poller C) {c : C} {revents : Events},
    (l.map Prod.fst).Nodup → (c, revents) ∈ l →
    ((activateAll l s).channels c).revents = revents
  | x :: l, s, c, revents, hl, hmem => by
    rw [List.map_cons, List.nodup_cons] at hl
    rcases List.mem_cons.mp hmem with rfl | hmem
    · refine (activateAll_revents_of_not_mem l _ hl.1).trans ?_
      show (Function.update s.channels c _ c).revents = _
      rw [Function.update_self]
    · exact activateAll_revents l _ hl.2 hmem

theorem Holds.activateAll (h : Holds fd i s) (l : List (C × Events)) :
    Holds fd i (activateAll l s) where
  events c := (activateAll_channels l s c).1.trans (h.events c)
  low := h.low
  store f c := by rw [activateAll_channelStore]; exact h.store f c

end

end ToolsCxx.Pollers.Abstract
