import ToolsCxx.Lib.Machine
import Mathlib.Logic.Function.Basic

/-! # `Singleton`

Any number of threads call `instance`. `pthread_once` lets the first of them execute `init` and
blocks the others until it has returned. A call of `instance` in the constructor of `T` blocks for
ever, since its own thread executes `init`. When a thread calls `exit`, the handlers that `atexit`
has registered are executed, while the other threads go on until the process ends.

* `Stage`: what can have become of the object; `Inv` says in which stage which thread is where.
* `singleton_ok`: there is one object, every call returns it, and what the end of the process does
  to that. -/

namespace ToolsCxx.Base.Singleton

open ToolsCxx.Lib.Machine

/-! ### The state and the operations -/

/-- `pthread_once_t`. -/
inductive Once where
  /-- `PTHREAD_ONCE_INIT` -/
  | fresh
  /-- the thread `t` executes `init` -/
  | running (t : ℕ)
  | done
  deriving DecidableEq

/-- What is at the address of an object. -/
inductive Object where
  | absent
  /-- the constructor has not returned -/
  | raw
  | whole
  | deleted
  deriving DecidableEq

/-- Where a thread is. -/
inductive Pc where
  | idle
  /-- in `instance`: at `pthread_once` -/
  | once
  /-- at the assertion -/
  | assertion
  /-- at `return *m_instance` -/
  | read
  /-- in `init`: in the constructor of the object `n` -/
  | construct (n : ℕ)
  /-- in a call of `instance` in the constructor -/
  | nested
  /-- at the assignment to `m_instance` -/
  | assign (n : ℕ)
  /-- at the test of `has_no_destory` -/
  | register
  /-- at the end -/
  | return
  /-- in `exit`: at the next handler -/
  | exit
  /-- in `destory`: at `delete` -/
  | delete
  /-- at `m_instance = NULL` -/
  | clear
  deriving DecidableEq

/-- In the constructor. -/
def Pc.constructs : Pc → Bool
  | .construct _ => true
  | _ => false

/-- In `init`. -/
def Pc.inInit : Pc → Bool
  | .construct _ | .nested | .assign _ | .register | .return => true
  | _ => false

structure State where
  -- `m_ponce` and `m_instance`
  ponce : Once
  object : Option ℕ
  heap : ℕ → Object
  -- how often `destory` is registered
  handlers : ℕ
  threads : ℕ → Pc
  -- the thread that has called `exit`
  exiting : Option ℕ
  ended : Bool
  -- history: the objects that have been made, and those that were returned, as they were then
  made : ℕ
  returned : List (ℕ × Object)

def initial : State where
  ponce := .fresh
  object := none
  heap _ := .absent
  handlers := 0
  threads _ := .idle
  exiting := none
  ended := false
  made := 0
  returned := []

/-- What can go wrong. -/
inductive Fault where
  /-- `assert(m_instance != nullptr)` fails -/
  | assertion
  /-- `*m_instance` is `*NULL` -/
  | nullReference
  /-- an object is deleted again -/
  | doubleDelete
  deriving DecidableEq, Repr

abbrev Result (α : Type) := Except (Halt Fault) α

/-- The thread goes on at `pc`. -/
def State.goto (s : State) (t : ℕ) (pc : Pc) : State :=
  { s with threads := Function.update s.threads t pc }

/-- The object `n` becomes `o`. -/
def State.setObject (s : State) (n : ℕ) (o : Object) : State :=
  { s with heap := Function.update s.heap n o }

variable (noDestroy : Bool)

/-- `instance`, `init`, `exit` and `destory`: the next step of a thread. `noDestroy` is
`has_no_destory<T>::value`. -/
def next (t : ℕ) (s : State) : Result State :=
  match s.threads t with
  | .idle | .nested => .error .disabled
  | .once =>
    match s.ponce with
    | .fresh => .ok { (s.goto t (.construct s.made)).setObject s.made .raw with
        ponce := .running t
        made := s.made + 1 }
    | .running _ => .error .disabled
    | .done => .ok (s.goto t .assertion)
  | .construct n => .ok ((s.goto t (.assign n)).setObject n .whole)
  | .assign n => .ok { s.goto t .register with object := some n }
  | .register => .ok { s.goto t .return with
      handlers := if noDestroy then s.handlers else s.handlers + 1 }
  | .return => .ok { s.goto t .assertion with ponce := .done }
  | .assertion =>
    match s.object with
    | none => .error (.fault .assertion)
    | some _ => .ok (s.goto t .read)
  | .read =>
    match s.object with
    | none => .error (.fault .nullReference)
    | some n => .ok { s.goto t .idle with returned := s.returned ++ [(n, s.heap n)] }
  | .exit =>
    if s.handlers = 0 then .ok { s with ended := true }
    else .ok { s.goto t .delete with handlers := s.handlers - 1 }
  | .delete =>
    match s.object with
    | none => .ok (s.goto t .clear)
    | some n => do
      check (s.heap n ≠ .deleted) .doubleDelete
      return (s.goto t .clear).setObject n .deleted
  | .clear => .ok { s.goto t .exit with object := none }

/-- The actions. -/
inductive Act where
  /-- a call of `instance` -/
  | instance (t : ℕ)
  /-- one in the constructor of `T` -/
  | nested (t : ℕ)
  /-- a call of `exit` -/
  | exit (t : ℕ)
  /-- the next step of a thread -/
  | next (t : ℕ)
  deriving DecidableEq

/-- What an action does. -/
def exec (s : State) (a : Act) : Result State := do
  enable (s.ended = false)
  match a with
  | .instance t => do
    enable (s.threads t = .idle)
    return s.goto t .once
  | .nested t => do
    enable ((s.threads t).constructs = true)
    return s.goto t .nested
  | .exit t => do
    enable (s.threads t = .idle ∧ s.exiting = none)
    return { s.goto t .exit with exiting := some t }
  | .next t => next noDestroy t s

/-! ### The invariant -/

/-- What has become of the object. -/
inductive Stage where
  | absent
  | raw
  | built
  /-- in `m_instance` -/
  | stored
  /-- and its end is provided for -/
  | ready
  /-- `destory` has been called -/
  | deleting
  | deleted
  /-- not in `m_instance` any more -/
  | gone
  deriving DecidableEq

namespace Stage

def heap : Stage → Object
  | .absent => .absent
  | .raw => .raw
  | .built | .stored | .ready | .deleting => .whole
  | .deleted | .gone => .deleted

def object : Stage → Option ℕ
  | .stored | .ready | .deleting | .deleted => some 0
  | _ => none

def handlers (noDestroy : Bool) : Stage → ℕ
  | .ready => if noDestroy then 0 else 1
  | _ => 0

/-- `init` has no more to do. -/
def complete : Stage → Bool
  | .ready | .deleting | .deleted | .gone => true
  | _ => false

/-- `destory` has been called. -/
def destroyed : Stage → Bool
  | .deleting | .deleted | .gone => true
  | _ => false

theorem object_eq_some {k : Stage} {n : ℕ} (h : k.object = some n) :
    n = 0 ∧ (k.heap = .whole ∨ k.heap = .deleted ∧ k.destroyed = true) := by
  cases k <;> cases h
  · exact ⟨rfl, .inl rfl⟩
  · exact ⟨rfl, .inl rfl⟩
  · exact ⟨rfl, .inl rfl⟩
  · exact ⟨rfl, .inr ⟨rfl, rfl⟩⟩

theorem handlers_ne_zero {noDestroy : Bool} {k : Stage} (h : k.handlers noDestroy ≠ 0) :
    k = .ready ∧ noDestroy = false := by
  cases k with
  | ready =>
    refine ⟨rfl, ?_⟩
    cases noDestroy with
    | false => rfl
    | true => exact absurd rfl h
  | _ => exact absurd rfl h

end Stage

/-- The threads that may be at a place. -/
def Allowed (k : Stage) (ponce : Once) (exiting : Option ℕ) (t : ℕ) : Pc → Prop
  | .idle | .once => True
  | .assertion | .read => ponce = .done
  | .construct n => n = 0 ∧ k = .raw ∧ ponce = .running t
  | .nested => k = .raw ∧ ponce = .running t
  | .assign n => n = 0 ∧ k = .built ∧ ponce = .running t
  | .register => k = .stored ∧ ponce = .running t
  | .return => k.complete = true ∧ ponce = .running t
  | .exit => exiting = some t ∧ k ≠ .deleting ∧ k ≠ .deleted
  | .delete => exiting = some t ∧ k = .deleting
  | .clear => exiting = some t ∧ k = .deleted

/-- How far `init` has come. -/
def OnceOk (k : Stage) (threads : ℕ → Pc) : Once → Prop
  | .fresh => k = .absent
  | .running t => k ≠ .absent ∧ (threads t).inInit = true
  | .done => k.complete = true

/-- **The invariant**, in a stage. -/
structure Inv (noDestroy : Bool) (k : Stage) (s : State) : Prop where
  heap : s.heap 0 = k.heap
  object : s.object = k.object
  handlers : s.handlers = k.handlers noDestroy
  made : s.made = if k = .absent then 0 else 1
  once : OnceOk k s.threads s.ponce
  threads : ∀ t, Allowed k s.ponce s.exiting t (s.threads t)
  destroyed : k.destroyed = true → noDestroy = false ∧ s.exiting ≠ none
  returned : ∀ p ∈ s.returned, p.1 = 0 ∧ (p.2 = .whole ∨ p.2 = .deleted ∧ k.destroyed = true)

variable {noDestroy} {k k' : Stage} {s s' : State} {t : ℕ} {pc : Pc}

theorem inv_initial : Inv noDestroy .absent initial where
  heap := rfl
  object := rfl
  handlers := rfl
  made := rfl
  once := rfl
  threads _ := trivial
  destroyed := nofun
  returned := nofun

/-! ### What the other threads are allowed -/

section
variable {ponce : Once} {exiting : Option ℕ} {u : ℕ}

/-- `init` begins. -/
theorem Allowed.begin (h : Allowed .absent .fresh exiting u pc) :
    Allowed .raw (.running t) exiting u pc := by
  cases pc <;> simp_all [Allowed]

/-- `init` goes on. -/
theorem Allowed.advance (hne : u ≠ t) (hk : k.complete = false) (hk' : k'.destroyed = false)
    (h : Allowed k (.running t) exiting u pc) : Allowed k' (.running t) exiting u pc := by
  cases k <;> cases hk <;> cases k' <;> cases hk' <;> cases pc <;> simp_all [Allowed]

/-- `init` ends. -/
theorem Allowed.finish (hne : u ≠ t) (h : Allowed k (.running t) exiting u pc) :
    Allowed k .done exiting u pc := by
  cases pc <;> simp_all [Allowed]

/-- `destory` goes on. -/
theorem Allowed.destroy (hne : u ≠ t) (hk : k.complete = true) (hk' : k'.complete = true)
    (h : Allowed k ponce (some t) u pc) : Allowed k' ponce (some t) u pc := by
  cases pc with
  | idle | once => trivial
  | assertion | read => exact h
  | «return» => exact ⟨hk', h.2⟩
  | exit | delete | clear => exact absurd (Option.some.inj h.1).symm hne
  | construct n | assign n | nested | register => cases k <;> simp_all [Allowed, Stage.complete]

/-- `exit` is called. -/
theorem Allowed.exit (h : Allowed k ponce none u pc) :
    Allowed k ponce (some t) u pc := by
  cases pc <;> simp_all [Allowed]

end

/-! ### The steps -/

/-- One thread goes on. -/
theorem allowed_goto {ponce : Once} {exiting : Option ℕ}
    (h : ∀ u, Allowed k s.ponce s.exiting u (s.threads u))
    (hself : Allowed k' ponce exiting t pc)
    (hothers : ∀ u ≠ t, ∀ pc, Allowed k s.ponce s.exiting u pc → Allowed k' ponce exiting u pc)
    (u : ℕ) : Allowed k' ponce exiting u ((s.goto t pc).threads u) := by
  show Allowed k' ponce exiting u (Function.update s.threads t pc u)
  rcases eq_or_ne u t with rfl | hne
  · rw [Function.update_self]
    exact hself
  · rw [Function.update_of_ne hne]
    exact hothers u hne _ (h u)

/-- A thread that is not in `init` goes on. -/
theorem onceOk_goto (h : OnceOk k s.threads s.ponce)
    (hk : k' = k ∨ k.complete = true ∧ k'.complete = true) (hpc : (s.threads t).inInit = false) :
    OnceOk k' (s.goto t pc).threads s.ponce := by
  cases hp : s.ponce with
  | fresh =>
    rw [hp] at h
    rcases hk with rfl | ⟨hk, -⟩
    · exact h
    · rw [show k = .absent from h] at hk
      cases hk
  | done =>
    rw [hp] at h
    rcases hk with rfl | ⟨-, hk⟩
    · exact h
    · exact hk
  | running u =>
    rw [hp] at h
    refine ⟨?_, ?_⟩
    · rcases hk with rfl | ⟨-, hk⟩
      · exact h.1
      · rintro rfl
        cases hk
    · have hne : u ≠ t := fun heq => by
        rw [← heq, h.2] at hpc
        cases hpc
      show (Function.update s.threads t pc u).inInit = true
      rw [Function.update_of_ne hne]
      exact h.2

theorem onceOk_init (hponce : s.ponce = .running t) (hk : k ≠ .absent) (hpc : pc.inInit = true) :
    OnceOk k (s.goto t pc).threads s.ponce := by
  rw [hponce]
  refine ⟨hk, ?_⟩
  show (Function.update s.threads t pc t).inInit = true
  rw [Function.update_self]
  exact hpc

/-- A thread outside `init` goes on outside it, and the rest stays as it is. -/
theorem Inv.goto (h : Inv noDestroy k s) (hpc : (s.threads t).inInit = false)
    (hself : Allowed k s.ponce s.exiting t pc) : Inv noDestroy k (s.goto t pc) where
  heap := h.heap
  object := h.object
  handlers := h.handlers
  made := h.made
  once := onceOk_goto h.once (.inl rfl) hpc
  threads := allowed_goto h.threads hself fun _ _ _ hu => hu
  destroyed := h.destroyed
  returned := h.returned

theorem heap_set {heap : ℕ → Object} {n : ℕ} {o : Object} : Function.update heap n o n = o :=
  Function.update_self n o heap

/-- A step in `init`. -/
theorem inv_init (h : Inv noDestroy k s) (hpc : (s.threads t).inInit = true)
    (hs : next noDestroy t s = .ok s') : ∃ k', Inv noDestroy k' s' := by
  have hself := h.threads t
  have hothers : ∀ {k'} {u}, s.ponce = .running t → k.complete = false → k'.destroyed = false →
      u ≠ t → ∀ pc, Allowed k s.ponce s.exiting u pc → Allowed k' s.ponce s.exiting u pc := by
    intro k' u hponce hk hk' hne pc hu
    rw [hponce] at hu ⊢
    exact hu.advance hne hk hk'
  unfold next at hs
  cases hthread : s.threads t with
  | idle | once | assertion | read | exit | delete | clear => rw [hthread] at hpc; cases hpc
  | nested => rw [hthread] at hs; cases hs
  | construct n =>
    rw [hthread] at hself hs
    cases hs
    obtain ⟨rfl, rfl, hponce⟩ := hself
    exact ⟨.built, {
      heap := (heap_set : Function.update s.heap 0 .whole 0 = _)
      object := h.object
      handlers := h.handlers
      made := h.made
      once := onceOk_init hponce nofun rfl
      threads := allowed_goto h.threads ⟨rfl, rfl, hponce⟩ fun u hne => hothers hponce rfl rfl hne
      destroyed := nofun
      returned := h.returned }⟩
  | assign n =>
    rw [hthread] at hself hs
    cases hs
    obtain ⟨rfl, rfl, hponce⟩ := hself
    exact ⟨.stored, {
      heap := h.heap
      object := rfl
      handlers := h.handlers
      made := h.made
      once := onceOk_init hponce nofun rfl
      threads := allowed_goto h.threads ⟨rfl, hponce⟩ fun u hne => hothers hponce rfl rfl hne
      destroyed := nofun
      returned := h.returned }⟩
  | register =>
    rw [hthread] at hself hs
    cases hs
    obtain ⟨rfl, hponce⟩ := hself
    exact ⟨.ready, {
      heap := h.heap
      object := h.object
      handlers := by
        show (if noDestroy then s.handlers else s.handlers + 1) = _
        rw [h.handlers]
        rfl
      made := h.made
      once := onceOk_init hponce nofun rfl
      threads := allowed_goto h.threads ⟨rfl, hponce⟩ fun u hne => hothers hponce rfl rfl hne
      destroyed := nofun
      returned := h.returned }⟩
  | «return» =>
    rw [hthread] at hself hs
    cases hs
    obtain ⟨hk, hponce⟩ := hself
    exact ⟨k, {
      heap := h.heap
      object := h.object
      handlers := h.handlers
      made := h.made
      once := hk
      threads := allowed_goto h.threads rfl fun u hne pc hu => by
        rw [hponce] at hu
        exact hu.finish hne
      destroyed := h.destroyed
      returned := h.returned }⟩

/-- The first call of `pthread_once`. -/
theorem inv_fresh (h : Inv noDestroy k s) (hponce : s.ponce = .fresh) :
    Inv noDestroy .raw { (s.goto t (.construct s.made)).setObject s.made .raw with
      ponce := .running t
      made := s.made + 1 } := by
  have honce := h.once
  rw [hponce] at honce
  obtain rfl : k = .absent := honce
  have hmade : s.made = 0 := h.made
  rw [hmade]
  exact {
    heap := (heap_set : Function.update s.heap 0 .raw 0 = _)
    object := h.object
    handlers := h.handlers
    made := rfl
    once := ⟨nofun, by
      show (Function.update s.threads t (.construct 0) t).inInit = true
      rw [Function.update_self]
      rfl⟩
    threads := allowed_goto h.threads ⟨rfl, rfl, rfl⟩ fun u _ pc hu => by
      rw [hponce] at hu
      exact hu.begin
    destroyed := nofun
    returned := fun p hp => ⟨(h.returned p hp).1, .inl (by
      rcases (h.returned p hp).2 with hwhole | ⟨-, hk⟩
      · exact hwhole
      · cases hk)⟩ }

/-- A step of the thread that has called `exit`. -/
theorem inv_destroy (h : Inv noDestroy k s) (hpc : (s.threads t).inInit = false)
    (hexit : s.exiting = some t) (hk : k.complete = true) (hk' : k'.destroyed = true)
    (hdestroy : noDestroy = false) (hself : Allowed k' s.ponce s.exiting t pc)
    {heap : ℕ → Object} {object : Option ℕ} {handlers : ℕ} (hheap : heap 0 = k'.heap)
    (hobject : object = k'.object) (hhandlers : handlers = 0) :
    Inv noDestroy k' { s.goto t pc with heap := heap, object := object, handlers := handlers } := by
  have hcomplete : k'.complete = true := by cases k' <;> cases hk' <;> rfl
  exact {
    heap := hheap
    object := hobject
    handlers := by
      show handlers = _
      rw [hhandlers]
      cases k' <;> cases hk' <;> rfl
    made := by
      show s.made = _
      rw [h.made]
      cases k <;> cases hk <;> cases k' <;> cases hk' <;> rfl
    once := onceOk_goto h.once (.inr ⟨hk, hcomplete⟩) hpc
    threads := allowed_goto h.threads hself fun u hne pc hu => by
      show Allowed k' s.ponce s.exiting u pc
      rw [hexit] at hu ⊢
      exact hu.destroy hne hk hcomplete
    destroyed := fun _ => ⟨hdestroy, fun hnone => nomatch hexit.symm.trans hnone⟩
    returned := fun p hp => ⟨(h.returned p hp).1, by
      rcases (h.returned p hp).2 with hwhole | ⟨hdeleted, -⟩
      · exact .inl hwhole
      · exact .inr ⟨hdeleted, hk'⟩⟩ }

theorem inv_next (h : Inv noDestroy k s) (hs : next noDestroy t s = .ok s') :
    ∃ k', Inv noDestroy k' s' := by
  by_cases hpc : (s.threads t).inInit = true
  · exact inv_init h hpc hs
  have hself := h.threads t
  have hout : ∀ {pc}, s.threads t = pc → (s.threads t).inInit = false := fun _ =>
    Bool.eq_false_iff.mpr hpc
  unfold next at hs
  cases hthread : s.threads t with
  | construct | nested | assign | register | «return» => rw [hthread] at hpc; exact absurd rfl hpc
  | idle => rw [hthread] at hs; cases hs
  | once =>
    rw [hthread] at hs
    dsimp only at hs
    cases hponce : s.ponce with
    | fresh =>
      rw [hponce] at hs
      cases hs
      exact ⟨.raw, inv_fresh h hponce⟩
    | running u => rw [hponce] at hs; cases hs
    | done =>
      rw [hponce] at hs
      cases hs
      exact ⟨k, h.goto (hout hthread) hponce⟩
  | assertion =>
    rw [hthread] at hs hself
    dsimp only at hs
    cases hobject : s.object with
    | none => rw [hobject] at hs; cases hs
    | some n =>
      rw [hobject] at hs
      cases hs
      exact ⟨k, h.goto (hout hthread) hself⟩
  | read =>
    rw [hthread] at hs
    dsimp only at hs
    cases hobject : s.object with
    | none => rw [hobject] at hs; cases hs
    | some n =>
      rw [hobject] at hs
      cases hs
      have hgoto : Inv noDestroy k (s.goto t .idle) := h.goto (hout hthread) trivial
      have hk := Stage.object_eq_some (h.object.symm.trans hobject)
      refine ⟨k, { hgoto with returned := fun p hp => ?_ }⟩
      rcases List.mem_append.mp hp with hp | hp
      · exact h.returned p hp
      · obtain ⟨rfl, hheap⟩ := hk
        rw [List.mem_singleton.mp hp]
        show _ ∧ (s.heap 0 = _ ∨ s.heap 0 = _ ∧ _)
        rw [h.heap]
        exact ⟨rfl, hheap⟩
  | exit =>
    rw [hthread] at hs hself
    dsimp only at hs
    split_ifs at hs with hzero
    · cases hs
      exact ⟨k, h.heap, h.object, h.handlers, h.made, h.once, h.threads, h.destroyed, h.returned⟩
    · cases hs
      obtain ⟨rfl, hnd⟩ := Stage.handlers_ne_zero (h.handlers ▸ hzero)
      have hone : s.handlers = 1 := by rw [h.handlers, hnd]; rfl
      have hself' : Allowed .deleting s.ponce s.exiting t .delete := ⟨hself.1, rfl⟩
      refine ⟨.deleting, inv_destroy h (hout hthread) hself.1 rfl rfl hnd hself' h.heap h.object ?_⟩
      rw [hone]
  | delete =>
    rw [hthread] at hs hself
    obtain ⟨hexit, rfl⟩ := hself
    dsimp only at hs
    rw [h.object] at hs
    obtain ⟨-, hs⟩ := check_bind_eq_ok.mp hs
    cases hs
    have hself' : Allowed .deleted s.ponce s.exiting t .clear := ⟨hexit, rfl⟩
    exact ⟨.deleted, inv_destroy h (hout hthread) hexit rfl rfl (h.destroyed rfl).1 hself'
      (heap_set : Function.update s.heap 0 .deleted 0 = _) h.object h.handlers⟩
  | clear =>
    rw [hthread] at hs hself
    cases hs
    obtain ⟨hexit, rfl⟩ := hself
    have hself' : Allowed .gone s.ponce s.exiting t .exit := ⟨hexit, nofun, nofun⟩
    exact ⟨.gone, inv_destroy h (hout hthread) hexit rfl rfl (h.destroyed rfl).1 hself' h.heap rfl
      h.handlers⟩

/-- **What an action does.** -/
theorem inv_step {a : Act} (h : Inv noDestroy k s) (hs : exec noDestroy s a = .ok s') :
    ∃ k', Inv noDestroy k' s' := by
  obtain ⟨-, hs⟩ := enable_bind_eq_ok.mp hs
  cases a with
  | «instance» t =>
    obtain ⟨hpc, hs⟩ := enable_bind_eq_ok.mp hs
    cases hs
    exact ⟨k, h.goto (by rw [hpc]; rfl) trivial⟩
  | nested t =>
    obtain ⟨hpc, hs⟩ := enable_bind_eq_ok.mp hs
    cases hs
    have hself := h.threads t
    cases hthread : s.threads t with
    | construct n =>
      rw [hthread] at hself
      obtain ⟨rfl, rfl, hponce⟩ := hself
      exact ⟨.raw, {
        heap := h.heap
        object := h.object
        handlers := h.handlers
        made := h.made
        once := onceOk_init hponce nofun rfl
        threads := allowed_goto h.threads ⟨rfl, hponce⟩ fun _ _ _ hu => hu
        destroyed := h.destroyed
        returned := h.returned }⟩
    | _ => rw [hthread] at hpc; cases hpc
  | exit t =>
    obtain ⟨⟨hpc, hexit⟩, hs⟩ := enable_bind_eq_ok.mp hs
    cases hs
    have hk : k.destroyed = false := Bool.eq_false_iff.mpr fun hk => (h.destroyed hk).2 hexit
    have hne : ∀ {k'}, Stage.destroyed k' = true → k ≠ k' := by
      rintro k' hk' rfl
      rw [hk'] at hk
      cases hk
    have hself : Allowed k s.ponce (some t) t .exit := ⟨rfl, hne rfl, hne rfl⟩
    exact ⟨k, {
      heap := h.heap
      object := h.object
      handlers := h.handlers
      made := h.made
      once := onceOk_goto h.once (.inl rfl) (by rw [hpc]; rfl)
      threads := allowed_goto h.threads hself fun u _ pc hu => by
        rw [hexit] at hu
        exact hu.exit
      destroyed := fun hdestroyed => ⟨(h.destroyed hdestroyed).1, nofun⟩
      returned := h.returned }⟩
  | next t => exact inv_next h hs

/-! ### The runs -/

theorem run_inv {l : List Act} (hr : Run (exec noDestroy) initial l s) :
    ∃ k, Inv noDestroy k s :=
  Run.induction (P := fun _ s => ∃ k, Inv noDestroy k s) ⟨.absent, inv_initial⟩
    (fun _ _ _ _ _ ⟨_, h⟩ ha => inv_step h ha) hr

/-- The step of a thread that faults. -/
theorem next_fault_iff (h : Inv noDestroy k s) {f : Fault} :
    next noDestroy t s = .error (.fault f) ↔
      s.object = none ∧ (f = .assertion ∧ s.threads t = .assertion ∨
        f = .nullReference ∧ s.threads t = .read) := by
  have hself := h.threads t
  unfold next
  cases hthread : s.threads t with
  | idle | nested | construct | assign | register | «return» | clear => simp
  | once => cases hponce : s.ponce <;> simp
  | exit =>
    dsimp only
    split_ifs <;> simp
  | assertion | read =>
    cases hobject : s.object with
    | none => simp [eq_comm]
    | some n => simp
  | delete =>
    rw [hthread] at hself
    obtain ⟨-, rfl⟩ := hself
    have hwhole : s.heap 0 ≠ .deleted := by
      rw [h.heap]
      nofun
    rw [h.object]
    dsimp only [Stage.object]
    rw [check_bind_of hwhole]
    simp [pure, Except.pure]

/-- Once `destory` has begun, it was to be. -/
theorem Inv.exiting_of_none (h : Inv noDestroy k s)
    (ht : s.threads t = .assertion ∨ s.threads t = .read) (hobject : s.object = none) :
    noDestroy = false ∧ s.exiting ≠ none := by
  have hponce : s.ponce = .done := by
    have hself := h.threads t
    rcases ht with ht | ht <;> rwa [ht] at hself
  have hcomplete : k.complete = true := by
    have honce := h.once
    rwa [hponce] at honce
  rw [h.object] at hobject
  refine h.destroyed ?_
  cases k <;> cases hcomplete <;> cases hobject
  rfl

/-- **There is one object.** In every state of every run at most one has been made, and each call of
`instance` has returned it, complete, or, if `destory` is registered and `exit` has been called,
deleted. A thread is blocked at `pthread_once` only while one executes `init`. And a step goes wrong
exactly when it reads `m_instance` after `destory` has been executed, in the assertion or in the
return after it. -/
theorem singleton_ok {l : List Act} (hr : Run (exec noDestroy) initial l s) :
    s.made ≤ 1 ∧
    (∀ p ∈ s.returned, p.1 = 0 ∧
      (p.2 = .whole ∨ p.2 = .deleted ∧ noDestroy = false ∧ s.exiting ≠ none)) ∧
    (∀ t, s.ended = false → s.threads t = .once → exec noDestroy s (.next t) = .error .disabled →
      ∃ u, s.ponce = .running u ∧ (s.threads u).inInit = true) ∧
    ∀ a f, exec noDestroy s a = .error (.fault f) ↔ s.ended = false ∧ noDestroy = false ∧
      s.exiting ≠ none ∧ s.object = none ∧ ∃ t, a = .next t ∧
        (f = .assertion ∧ s.threads t = .assertion ∨
          f = .nullReference ∧ s.threads t = .read) := by
  obtain ⟨k, h⟩ := run_inv hr
  refine ⟨?_, fun p hp => ?_, fun t hended ht hblocked => ?_, fun a f => ⟨fun ha => ?_, ?_⟩⟩
  · rw [h.made]
    split_ifs
    · exact Nat.zero_le 1
    · exact Nat.le_refl 1
  · obtain ⟨hzero, hstatus⟩ := h.returned p hp
    exact ⟨hzero, hstatus.imp_right fun hd => ⟨hd.1, h.destroyed hd.2⟩⟩
  · unfold exec at hblocked
    rw [enable_bind_of hended] at hblocked
    dsimp only at hblocked
    unfold next at hblocked
    rw [ht] at hblocked
    dsimp only at hblocked
    have honce := h.once
    cases hponce : s.ponce with
    | fresh => rw [hponce] at hblocked; cases hblocked
    | done => rw [hponce] at hblocked; cases hblocked
    | running u =>
      rw [hponce] at honce
      exact ⟨u, rfl, honce.2⟩
  · obtain ⟨hended, ha⟩ := enable_bind_eq_fault.mp ha
    cases a with
    | «instance» t | nested t | exit t =>
      obtain ⟨-, ha⟩ := enable_bind_eq_fault.mp ha
      cases ha
    | next t =>
      obtain ⟨hobject, hcase⟩ := (next_fault_iff h).mp ha
      obtain ⟨hnd, hexit⟩ := h.exiting_of_none (hcase.imp And.right And.right) hobject
      exact ⟨hended, hnd, hexit, hobject, t, rfl, hcase⟩
  · rintro ⟨hended, -, -, hobject, t, rfl, hcase⟩
    unfold exec
    rw [enable_bind_of hended]
    exact (next_fault_iff h).mpr ⟨hobject, hcase⟩

/-- Two threads call `instance`, one of them then `exit`; the other one calls `instance` again when
the object has been deleted, and its assertion holds. -/
def calledAtExit : List Act :=
  [.instance 0, .instance 1] ++ List.replicate 7 (.next 0) ++ List.replicate 3 (.next 1) ++
    [.exit 0, .next 0, .next 0, .instance 1, .next 1, .next 1]

/-- Its return is overtaken by `m_instance = NULL`. -/
theorem singleton_ok_calledAtExit :
    let s := after (exec false) initial (calledAtExit ++ [.next 0])
    s.returned = [(0, .whole), (0, .whole)] ∧ s.made ≤ 1 ∧
    (∀ p ∈ s.returned, p.1 = 0 ∧
      (p.2 = .whole ∨ p.2 = .deleted ∧ false = false ∧ s.exiting ≠ none)) ∧
    (∀ t, s.ended = false → s.threads t = .once → exec false s (.next t) = .error .disabled →
      ∃ u, s.ponce = .running u ∧ (s.threads u).inInit = true) ∧
    exec false s (.next 1) = .error (.fault .nullReference) := by
  intro s
  have hr : Run (exec false) initial (calledAtExit ++ [.next 0]) s := run_after rfl
  obtain ⟨hmade, hreturned, hblocked, hfault⟩ := singleton_ok hr
  refine ⟨rfl, hmade, hreturned, hblocked, (hfault _ _).mpr ?_⟩
  exact ⟨rfl, rfl, nofun, rfl, 1, rfl, .inr ⟨rfl, rfl⟩⟩

/-- A call after that fails at the assertion. -/
example : exec false (after (exec false) initial
    (calledAtExit ++ [.next 0, .instance 2, .next 2])) (.next 2) = .error (.fault .assertion) := rfl

end ToolsCxx.Base.Singleton
