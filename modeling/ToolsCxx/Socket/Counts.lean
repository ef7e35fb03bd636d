import ToolsCxx.Socket.Model
import ToolsCxx.Lib.Sharing

/-! # `ConnSocket`: the counts of the guards

`RefCounted`: along a sequence of operations every guard counts the objects that have it, it is
deleted and its descriptor closed exactly when the last of them goes, and no operation goes wrong.
`refCounted_iff`: this holds if and only if no operation is `Unsafe`. Copying and assignment
increment the count of the source's guard, and the assignment after the target's destructor has run:
the source must have a guard, and must not be the target if this is the guard's only owner. -/

namespace ToolsCxx.Socket.Counts

open ToolsCxx.Base ToolsCxx.Lib.Machine ToolsCxx.Lib.Sharing ToolsCxx.Socket.Model

/-! ### The property -/

/-- The objects in `A` whose `m_guard` is the guard at `g`. -/
def owners (A : Finset ℕ) (s : State) (g : Addr) : Finset ℕ :=
  holders A (fun i => (s.sockets i).guard) g

/-- **The counts are right**, the objects being those in `A` (in the middle of an operation, one of
the objects that are alive does not count); each of them has no guard or one that is alive. -/
structure Counted (A : Finset ℕ) (s : State) : Prop where
  count : ∀ g guard, s.heap g = some guard → guard.count = (owners A s g).card
  owned : ∀ g guard, s.heap g = some guard → (owners A s g).Nonempty
  bounded : ∀ g guard, s.heap g = some guard → guard.count ≤ intMax
  live : ∀ i ∈ A, ∀ g, (s.sockets i).guard = some g → ∃ guard, s.heap g = some guard

/-- **A guard is deleted once**: either it is alive, or it has been deleted with the descriptor it
was created with. -/
structure Recorded (s : State) : Prop where
  numbered : ∀ g guard, s.heap g = some guard → s.opened[s.serials g]? = some guard.sockfd
  distinct : ∀ g g' guard guard', s.heap g = some guard → s.heap g' = some guard' →
    s.serials g = s.serials g' → g = g'
  once : (s.closed.map Prod.fst).Nodup
  closed : ∀ k fd, (k, fd) ∈ s.closed ↔
    s.opened[k]? = some fd ∧ ∀ g guard, s.heap g = some guard → s.serials g ≠ k

/-- What the action closes: the descriptor of the object that is destroyed or assigned to, if this
is the last that has its guard. -/
def closes (s : State) : Act → List (ℕ × ℤ)
  | .assign i _ | .destroy i =>
    match (s.sockets i).guard with
    | none => []
    | some g =>
      match s.heap g with
      | none => []
      | some guard => if owners s.alive s g = {i} then [(s.serials g, guard.sockfd)] else []
  | _ => []

/-- **Each socket is closed once**: along the operations `l` the counts are right, no operation goes
wrong, and each closes what it should. -/
def RefCounted (l : List Act) : Prop :=
  ∀ l₁ l₂ s, l = l₁ ++ l₂ → Run exec initial l₁ s → (Counted s.alive s ∧ Recorded s) ∧
    ∀ a l₃, l₂ = a :: l₃ → (∀ f, exec s a ≠ .error (.fault f)) ∧
      ∀ s', exec s a = .ok s' → s'.closed = s.closed ++ closes s a

/-- The operation copies or assigns from an object without a guard, assigns the only owner of a
guard to itself, or makes a guard count to `2 ^ 31`. -/
def Unsafe (s : State) : Act → Prop
  | .copy i j => i ∉ s.alive ∧ j ∈ s.alive ∧
    match (s.sockets j).guard with
    | none => True
    | some g => intMax ≤ (owners s.alive s g).card
  | .assign i j => i ∈ s.alive ∧ j ∈ s.alive ∧
    match (s.sockets j).guard with
    | none => True
    | some g => (i = j ∧ owners s.alive s g = {i}) ∨
        ((s.sockets i).guard ≠ some g ∧ intMax ≤ (owners s.alive s g).card)
  | _ => False

/-- None of the operations `l` is. -/
def Safe (l : List Act) : Prop :=
  ∀ l₁ a l₂ s, l = l₁ ++ a :: l₂ → Run exec initial l₁ s → ¬ Unsafe s a

theorem counted_initial : Counted initial.alive initial := by
  refine ⟨?_, ?_, ?_, ?_⟩ <;> simp [initial]

theorem recorded_initial : Recorded initial := by
  refine ⟨?_, ?_, ?_, ?_⟩ <;> simp [initial]

/-! ### The records -/

section
variable {A : Finset ℕ} {s s' : State} {i : ℕ} {g : Addr} {guard : SocketGuard}

/-- The records speak about the descriptors of the guards, not about their counts. -/
theorem Recorded.of_sockfd (h : Recorded s)
    (hh : ∀ g, (s'.heap g).map SocketGuard.sockfd = (s.heap g).map SocketGuard.sockfd)
    (hs : s'.serials = s.serials) (ho : s'.opened = s.opened) (hc : s'.closed = s.closed) :
    Recorded s' := by
  -- a guard of `s'` is one of `s`, and the other way
  have hfrom : ∀ g guard', s'.heap g = some guard' →
      ∃ guard, s.heap g = some guard ∧ guard.sockfd = guard'.sockfd := by
    intro g guard' hg
    have hm := hh g
    rw [hg] at hm
    exact Option.map_eq_some_iff.mp hm.symm
  have hto : ∀ g guard, s.heap g = some guard → ∃ guard', s'.heap g = some guard' := by
    intro g guard hg
    have hm := hh g
    rw [hg] at hm
    obtain ⟨guard', hg', -⟩ := Option.map_eq_some_iff.mp hm
    exact ⟨guard', hg'⟩
  refine ⟨?_, ?_, hc ▸ h.once, ?_⟩
  · intro g guard' hg
    obtain ⟨guard, hg, hfd⟩ := hfrom g guard' hg
    rw [hs, ho, h.numbered g guard hg, hfd]
  · intro g g' guard guard' hg hg' hk
    obtain ⟨u, hu, -⟩ := hfrom g guard hg
    obtain ⟨u', hu', -⟩ := hfrom g' guard' hg'
    exact h.distinct g g' u u' hu hu' (by rw [← hs]; exact hk)
  · intro k fd
    rw [hc, h.closed, ho, hs]
    refine and_congr_right fun _ => ⟨fun hno g guard' hg => ?_, fun hno g guard hg => ?_⟩
    · obtain ⟨guard, hg, -⟩ := hfrom g guard' hg
      exact hno g guard hg
    · obtain ⟨guard', hg'⟩ := hto g guard hg
      exact hno g guard' hg'

theorem recorded_setCount (h : Recorded s) (hg : s.heap g = some guard) (n : ℤ) :
    Recorded { s with heap := Function.update s.heap g (some { guard with count := n }) } := by
  refine h.of_sockfd (fun g' => ?_) rfl rfl rfl
  rcases eq_or_ne g' g with rfl | hne
  · simp [hg]
  · simp [Function.update_of_ne hne]

theorem serial_lt (h : Recorded s) (hg : s.heap g = some guard) :
    s.serials g < s.opened.length := by
  have hk := h.numbered g guard hg
  exact (List.getElem?_eq_some_iff.mp hk).1

theorem recorded_newGuard (h : Recorded s) (hg : s.heap g = none) (fd : ℤ) :
    Recorded { s with
      heap := Function.update s.heap g (some ⟨fd, 1⟩)
      serials := Function.update s.serials g s.opened.length
      opened := s.opened ++ [fd] } := by
  have hold : ∀ g' guard', g' ≠ g → s.heap g' = some guard' → s.serials g' ≠ s.opened.length :=
    fun g' guard' _ hg' => (serial_lt h hg').ne
  refine ⟨?_, ?_, h.once, ?_⟩
  · intro g' guard' hg'
    rcases eq_or_ne g' g with rfl | hne
    · simp only [Function.update_self, Option.some.injEq] at hg' ⊢
      rw [← hg', List.getElem?_concat_length]
    · simp only [Function.update_of_ne hne] at hg' ⊢
      rw [List.getElem?_append_left (serial_lt h hg')]
      exact h.numbered g' guard' hg'
  · intro g₁ g₂ guard₁ guard₂ h₁ h₂ hk
    rcases eq_or_ne g₁ g with he₁ | hne₁ <;> rcases eq_or_ne g₂ g with he₂ | hne₂
    · rw [he₁, he₂]
    · subst he₁
      simp only [Function.update_self, Function.update_of_ne hne₂] at h₂ hk
      exact absurd hk.symm (hold g₂ guard₂ hne₂ h₂)
    · subst he₂
      simp only [Function.update_self, Function.update_of_ne hne₁] at h₁ hk
      exact absurd hk (hold g₁ guard₁ hne₁ h₁)
    · simp only [Function.update_of_ne hne₁, Function.update_of_ne hne₂] at h₁ h₂ hk
      exact h.distinct g₁ g₂ guard₁ guard₂ h₁ h₂ hk
  · intro k fd'
    rw [h.closed]
    constructor
    · rintro ⟨hk, hno⟩
      have hlt : k < s.opened.length := (List.getElem?_eq_some_iff.mp hk).1
      refine ⟨by rw [List.getElem?_append_left hlt]; exact hk, fun g' guard' hg' => ?_⟩
      rcases eq_or_ne g' g with rfl | hne
      · simp only [Function.update_self]
        exact hlt.ne'
      · simp only [Function.update_of_ne hne] at hg' ⊢
        exact hno g' guard' hg'
    · rintro ⟨hk, hno⟩
      have hne : k ≠ s.opened.length := by
        have := hno g ⟨fd, 1⟩ (by simp)
        simpa using this.symm
      have hlt : k < s.opened.length := by
        have := (List.getElem?_eq_some_iff.mp hk).1
        simp only [List.length_append, List.length_singleton] at this
        omega
      refine ⟨by rwa [List.getElem?_append_left hlt] at hk, fun g' guard' hg' => ?_⟩
      have hgg : g' ≠ g := by
        rintro rfl
        rw [hg] at hg'; cases hg'
      have hk' := hno g' guard' (by simpa [Function.update_of_ne hgg] using hg')
      simpa [Function.update_of_ne hgg] using hk'

theorem recorded_deleteGuard (h : Recorded s) (hg : s.heap g = some guard) :
    Recorded (deleteGuard g guard s) := by
  have hheap : ∀ g' guard', Function.update s.heap g none g' = some guard' →
      g' ≠ g ∧ s.heap g' = some guard' := by
    intro g' guard' hg'
    rcases eq_or_ne g' g with rfl | hne
    · simp at hg'
    · rw [Function.update_of_ne hne] at hg'
      exact ⟨hne, hg'⟩
  refine ⟨fun g' guard' hg' => h.numbered g' guard' (hheap g' guard' hg').2, ?_, ?_, ?_⟩
  · intro g₁ g₂ guard₁ guard₂ h₁ h₂
    exact h.distinct g₁ g₂ guard₁ guard₂ (hheap g₁ guard₁ h₁).2 (hheap g₂ guard₂ h₂).2
  · -- a guard that is alive has not been deleted before
    have hnot : s.serials g ∉ s.closed.map Prod.fst := by
      intro hm
      obtain ⟨⟨k, fd⟩, hk, hkg⟩ := List.mem_map.mp hm
      exact ((h.closed k fd).mp hk).2 g guard hg hkg.symm
    simp only [deleteGuard, List.map_append, List.map_cons, List.map_nil]
    exact List.nodup_append.mpr ⟨h.once, List.nodup_singleton _, by
      rintro k hk k' hk' rfl
      rw [List.mem_singleton] at hk'
      exact hnot (hk' ▸ hk)⟩
  · intro k fd
    simp only [deleteGuard, List.mem_append, List.mem_singleton, Prod.mk.injEq, h.closed]
    constructor
    · rintro (⟨hk, hno⟩ | ⟨rfl, rfl⟩)
      · exact ⟨hk, fun g' guard' hg' => hno g' guard' (hheap g' guard' hg').2⟩
      · refine ⟨h.numbered g guard hg, fun g' guard' hg' hk => ?_⟩
        obtain ⟨hne, hg'⟩ := hheap g' guard' hg'
        exact hne (h.distinct g' g guard' guard hg' hg hk)
    · rintro ⟨hk, hno⟩
      by_cases hkg : k = s.serials g
      · subst hkg
        rw [h.numbered g guard hg, Option.some.injEq] at hk
        exact .inr ⟨rfl, hk.symm⟩
      · refine .inl ⟨hk, fun g' guard' hg' => ?_⟩
        rcases eq_or_ne g' g with rfl | hne
        · exact Ne.symm hkg
        · exact hno g' guard' (by simpa [deleteGuard, Function.update_of_ne hne] using hg')

/-! ### The counts -/

theorem mem_owners : i ∈ owners A s g ↔ i ∈ A ∧ (s.sockets i).guard = some g := mem_holders

theorem owners_setSocket (hi : i ∉ A) (c : ConnSocket) :
    owners A { s with sockets := Function.update s.sockets i c } g = owners A s g :=
  holders_congr fun j hj => by
    have hji : j ≠ i := fun hji => hi (hji ▸ hj)
    simp [Function.update_of_ne hji]

/-- What happens at the address `g` leaves the counts of the other guards as they are. -/
theorem Counted.update (h : Counted A s) {A' : Finset ℕ}
    (hheap : ∀ g' ≠ g, s'.heap g' = s.heap g') (howners : ∀ g' ≠ g, owners A' s' g' = owners A s g')
    (hg : ∀ guard, s'.heap g = some guard →
      guard.count = (owners A' s' g).card ∧ (owners A' s' g).Nonempty ∧ guard.count ≤ intMax)
    (hlive : (owners A' s' g).Nonempty → ∃ guard, s'.heap g = some guard) : Counted A' s' := by
  refine ⟨fun g' guard' hg' => ?_, fun g' guard' hg' => ?_, fun g' guard' hg' => ?_,
    fun i hi g' hig => ?_⟩ <;> rcases eq_or_ne g' g with hgg | hne
  · subst hgg; exact (hg guard' hg').1
  · rw [howners g' hne]; exact h.count g' guard' (hheap g' hne ▸ hg')
  · subst hgg; exact (hg guard' hg').2.1
  · rw [howners g' hne]; exact h.owned g' guard' (hheap g' hne ▸ hg')
  · subst hgg; exact (hg guard' hg').2.2
  · exact h.bounded g' guard' (hheap g' hne ▸ hg')
  · subst hgg; exact hlive ⟨i, mem_owners.mpr ⟨hi, hig⟩⟩
  · have hi' : i ∈ owners A s g' := howners g' hne ▸ mem_owners.mpr ⟨hi, hig⟩
    obtain ⟨hiA, hig'⟩ := mem_owners.mp hi'
    rw [hheap g' hne]
    exact h.live i hiA g' hig'

/-- A guard is written. -/
theorem Counted.setGuard (h : Counted A s) {A' : Finset ℕ} {guard' : SocketGuard}
    (hheap : s'.heap = Function.update s.heap g (some guard'))
    (howners : ∀ g' ≠ g, owners A' s' g' = owners A s g')
    (hcount : guard'.count = (owners A' s' g).card) (howned : (owners A' s' g).Nonempty)
    (hbounded : guard'.count ≤ intMax) : Counted A' s' := by
  have hself : s'.heap g = some guard' := by rw [hheap, Function.update_self]
  refine h.update (fun g' hne => by rw [hheap, Function.update_of_ne hne]) howners ?_
    fun _ => ⟨guard', hself⟩
  intro guard hg
  obtain rfl : guard' = guard := Option.some.inj (hself.symm.trans hg)
  exact ⟨hcount, howned, hbounded⟩

/-- Which objects are alive is not read. -/
theorem Counted.setAlive (h : Counted A s) (B : Finset ℕ) : Counted A { s with alive := B } :=
  ⟨h.count, h.owned, h.bounded, h.live⟩

/-- An object that does not count may be written. -/
theorem Counted.setSocket (h : Counted A s) (hi : i ∉ A) (c : ConnSocket) :
    Counted A { s with sockets := Function.update s.sockets i c } := by
  refine ⟨fun g guard hg => ?_, fun g guard hg => ?_, h.bounded, fun j hj g hjg => ?_⟩
  · rw [owners_setSocket hi]; exact h.count g guard hg
  · rw [owners_setSocket hi]; exact h.owned g guard hg
  · have hji : j ≠ i := fun hji => hi (hji ▸ hj)
    simp only [Function.update_of_ne hji] at hjg
    exact h.live j hj g hjg

/-- An object without a guard may count. -/
theorem Counted.insert_of_none (h : Counted A s) (hc : (s.sockets i).guard = none) :
    Counted (insert i A) s := by
  have how : ∀ g, owners (insert i A) s g = owners A s g := fun g =>
    holders_insert_of_ne (by simp [hc])
  refine ⟨fun g guard hg => ?_, fun g guard hg => ?_, h.bounded, fun j hj g hjg => ?_⟩
  · rw [how]; exact h.count g guard hg
  · rw [how]; exact h.owned g guard hg
  · rcases Finset.mem_insert.mp hj with rfl | hj
    · rw [hc] at hjg; cases hjg
    · exact h.live j hj g hjg

theorem Counted.erase_of_none (h : Counted A s) (hc : (s.sockets i).guard = none) :
    Counted (A.erase i) s := by
  have how : ∀ g, owners (A.erase i) s g = owners A s g := fun g =>
    holders_erase_of_ne (by simp [hc])
  refine ⟨fun g guard hg => ?_, fun g guard hg => ?_, h.bounded, fun j hj g hjg => ?_⟩
  · rw [how]; exact h.count g guard hg
  · rw [how]; exact h.owned g guard hg
  · exact h.live j (Finset.mem_of_mem_erase hj) g hjg

/-- An object counts from the increment on. -/
theorem counted_increment (h : Counted A s) (hi : i ∉ A) (hc : (s.sockets i).guard = some g)
    (hg : s.heap g = some guard) (hlt : guard.count < intMax) :
    Counted (insert i A) { s with
      heap := Function.update s.heap g (some { guard with count := guard.count + 1 }) } := by
  have hcard : (owners (insert i A) s g).card = (owners A s g).card + 1 :=
    card_holders_insert hi hc
  have hcount := h.count g guard hg
  refine h.setGuard rfl (fun g' hne => holders_insert_of_ne (by simp [hc, hne.symm])) ?_
    ⟨i, mem_owners.mpr ⟨Finset.mem_insert_self _ _, hc⟩⟩ (Int.add_one_le_of_lt hlt)
  calc guard.count + 1 = ((owners A s g).card + 1 : ℕ) := by rw [hcount]; push_cast; rfl
    _ = (owners (insert i A) s g).card := by rw [hcard]

/-- A new guard has one owner. -/
theorem counted_newGuard (h : Counted A s) (hc : (s.sockets i).guard = some g)
    (hg : s.heap g = none) (fd : ℤ) (serials : Addr → ℕ) (opened : List ℤ) :
    Counted (insert i A) { s with
      heap := Function.update s.heap g (some ⟨fd, 1⟩), serials := serials, opened := opened } := by
  have hempty : owners A s g = ∅ := holders_eq_empty fun j hj hjg => by
    obtain ⟨guard, hg'⟩ := h.live j hj g hjg
    rw [hg] at hg'; cases hg'
  have howners : owners (insert i A) s g = {i} := by
    have hins : owners (insert i A) s g = insert i (owners A s g) := holders_insert_of_eq hc
    rw [hins, hempty]; rfl
  refine h.setGuard rfl (fun g' hne => holders_insert_of_ne (by simp [hc, hne.symm])) ?_
    ⟨i, mem_owners.mpr ⟨Finset.mem_insert_self _ _, hc⟩⟩ (show (1 : ℤ) ≤ intMax by decide)
  calc (1 : ℤ) = (({i} : Finset ℕ).card : ℤ) := by simp
    _ = (owners (insert i A) s g).card := by rw [howners]

/-- An object that is not the last owner goes. -/
theorem counted_decrement (h : Counted A s) (hi : i ∈ A) (hc : (s.sockets i).guard = some g)
    (hg : s.heap g = some guard) (hne : owners A s g ≠ {i}) :
    Counted (A.erase i) { s with
      heap := Function.update s.heap g (some { guard with count := guard.count - 1 }) } := by
  have hcard : (owners (A.erase i) s g).card + 1 = (owners A s g).card :=
    card_holders_erase hi hc
  have hone : (owners A s g).card ≠ 1 := fun h1 => hne ((card_holders_eq_one hi hc).mp h1)
  have hcount := h.count g guard hg
  have hle := h.bounded g guard hg
  have hpos : 0 < (owners (A.erase i) s g).card := by omega
  refine h.setGuard rfl (fun g' hne => holders_erase_of_ne (by simp [hc, hne.symm])) ?_
    (Finset.card_pos.mp hpos) (show guard.count - 1 ≤ intMax by omega)
  show guard.count - 1 = ((owners (A.erase i) s g).card : ℤ)
  omega

/-- The last owner goes, and the guard with it. -/
theorem counted_deleteGuard (h : Counted A s) (hc : (s.sockets i).guard = some g)
    (heq : owners A s g = {i}) : Counted (A.erase i) (deleteGuard g guard s) := by
  have hempty : owners (A.erase i) s g = ∅ := by
    have her : owners (A.erase i) s g = (owners A s g).erase i := holders_erase
    rw [her, heq]; simp
  refine h.update (g := g) (fun g' hne => Function.update_of_ne hne _ _)
    (fun g' hne => holders_erase_of_ne (by simp [deleteGuard, hc, hne.symm])) ?_ ?_
  · intro guard' hg'
    simp [deleteGuard] at hg'
  · intro hnonempty
    exact absurd hempty hnonempty.ne_empty

/-! ### What the operations do -/

/-- A guard is alive exactly while it has an owner. -/
theorem Counted.alive_iff (h : Counted A s) :
    (∃ guard, s.heap g = some guard) ↔ (owners A s g).Nonempty := by
  constructor
  · rintro ⟨guard, hg⟩
    exact h.owned g guard hg
  · rintro ⟨i, hi⟩
    exact h.live i (mem_owners.mp hi).1 g (mem_owners.mp hi).2

theorem increment_fault_iff (h : Counted A s) : ∀ p : Option Addr,
    (∃ f, increment p s = .error (.fault f)) ↔
      match p with
      | none => True
      | some g => owners A s g = ∅ ∨ intMax ≤ (owners A s g).card
  | none => by simp [increment]
  | some g => by
    cases hg : s.heap g with
    | none =>
      have hempty : owners A s g = ∅ := by
        rw [← Finset.not_nonempty_iff_eq_empty, ← h.alive_iff, hg]
        simp
      simp [increment, hg, hempty]
    | some guard =>
      have hne : owners A s g ≠ ∅ := (h.owned g guard hg).ne_empty
      simp only [increment, hg, ← h.count g guard hg, hne, false_or]
      by_cases hlt : guard.count < intMax
      · rw [check_bind_of hlt]
        exact ⟨fun ⟨f, hf⟩ => (nomatch hf), fun hle => by omega⟩
      · simp only [check, if_neg hlt]
        exact ⟨fun _ => by omega, fun _ => ⟨.overflow, rfl⟩⟩

theorem increment_counted (h : Counted A s) (hr : Recorded s) (hi : i ∉ A)
    (hs : increment (s.sockets i).guard s = .ok s') :
    Counted (insert i A) s' ∧ Recorded s' ∧ s'.alive = s.alive ∧ s'.closed = s.closed := by
  cases hc : (s.sockets i).guard with
  | none => rw [hc] at hs; cases hs
  | some g =>
    cases hg : s.heap g with
    | none => simp [increment, hc, hg] at hs
    | some guard =>
      simp only [increment, hc, hg, check_bind_eq_ok] at hs
      obtain ⟨hlt, hs⟩ := hs
      cases hs
      exact ⟨counted_increment h hi hc hg hlt, recorded_setCount hr hg _, rfl, rfl⟩

/-- The destructor does not go wrong, and deletes what it should. -/
theorem destructor_counted (h : Counted s.alive s) (hr : Recorded s) (hi : i ∈ s.alive) :
    ∃ s', destructor i s = .ok s' ∧ Counted (s.alive.erase i) s' ∧ Recorded s' ∧
      s'.alive = s.alive ∧ s'.sockets = s.sockets ∧
      s'.closed = s.closed ++ closes s (.destroy i) := by
  cases hc : (s.sockets i).guard with
  | none =>
    refine ⟨s, by simp [destructor, hc], h.erase_of_none hc, hr, rfl, rfl, ?_⟩
    simp [closes, hc]
  | some g =>
    obtain ⟨guard, hg⟩ := h.live i hi g hc
    have hcount := h.count g guard hg
    have hone : guard.count - 1 = 0 ↔ owners s.alive s g = {i} := by
      have hcard : (owners s.alive s g).card = 1 ↔ owners s.alive s g = {i} :=
        card_holders_eq_one hi hc
      rw [← hcard]
      omega
    by_cases heq : owners s.alive s g = {i}
    · refine ⟨deleteGuard g guard s, ?_, counted_deleteGuard h hc heq,
        recorded_deleteGuard hr hg, rfl, rfl, ?_⟩
      · simp only [destructor, hc, hg]
        rw [if_pos (hone.mpr heq)]
        rfl
      · simp [closes, deleteGuard, hc, hg, heq]
    · refine ⟨_, ?_, counted_decrement h hi hc hg heq, recorded_setCount hr hg _, rfl, rfl, ?_⟩
      · simp only [destructor, hc, hg]
        rw [if_neg fun h0 => heq (hone.mp h0)]
      · simp [closes, hc, hg, heq]

/-- **What an operation keeps.** -/
theorem exec_counted {a : Act} (h : Counted s.alive s) (hr : Recorded s)
    (ha : exec s a = .ok s') :
    (Counted s'.alive s' ∧ Recorded s') ∧ s'.closed = s.closed ++ closes s a := by
  cases a with
  | construct i =>
    simp only [exec, construct, enable_bind_eq_ok] at ha
    obtain ⟨hi, ha⟩ := ha
    cases ha
    have hset := h.setSocket hi .default
    refine ⟨⟨(hset.insert_of_none ?_).setAlive _, ⟨hr.1, hr.2, hr.3, hr.4⟩⟩, ?_⟩
    · simp [ConnSocket.default]
    · simp [closes]
  | constructFrom i fd addr g =>
    simp only [exec, constructFrom, newGuard, enable_bind_eq_ok] at ha
    obtain ⟨hi, ha⟩ := ha
    obtain ⟨s₁, hs₁, ha⟩ := bind_eq_ok.mp ha
    obtain ⟨hg, hs₁⟩ := enable_bind_eq_ok.mp hs₁
    cases hs₁
    cases ha
    have hset := h.setSocket hi ⟨some g, addr⟩
    have hc : (({ s with sockets := Function.update s.sockets i ⟨some g, addr⟩ } : State).sockets
        i).guard = some g := by simp
    have hnew := recorded_newGuard hr hg fd
    refine ⟨⟨(counted_newGuard hset hc hg fd _ _).setAlive _, ⟨hnew.1, hnew.2, hnew.3, hnew.4⟩⟩, ?_⟩
    simp [closes]
  | copy i j =>
    simp only [exec, copy, enable_bind_eq_ok] at ha
    obtain ⟨⟨hi, hj⟩, ha⟩ := ha
    have hset := (h.setSocket hi (s.sockets j)).setAlive (insert i s.alive)
    obtain ⟨hcnt, hrec, halive, hclosed⟩ := increment_counted hset ⟨hr.1, hr.2, hr.3, hr.4⟩ hi
      (show increment _ _ = .ok s' by simpa using ha)
    refine ⟨⟨halive ▸ hcnt, hrec⟩, ?_⟩
    rw [hclosed]; simp [closes]
  | assign i j =>
    simp only [exec, assign, enable_bind_eq_ok] at ha
    obtain ⟨⟨hi, hj⟩, ha⟩ := ha
    obtain ⟨s₁, hs₁, hcnt, hrec, halive, hsockets, hclosed⟩ := destructor_counted h hr hi
    rw [hs₁] at ha
    have hni : i ∉ s.alive.erase i := Finset.notMem_erase _ _
    obtain ⟨hcnt', hrec', halive', hclosed'⟩ := increment_counted
      (hcnt.setSocket hni (s₁.sockets j)) ⟨hrec.1, hrec.2, hrec.3, hrec.4⟩ hni
      (show increment _ _ = .ok s' by simp only [Function.update_self]; exact ha)
    rw [Finset.insert_erase hi] at hcnt'
    refine ⟨⟨?_, hrec'⟩, ?_⟩
    · rw [halive', show _ = s.alive from halive]; exact hcnt'
    · rw [hclosed', show _ = s.closed ++ _ from hclosed]; rfl
  | destroy i =>
    simp only [exec, destroy, enable_bind_eq_ok] at ha
    obtain ⟨hi, ha⟩ := ha
    obtain ⟨s₁, hs₁, hcnt, hrec, halive, -, hclosed⟩ := destructor_counted h hr hi
    rw [hs₁] at ha
    cases ha
    refine ⟨⟨?_, ⟨hrec.1, hrec.2, hrec.3, hrec.4⟩⟩, hclosed⟩
    simp only [halive]
    exact hcnt.setAlive _

theorem fault_construct (i : ℕ) (f : Fault) : exec s (.construct i) ≠ .error (.fault f) :=
  enable_bind_ne_fault nofun

theorem fault_constructFrom (i : ℕ) (fd : ℤ) (addr : InetAddress) (f : Fault) :
    exec s (.constructFrom i fd addr g) ≠ .error (.fault f) := by
  refine enable_bind_ne_fault ?_
  by_cases hg : s.heap g = none
  · simp only [newGuard, enable_bind_of hg]
    exact nofun
  · simp only [newGuard, enable, if_neg hg]
    exact nofun

theorem fault_destroy (h : Counted s.alive s) (hr : Recorded s) (f : Fault) :
    exec s (.destroy i) ≠ .error (.fault f) := by
  intro hf
  obtain ⟨hi, hf⟩ := enable_bind_eq_fault.mp hf
  obtain ⟨s₁, hs₁, -⟩ := destructor_counted h hr hi
  rw [hs₁] at hf
  cases hf

theorem fault_copy (h : Counted s.alive s) {j : ℕ} :
    (∃ f, exec s (.copy i j) = .error (.fault f)) ↔ Unsafe s (.copy i j) := by
  simp only [exec, copy, enable_bind_eq_fault, exists_and_left, and_assoc, Unsafe]
  refine and_congr_right fun hi => and_congr_right fun hj => ?_
  have hset := (h.setSocket hi (s.sockets j)).setAlive (insert i s.alive)
  rw [increment_fault_iff hset]
  cases hc : (s.sockets j).guard with
  | none => rfl
  | some g =>
    -- the guard of `j` has an owner
    have hne : owners s.alive s g ≠ ∅ := Finset.ne_empty_of_mem (mem_owners.mpr ⟨hj, hc⟩)
    have how : owners s.alive { s with
        alive := insert i s.alive, sockets := Function.update s.sockets i (s.sockets j) } g =
        owners s.alive s g := owners_setSocket hi _
    simp only [how, hne, false_or]

theorem fault_assign (h : Counted s.alive s) (hr : Recorded s) {j : ℕ} :
    (∃ f, exec s (.assign i j) = .error (.fault f)) ↔ Unsafe s (.assign i j) := by
  simp only [exec, assign, enable_bind_eq_fault, exists_and_left, and_assoc, Unsafe]
  refine and_congr_right fun hi => and_congr_right fun hj => ?_
  obtain ⟨s₁, hs₁, hcnt, -, -, hsockets, -⟩ := destructor_counted h hr hi
  rw [hs₁]
  have hni : i ∉ s.alive.erase i := Finset.notMem_erase _ _
  have hset := hcnt.setSocket hni (s₁.sockets j)
  show (∃ f, increment (s₁.sockets j).guard _ = .error (.fault f)) ↔ _
  rw [increment_fault_iff hset, hsockets]
  cases hc : (s.sockets j).guard with
  | none => rfl
  | some g =>
    have how : owners (s.alive.erase i) { s₁ with
        sockets := Function.update s.sockets i (s.sockets j) } g =
        (owners s.alive s g).erase i := (owners_setSocket (s := s) hni _).trans holders_erase
    have hjo : j ∈ owners s.alive s g := mem_owners.mpr ⟨hj, hc⟩
    simp only [how]
    by_cases hci : (s.sockets i).guard = some g
    · -- one owner less than an `int` has counted
      have hio : i ∈ owners s.alive s g := mem_owners.mpr ⟨hi, hci⟩
      obtain ⟨guard, hg⟩ := h.live i hi g hci
      have hcount := h.count g guard hg
      have hle := h.bounded g guard hg
      have hcard := Finset.card_erase_add_one hio
      have hlt : ¬ intMax ≤ (((owners s.alive s g).erase i).card : ℤ) := by omega
      simp only [hlt, hci, ne_eq, not_true_eq_false, false_and, or_false]
      rw [Finset.erase_eq_empty_iff, or_iff_right (Finset.ne_empty_of_mem hio)]
      refine ⟨fun heq => ⟨?_, heq⟩, And.right⟩
      rw [heq, Finset.mem_singleton] at hjo
      exact hjo.symm
    · have hio : i ∉ owners s.alive s g := fun hm => hci (mem_owners.mp hm).2
      have hij : i ≠ j := fun hij => hci (hij ▸ hc)
      rw [Finset.erase_eq_of_notMem hio]
      simp [hij, hci, Finset.ne_empty_of_mem hjo]

/-- **What goes wrong.** -/
theorem exec_fault_iff {a : Act} (h : Counted s.alive s) (hr : Recorded s) :
    (∃ f, exec s a = .error (.fault f)) ↔ Unsafe s a := by
  cases a with
  | construct i => exact ⟨fun ⟨f, hf⟩ => absurd hf (fault_construct i f), False.elim⟩
  | constructFrom i fd addr g =>
    exact ⟨fun ⟨f, hf⟩ => absurd hf (fault_constructFrom i fd addr f), False.elim⟩
  | copy i j => exact fault_copy h
  | assign i j => exact fault_assign h hr
  | destroy i => exact ⟨fun ⟨f, hf⟩ => absurd hf (fault_destroy h hr f), False.elim⟩

end

/-! ### The runs -/

theorem run_counted {l : List Act} {s : State} (h : Run exec initial l s) :
    Counted s.alive s ∧ Recorded s :=
  Run.invariant_of (P := fun s => Counted s.alive s ∧ Recorded s) (A := fun _ => True)
    (fun _ _ _ ⟨hc, hr⟩ _ ha => (exec_counted hc hr ha).1) ⟨counted_initial, recorded_initial⟩
    (fun _ _ => trivial) h

/-- **The sockets are reference counted** along the operations `l` if and only if none of them is
`Unsafe`. -/
theorem refCounted_iff (l : List Act) : RefCounted l ↔ Safe l := by
  constructor
  · intro h l₁ a l₂ s hl hs hu
    obtain ⟨⟨hc, hr⟩, hnext⟩ := h l₁ (a :: l₂) s hl hs
    obtain ⟨f, hf⟩ := (exec_fault_iff hc hr).mpr hu
    exact (hnext a l₂ rfl).1 f hf
  · intro h l₁ l₂ s hl hs
    obtain ⟨hc, hr⟩ := run_counted hs
    refine ⟨⟨hc, hr⟩, ?_⟩
    rintro a l₃ rfl
    refine ⟨fun f hf => ?_, fun s' ha => (exec_counted hc hr ha).2⟩
    exact h l₁ a l₃ s hl hs ((exec_fault_iff hc hr).mp ⟨f, hf⟩)

/-! ### An object is assigned to itself -/

/-- An object with a guard of its own is assigned to itself: the guard is deleted, and counted. -/
theorem not_always_refCounted : ¬ ∀ l, RefCounted l := by
  intro h
  have hrun : Run exec initial [.constructFrom 0 5 0 16]
      (after exec initial [.constructFrom 0 5 0 16]) := run_after (by decide)
  obtain ⟨-, hnext⟩ := h [.constructFrom 0 5 0 16, .assign 0 0] [.constructFrom 0 5 0 16]
    [.assign 0 0] _ rfl hrun
  exact (hnext (.assign 0 0) [] rfl).1 .useAfterFree rfl

end ToolsCxx.Socket.Counts
