import ToolsCxx.Lib.OrderedSet
import Mathlib.Logic.Function.Basic

/-! # Ordered maps

`OrdMap κ ν` maps the keys of an ordered set to values: what an ordered associative container shows
to a program that walks it while it writes and erases. That the keys are those of the entries is a
field.

* `find`, `set`, `erase`: an entry is found, written (or made), removed.
* `insertNew`: an entry is made, if there is none; `find_insertAll` is the map after many of them.
* `begin?`, `next?`: the walk; `next?_of_split` reads it off the list of the keys.
* `values`: the values in the order of their keys; `values_append`, `values_erase_perm`. -/

namespace ToolsCxx.Lib.OrderedMap

open ToolsCxx.Lib.OrderedSet

/-- A finite map with ordered keys. -/
structure OrdMap (κ ν : Type) [LinearOrder κ] where
  keys : OrdSet κ
  find : κ → Option ν
  domain : ∀ k, k ∈ keys ↔ (find k).isSome = true

namespace OrdMap

variable {κ ν : Type} [LinearOrder κ] {m : OrdMap κ ν} {k k' : κ} {v : ν}

instance : EmptyCollection (OrdMap κ ν) := ⟨⟨∅, fun _ => none, fun _ => by simp⟩⟩

/-- The map with `v` at `k`. -/
def set (k : κ) (v : ν) (m : OrdMap κ ν) : OrdMap κ ν where
  keys := m.keys.insert k
  find := Function.update m.find k (some v)
  domain k' := by
    rw [OrdSet.mem_insert, m.domain]
    rcases eq_or_ne k' k with rfl | hne
    · simp
    · simp [hne]

/-- The map without `k`. -/
def erase (k : κ) (m : OrdMap κ ν) : OrdMap κ ν where
  keys := m.keys.erase k
  find := Function.update m.find k none
  domain k' := by
    rw [OrdSet.mem_erase, m.domain]
    rcases eq_or_ne k' k with rfl | hne
    · simp
    · simp [hne]

/-- The map with `v` at `k`, unless there is an entry at `k`. -/
def insertNew (k : κ) (v : ν) (m : OrdMap κ ν) : OrdMap κ ν :=
  match m.find k with
  | some _ => m
  | none => m.set k v

/-- The first key. -/
def begin? (m : OrdMap κ ν) : Option κ := m.keys.begin?

/-- The key after `k`. -/
def next? (k : κ) (m : OrdMap κ ν) : Option κ := ((m.keys.above k).erase k).begin?

/-- The values, in the order of their keys. -/
def values (m : OrdMap κ ν) : List ν := m.keys.toList.filterMap m.find

/-! ### The entries -/

@[simp] theorem find_empty : (∅ : OrdMap κ ν).find k = none := rfl

@[simp] theorem keys_empty : (∅ : OrdMap κ ν).keys = ∅ := rfl

@[simp] theorem find_set_self : (m.set k v).find k = some v := Function.update_self _ _ _

theorem find_set_of_ne (h : k' ≠ k) : (m.set k v).find k' = m.find k' := Function.update_of_ne h _ _

@[simp] theorem find_erase_self : (m.erase k).find k = none := Function.update_self _ _ _

theorem find_erase_of_ne (h : k' ≠ k) : (m.erase k).find k' = m.find k' :=
  Function.update_of_ne h _ _

theorem mem_of_find (h : m.find k = some v) : k ∈ m.keys := (m.domain k).mpr (by rw [h]; rfl)

theorem exists_of_mem (h : k ∈ m.keys) : ∃ v, m.find k = some v :=
  Option.isSome_iff_exists.mp ((m.domain k).mp h)

theorem find_set_cases {w : ν} (h : (m.set k v).find k' = some w) :
    (k' = k ∧ w = v) ∨ (k' ≠ k ∧ m.find k' = some w) := by
  rcases eq_or_ne k' k with rfl | hne
  · rw [find_set_self] at h
    exact .inl ⟨rfl, (Option.some.inj h).symm⟩
  · exact .inr ⟨hne, find_set_of_ne (m := m) hne ▸ h⟩

theorem find_erase_cases {w : ν} (h : (m.erase k).find k' = some w) :
    k' ≠ k ∧ m.find k' = some w := by
  rcases eq_or_ne k' k with rfl | hne
  · rw [find_erase_self] at h; cases h
  · exact ⟨hne, find_erase_of_ne (m := m) hne ▸ h⟩

theorem find_insertNew (m : OrdMap κ ν) (k k' : κ) (v : ν) :
    (m.insertNew k v).find k' = (m.find k').or (if k' = k then some v else none) := by
  unfold insertNew
  cases hk : m.find k with
  | some w =>
    dsimp only
    split_ifs with h
    · rw [h, hk, Option.some_or]
    · rw [Option.or_none]
  | none =>
    dsimp only
    split_ifs with h
    · rw [h, find_set_self, hk, Option.none_or]
    · rw [find_set_of_ne h, Option.or_none]

/-- **Entries that are made in turn**: the first one with a key is kept. -/
theorem find_insertAll [BEq κ] [LawfulBEq κ] (l : List (κ × ν)) (m : OrdMap κ ν) (k : κ) :
    (l.foldl (fun m p => m.insertNew p.1 p.2) m).find k = (m.find k).or (l.lookup k) := by
  induction l generalizing m with
  | nil => exact Option.or_none.symm
  | cons p l ih =>
    rw [List.foldl_cons, ih, find_insertNew, Option.or_assoc, List.lookup_cons]
    by_cases h : k = p.1
    · rw [if_pos h, h, beq_self_eq_true, Option.some_or]
    · rw [if_neg h, beq_false_of_ne h, Option.none_or]

/-- If the keys are distinct, each entry is kept. -/
theorem lookup_eq_some_of_nodup [BEq κ] [LawfulBEq κ] {l : List (κ × ν)}
    (h : (l.map Prod.fst).Nodup) : l.lookup k = some v ↔ (k, v) ∈ l := by
  induction l with
  | nil => exact ⟨fun hx => (by cases hx), fun hx => absurd hx List.not_mem_nil⟩
  | cons p l ih =>
    rw [List.map_cons, List.nodup_cons] at h
    rw [List.lookup_cons, List.mem_cons]
    by_cases hk : k = p.1
    · have hno : (k, v) ∉ l := fun hx => h.1 (List.mem_map.mpr ⟨(k, v), hx, hk⟩)
      rw [hk, beq_self_eq_true]
      rw [hk] at hno
      constructor
      · intro hv
        exact .inl (Prod.ext rfl (Option.some.inj hv).symm)
      · rintro (hp | hx)
        · exact congrArg some (congrArg Prod.snd hp).symm
        · exact absurd hx hno
    · have hne : (k, v) ≠ p := fun hx => hk (congrArg Prod.fst hx)
      rw [beq_false_of_ne hk]
      exact (ih h.2).trans ⟨.inr, fun hx => hx.resolve_left hne⟩

/-! ### The keys -/

/-- Writing to an entry adds no key. -/
theorem keys_set_of_mem (h : k ∈ m.keys) : (m.set k v).keys = m.keys := dif_pos h

/-- A key above all others comes last. -/
theorem keys_set_of_lt (h : ∀ k' ∈ m.keys, k' < k) :
    (m.set k v).keys.toList = m.keys.toList ++ [k] := by
  have hnot : k ∉ m.keys := fun hk => lt_irrefl k (h k hk)
  have hnot' : k ∉ m.keys.toList := hnot
  show (m.keys.insert k).toList = _
  unfold OrdSet.insert
  rw [dif_neg hnot']
  have hall : ∀ l : List κ, (∀ k' ∈ l, k' < k) → l.orderedInsert (· ≤ ·) k = l ++ [k] := by
    intro l
    induction l with
    | nil => exact fun _ => rfl
    | cons k' l ih =>
      intro hl
      have hk' : ¬ k ≤ k' := not_le.mpr (hl k' List.mem_cons_self)
      rw [List.orderedInsert_cons, if_neg hk', ih fun x hx => hl x (List.mem_cons_of_mem _ hx)]
      rfl
  exact hall _ h

theorem keys_erase_of_split {l l' : List κ} (h : m.keys.toList = l ++ k :: l') :
    (m.erase k).keys.toList = l ++ l' := by
  have hn := m.keys.nodup
  rw [h] at hn
  have hk : k ∉ l := fun hk => (List.disjoint_of_nodup_append hn) hk List.mem_cons_self
  show m.keys.toList.erase k = _
  rw [h, List.erase_append_right _ hk, List.erase_cons_head]

/-! ### The walk -/

/-- The keys on the two sides of one. -/
theorem lt_of_split {l l' : List κ} (h : m.keys.toList = l ++ k :: l') :
    (∀ x ∈ l, x < k) ∧ ∀ x ∈ l', k < x := by
  have hp := m.keys.sorted.pairwise
  rw [h, List.pairwise_append, List.pairwise_cons] at hp
  exact ⟨fun x hx => hp.2.2 x hx k List.mem_cons_self, hp.2.1.1⟩

/-- The walk goes on with the key that follows in the list. -/
theorem next?_of_split {l l' : List κ} (h : m.keys.toList = l ++ k :: l') :
    m.next? k = l'.head? := by
  obtain ⟨hl, -⟩ := lt_of_split h
  have habove : (m.keys.above k).toList = k :: l' := by
    show m.keys.toList.dropWhile (· < k) = _
    rw [h, List.dropWhile_append_of_pos (fun x hx => decide_eq_true (hl x hx)),
      List.dropWhile_cons_of_neg (by simp)]
  show ((m.keys.above k).toList.erase k).head? = _
  rw [habove, List.erase_cons_head]

theorem exists_split (h : k ∈ m.keys) : ∃ l l', m.keys.toList = l ++ k :: l' :=
  List.append_of_mem h

/-! ### The values -/

@[simp] theorem values_empty : (∅ : OrdMap κ ν).values = [] := rfl

theorem filterMap_find_congr {l : List κ} {m' : OrdMap κ ν} (h : ∀ x ∈ l, m'.find x = m.find x) :
    l.filterMap m'.find = l.filterMap m.find :=
  List.filterMap_congr h

theorem values_append (h : ∀ k' ∈ m.keys, k' < k) : (m.set k v).values = m.values ++ [v] := by
  unfold values
  rw [keys_set_of_lt h, List.filterMap_append, List.filterMap_cons_some find_set_self,
    List.filterMap_nil, filterMap_find_congr (m := m) fun x hx => find_set_of_ne (h x hx).ne]

/-- Values that look the same through `f` may replace one another. -/
theorem map_values_set {β : Type} {f : ν → β} {w : ν} (h : m.find k = some w) (hf : f v = f w) :
    (m.set k v).values.map f = m.values.map f := by
  unfold values
  rw [keys_set_of_mem (mem_of_find h), List.map_filterMap, List.map_filterMap]
  refine List.filterMap_congr fun x _ => ?_
  rcases eq_or_ne x k with rfl | hne
  · rw [find_set_self, h, Option.map_some, Option.map_some, hf]
  · rw [find_set_of_ne hne]

theorem values_erase_perm (h : m.find k = some v) : m.values.Perm (v :: (m.erase k).values) := by
  obtain ⟨l, l', hs⟩ := exists_split (mem_of_find h)
  obtain ⟨hl, hl'⟩ := lt_of_split hs
  have hsame : ∀ x ∈ l ++ l', (m.erase k).find x = m.find x := fun x hx =>
    find_erase_of_ne
      ((List.mem_append.mp hx).elim (fun hx => (hl x hx).ne) fun hx => (hl' x hx).ne')
  unfold values
  rw [keys_erase_of_split hs, filterMap_find_congr hsame, hs]
  have hmiddle : (l ++ k :: l').Perm (k :: (l ++ l')) := List.perm_middle
  have hperm := hmiddle.filterMap m.find
  rwa [List.filterMap_cons_some h] at hperm

end OrdMap

end ToolsCxx.Lib.OrderedMap
