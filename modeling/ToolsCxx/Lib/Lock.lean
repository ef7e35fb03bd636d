import Mathlib.Logic.Function.Basic

/-! # A lock and the threads that hold it

`Guarded lock holds` says that the lock is held by the thread that is in a critical section, and by
no other: `holds t` is read off the program counter of the thread `t`. What an operation does to the
lock and to the program counters is one of `Guarded.acquire`, `Guarded.release` and `Guarded.congr`;
in between no two threads are in a critical section (`Guarded.unique`). -/

namespace ToolsCxx.Lib.Lock

variable {ι : Type} {lock : Option ι} {holds holds' : ι → Prop} {t : ι}

/-- **The lock is held by the thread in the critical section.** -/
def Guarded (lock : Option ι) (holds : ι → Prop) : Prop := ∀ t, holds t ↔ lock = some t

theorem Guarded.unique (h : Guarded lock holds) {u : ι} (ht : holds t) (hu : holds u) : u = t := by
  have h1 := (h t).mp ht
  have h2 := (h u).mp hu
  rw [h1] at h2
  exact (Option.some.inj h2).symm

theorem Guarded.free (h : Guarded none holds) (u : ι) : ¬ holds u := fun hu => by
  have := (h u).mp hu
  cases this

theorem Guarded.congr (h : Guarded lock holds) (hsame : ∀ u, holds' u ↔ holds u) :
    Guarded lock holds' := fun u => (hsame u).trans (h u)

theorem Guarded.acquire (h : Guarded none holds) (hsame : ∀ u, u ≠ t → (holds' u ↔ holds u))
    (ht : holds' t) : Guarded (some t) holds' := fun u => by
  by_cases hut : u = t
  · subst hut; simp [ht]
  · have hnot : ¬ holds' u := fun hu => h.free u ((hsame u hut).mp hu)
    simp [hnot, Ne.symm hut]

theorem Guarded.release (h : Guarded (some t) holds) (hsame : ∀ u, u ≠ t → (holds' u ↔ holds u))
    (ht : ¬ holds' t) : Guarded none holds' := fun u => by
  by_cases hut : u = t
  · subst hut; simp [ht]
  · have hnot : ¬ holds' u := fun hu => hut (by
      have := (h u).mp ((hsame u hut).mp hu)
      exact (Option.some.inj this).symm)
    simp [hnot]

end ToolsCxx.Lib.Lock
