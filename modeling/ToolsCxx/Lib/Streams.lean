import Mathlib.Data.List.Basic
import Mathlib.Data.List.Induction
import Mathlib.Logic.Function.Basic
import Mathlib.Order.Lattice

/-! # Buffered streams on files

A stream is opened on a file in append mode. What is written to it is pending until the stream is
flushed or closed; then it is appended to the file.

`drain` is what the files will hold when the stream has been closed. Seen through it a write is an
append to the file (`drain_write`), and neither a flush nor a new stream changes anything
(`drain_flush`, `drain_opened`), even if the new one is on the same file. What many appends leave
is read off file by file (`appendAll_apply`). Files that are filled one after the other can be read
in the order of their names (`flatMap_of_sorted`). -/

namespace ToolsCxx.Lib.Streams

variable {ν α : Type} [DecidableEq ν]

/-- The contents of the files, by their names. A file that has not been made is empty. -/
abbrev Disk (ν α : Type) := ν → List α

/-- A text is appended to a file. -/
def Disk.append (name : ν) (text : List α) (d : Disk ν α) : Disk ν α :=
  Function.update d name (d name ++ text)

/-- The texts, one after the other, are appended to their files. -/
def Disk.appendAll (texts : List (ν × List α)) (d : Disk ν α) : Disk ν α :=
  texts.foldl (fun d p => d.append p.1 p.2) d

/-- A stream: its file, and the texts written to it that have not reached the file. -/
structure OStream (ν α : Type) where
  name : ν
  pending : List (List α)

namespace OStream

/-- A stream that has just been opened. -/
def opened (name : ν) : OStream ν α := ⟨name, []⟩

def write (text : List α) (s : OStream ν α) : OStream ν α :=
  { s with pending := s.pending ++ [text] }

/-- The stream after a flush. -/
def flushed (s : OStream ν α) : OStream ν α := { s with pending := [] }

/-- The files after a flush, or after the stream has been closed. -/
def drain (s : OStream ν α) (d : Disk ν α) : Disk ν α := d.append s.name s.pending.flatten

end OStream

variable {d : Disk ν α} {s : OStream ν α} {name : ν} {text : List α}

theorem append_self : d.append name text name = d name ++ text := Function.update_self _ _ _

theorem append_of_ne {name' : ν} (h : name' ≠ name) : d.append name text name' = d name' :=
  Function.update_of_ne h _ _

theorem append_nil : d.append name [] = d := by
  unfold Disk.append
  rw [List.append_nil, Function.update_eq_self]

theorem append_append {text' : List α} :
    (d.append name text).append name text' = d.append name (text ++ text') := by
  unfold Disk.append
  rw [Function.update_self, Function.update_idem, List.append_assoc]

theorem appendAll_snoc {texts : List (ν × List α)} {p : ν × List α} :
    d.appendAll (texts ++ [p]) = (d.appendAll texts).append p.1 p.2 := by
  unfold Disk.appendAll
  rw [List.foldl_append]
  rfl

/-- **A file after many appends**: the texts that were appended to it, in order. -/
theorem appendAll_apply (texts : List (ν × List α)) (d : Disk ν α) (name : ν) :
    d.appendAll texts name =
      d name ++ ((texts.filter (·.1 = name)).map Prod.snd).flatten := by
  induction texts using List.reverseRecOn with
  | nil => exact (List.append_nil _).symm
  | append_singleton texts p ih =>
    rw [appendAll_snoc, List.filter_append, List.map_append, List.flatten_append,
      ← List.append_assoc, ← ih]
    by_cases hp : p.1 = name
    · rw [hp, append_self, List.filter_cons_of_pos (by simpa using hp)]
      simp
    · rw [append_of_ne (Ne.symm hp), List.filter_cons_of_neg (by simpa using hp)]
      simp

/-! ### Seen through `drain` -/

theorem drain_write : (s.write text).drain d = (s.drain d).append s.name text := by
  unfold OStream.drain OStream.write
  rw [append_append, List.flatten_append, List.flatten_singleton]

theorem drain_opened : (OStream.opened name).drain d = d := append_nil

theorem drain_flush : s.flushed.drain (s.drain d) = s.drain d := append_nil

/-- The file holds a part of what it will hold. -/
theorem length_le_drain : (d name).length ≤ (s.drain d name).length := by
  unfold OStream.drain
  rcases eq_or_ne name s.name with rfl | hne
  · rw [append_self, List.length_append]
    exact Nat.le_add_right _ _
  · exact Nat.le_of_eq (congrArg List.length (append_of_ne hne)).symm

/-! ### Files that are filled one after the other -/

/-- **The files in the order of their names** hold the texts in the order they were appended in, if
the names they were appended under do not decrease. A name under which nothing was appended may be
left out. -/
theorem flatMap_of_sorted [LinearOrder ν] {texts : List (ν × List α)} {names : List ν}
    (htexts : (texts.map Prod.fst).Pairwise (· ≤ ·)) (hnames : names.Pairwise (· < ·))
    (hmem : ∀ p ∈ texts, p.2 ≠ [] → p.1 ∈ names) :
    names.flatMap (fun name => ((texts.filter (·.1 = name)).map Prod.snd).flatten) =
      (texts.map Prod.snd).flatten := by
  induction texts with
  | nil => simp
  | cons p texts ih =>
    obtain ⟨k, t⟩ := p
    rw [List.map_cons] at htexts
    obtain ⟨hle, htexts'⟩ := List.pairwise_cons.mp htexts
    have hrest := ih htexts' fun p hp => hmem p (List.mem_cons_of_mem _ hp)
    rw [List.map_cons, List.flatten_cons, ← hrest]
    have hself : (((⟨k, t⟩ :: texts).filter (·.1 = k)).map Prod.snd).flatten =
        t ++ ((texts.filter (·.1 = k)).map Prod.snd).flatten := by
      rw [List.filter_cons_of_pos (by simp)]
      rfl
    have hother : ∀ name, name ≠ k →
        (((⟨k, t⟩ :: texts).filter (·.1 = name)).map Prod.snd).flatten =
          ((texts.filter (·.1 = name)).map Prod.snd).flatten := fun name hne => by
      rw [List.filter_cons_of_neg (by simpa using Ne.symm hne)]
    by_cases ht : t = []
    · subst ht
      refine List.flatMap_congr fun name _ => ?_
      rcases eq_or_ne name k with rfl | hne
      · exact hself
      · exact hother name hne
    · -- the names before `k` are those of no text
      obtain ⟨before, after, rfl⟩ := List.append_of_mem (hmem ⟨k, t⟩ List.mem_cons_self ht)
      obtain ⟨-, hafter, hbefore⟩ := List.pairwise_append.mp hnames
      have hlt := (List.pairwise_cons.mp hafter).1
      have hnone : before.flatMap (fun name =>
          ((texts.filter (·.1 = name)).map Prod.snd).flatten) = [] := by
        rw [List.flatMap_eq_nil_iff]
        intro name hname
        have hfilter : texts.filter (·.1 = name) = [] := by
          rw [List.filter_eq_nil_iff]
          intro q hq heq
          have h1 := hle q.1 (List.mem_map_of_mem hq)
          have h2 := hbefore name hname k List.mem_cons_self
          rw [of_decide_eq_true heq] at h1
          exact absurd h1 (not_le.mpr h2)
        rw [hfilter]
        rfl
      have hcongr : ∀ l : List ν, (∀ name ∈ l, name ≠ k) → l.flatMap (fun name =>
          (((⟨k, t⟩ :: texts).filter (·.1 = name)).map Prod.snd).flatten) =
            l.flatMap fun name => ((texts.filter (·.1 = name)).map Prod.snd).flatten :=
        fun l hl => List.flatMap_congr fun name hname => hother name (hl name hname)
      rw [List.flatMap_append, List.flatMap_append, List.flatMap_cons, List.flatMap_cons, hself,
        hcongr before fun name hname => (hbefore name hname k List.mem_cons_self).ne,
        hcongr after fun name hname => (hlt name hname).ne', hnone, List.nil_append,
        List.nil_append, List.append_assoc]

end ToolsCxx.Lib.Streams
