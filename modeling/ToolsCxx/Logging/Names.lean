import ToolsCxx.Base.TimeText
import ToolsCxx.Logging.Rolling

/-! # `LogFile`: the names of the files

The name of a file has the second in which it was opened, in a text of fixed width, so that in a
time zone without daylight saving a later file has a later name, or the same one.

* `files_in_order`: if the clock does not go back, the files read in the order of their names are
  the records in the order of the calls. -/

namespace ToolsCxx.Logging.Names

open ToolsCxx.Base ToolsCxx.Base.TimeText ToolsCxx.Lib.Machine ToolsCxx.Lib.Streams
open ToolsCxx.Lib.FixedWidth ToolsCxx.Logging.File ToolsCxx.Logging.Rolling

variable {p : Process} {offset : ℤ} {t u now : Timestamp} {l : List Call} {a : Call} {f : LogFile}

/-- The names are ordered as the times are. -/
theorem getFileName_le (hp : p.localtime = localtime offset) (h : InRange offset t)
    (h' : InRange offset u) (hle : t ≤ u) : getFileName p t ≤ getFileName p u := by
  have hs : t.getSecondsSinceEpoch ≤ u.getSecondsSinceEpoch := by
    unfold Timestamp.getSecondsSinceEpoch
    rw [Int.tdiv_eq_ediv_of_nonneg h.valid, Int.tdiv_eq_ediv_of_nonneg h'.valid]
    exact Int.ediv_le_ediv (by decide) hle
  unfold getFileName
  rw [hp]
  rcases lt_or_eq_of_le hs with hlt | heq
  · have htext := formatted_seconds_lt h' h hlt
    have hlen : (Timestamp.toFormattedString (localtime offset) t).length =
        (Timestamp.toFormattedString (localtime offset) u).length := by
      rw [toFormattedString_eq h, toFormattedString_eq h']
      exact length_clockText _ _ _ _
    simp only [List.append_assoc]
    exact (append_lt_left (append_lt_left (append_lt hlen htext))).le
  · rw [formatted_seconds_eq h h' heq]

/-- The times at which the calls may open a new file. -/
def rolls (l : List Call) : List Timestamp :=
  l.filterMap fun
    | .append _ _ roll => some roll
    | _ => none

/-- The clock does not go back, and stays in the range of the names. -/
structure Forward (offset : ℤ) (now : Timestamp) (l : List Call) : Prop where
  sorted : (now :: rolls l).Pairwise (· ≤ ·)
  range : ∀ t ∈ now :: rolls l, InRange offset t

/-- **The names do not decrease**: those of the records, and that of the open file. -/
structure Named (p : Process) (offset : ℤ) (now : Timestamp) (l : List Call) (f : LogFile) :
    Prop where
  written : f.written.map Prod.snd = appended l
  files : destroy f = Disk.appendAll f.written fun _ => []
  sorted : (f.written.map Prod.fst).Pairwise (· ≤ ·)
  current : ∃ t ∈ now :: rolls l, f.fout.name = getFileName p t ∧
    ∀ name ∈ f.written.map Prod.fst, name ≤ f.fout.name

theorem rolls_snoc : rolls (l ++ [a]) = rolls l ++ rolls [a] := List.filterMap_append

theorem Forward.of_snoc (h : Forward offset now (l ++ [a])) : Forward offset now l := by
  have hmem : ∀ t ∈ now :: rolls l, t ∈ now :: rolls (l ++ [a]) := fun t ht => by
    rw [rolls_snoc]
    exact List.mem_append_left (rolls [a]) ht
  refine ⟨?_, fun t ht => h.range t (hmem t ht)⟩
  have hsorted := h.sorted
  rw [rolls_snoc, ← List.cons_append] at hsorted
  exact (List.pairwise_append.mp hsorted).1

/-- A call of `append` opens no file, or one with the time that it reads last. -/
theorem name_append (p : Process) (f : LogFile) (logLine : Record) (now roll : Timestamp) :
    (exec p f (.append logLine now roll)).fout.name = f.fout.name ∨
      (exec p f (.append logLine now roll)).fout.name = getFileName p roll := by
  have hcases := append_cases p f logLine now roll
  generalize exec p f (.append logLine now roll) = f' at hcases ⊢
  cases hcases with
  | tooLong => exact .inr rfl
  | roll => exact .inr rfl
  | flush => exact .inl rfl
  | keep => exact .inl rfl

theorem named_exec (hp : p.localtime = localtime offset) (hforward : Forward offset now (l ++ [a]))
    (h : Named p offset now l f) : Named p offset now (l ++ [a]) (exec p f a) := by
  obtain ⟨t, ht, hname, hle⟩ := h.current
  have hmem : ∀ t ∈ now :: rolls l, t ∈ now :: rolls (l ++ [a]) := fun t ht => by
    rw [rolls_snoc]
    exact List.mem_append_left (rolls [a]) ht
  obtain ⟨placed, hwritten, hplaced, hdestroy⟩ := destroy_exec p f a
  have hrecords : (exec p f a).written.map Prod.snd = appended (l ++ [a]) := by
    rw [hwritten, List.map_append, h.written, hplaced, appended_snoc]
  have hfiles : destroy (exec p f a) = Disk.appendAll (exec p f a).written fun _ => [] := by
    rw [hdestroy, h.files, hwritten]
    unfold Disk.appendAll
    rw [List.foldl_append]
  suffices h : ((exec p f a).written.map Prod.fst).Pairwise (· ≤ ·) ∧
      ∃ t ∈ now :: rolls (l ++ [a]), (exec p f a).fout.name = getFileName p t ∧
        ∀ name ∈ (exec p f a).written.map Prod.fst, name ≤ (exec p f a).fout.name from
    ⟨hrecords, hfiles, h.1, h.2⟩
  cases a with
  | flush | setCheckEveryN | setFlushInterval =>
    exact ⟨h.sorted, t, hmem t ht, hname, hle⟩
  | append logLine time roll =>
    have hroll : roll ∈ now :: rolls (l ++ [.append logLine time roll]) := by
      rw [rolls_snoc]
      exact List.mem_cons_of_mem _ (List.mem_append_right _ List.mem_cons_self)
    -- the open file is not later than a new one
    have hopen : f.fout.name ≤ (exec p f (.append logLine time roll)).fout.name := by
      rcases name_append p f logLine time roll with heq | heq
      · exact heq.ge
      · rw [heq, hname]
        have hsorted := hforward.sorted
        rw [rolls_snoc, ← List.cons_append] at hsorted
        have htroll := (List.pairwise_append.mp hsorted).2.2 t ht roll List.mem_cons_self
        exact getFileName_le hp (hforward.range t (hmem t ht)) (hforward.range roll hroll) htroll
    have hnames : (exec p f (.append logLine time roll)).written.map Prod.fst =
        f.written.map Prod.fst ++ [f.fout.name] := by
      rw [written_append, List.map_append]
      rfl
    rw [hnames]
    refine ⟨List.pairwise_append.mpr ⟨h.sorted, List.pairwise_singleton _ _, fun x hx y hy => ?_⟩,
      ?_⟩
    · rw [List.mem_singleton.mp hy]
      exact hle x hx
    · have hall : ∀ name ∈ f.written.map Prod.fst ++ [f.fout.name],
          name ≤ (exec p f (.append logLine time roll)).fout.name := fun name hn => by
        rcases List.mem_append.mp hn with hn | hn
        · exact (hle name hn).trans hopen
        · rw [List.mem_singleton.mp hn]
          exact hopen
      rcases name_append p f logLine time roll with heq | heq
      · exact ⟨t, hmem t ht, heq.trans hname, hall⟩
      · exact ⟨roll, hroll, heq, hall⟩

theorem named_run (hp : p.localtime = localtime offset) (hforward : Forward offset now l)
    (rollSize flushInterval checkEveryN : ℤ) :
    Named p offset now l
      (l.foldl (exec p) (create p rollSize flushInterval checkEveryN now fun _ => [])) := by
  have halways : Always (exec p) (fun _ _ => True)
      (create p rollSize flushInterval checkEveryN now fun _ => []) l :=
    always_of_forall (fun _ _ _ => trivial) _
  refine Always.induction
    (P := fun l f => Forward offset now l → Named p offset now l f) ?_ ?_ halways
    hforward
  · intro _
    exact ⟨rfl, drain_opened, .nil, now, List.mem_cons_self, rfl, nofun⟩
  · intro l f a ih _ hforward
    exact named_exec hp hforward (ih hforward.of_snoc)

/-- A file that is not empty has one of the names of the records. -/
theorem Named.mem_of_ne (h : Named p offset now l f) {name : Name} (hne : destroy f name ≠ []) :
    name ∈ f.written.map Prod.fst := by
  by_contra hmem
  refine hne ?_
  have hfilter : f.written.filter (·.1 = name) = [] := List.filter_eq_nil_iff.mpr fun r hr heq =>
    hmem (List.mem_map.mpr ⟨r, hr, of_decide_eq_true heq⟩)
  rw [h.files, appendAll_apply, hfilter]
  rfl

/-- **The files in the order of their names** are the records in the order of the calls, when the
`LogFile` has been destroyed, if the clock has not gone back. `names` are names in order, among them
those of the files that are not empty. -/
theorem files_in_order (hp : p.localtime = localtime offset) (hforward : Forward offset now l)
    {rollSize flushInterval checkEveryN : ℤ}
    (hf : l.foldl (exec p) (create p rollSize flushInterval checkEveryN now fun _ => []) = f)
    {names : List Name} (hnames : names.Pairwise (· < ·))
    (hall : ∀ name, destroy f name ≠ [] → name ∈ names) :
    names.flatMap (destroy f) = (appended l).flatten := by
  have hnamed : Named p offset now l f := hf ▸ named_run hp hforward _ _ _
  have hfiles : destroy f = fun name =>
      ((f.written.filter (·.1 = name)).map Prod.snd).flatten := by
    funext name
    rw [hnamed.files, appendAll_apply]
    rfl
  rw [← hnamed.written, hfiles]
  refine flatMap_of_sorted hnamed.sorted hnames fun r hr hne => hall r.1 fun hnil => hne ?_
  rw [hfiles, List.flatten_eq_nil_iff] at hnil
  refine hnil r.2 (List.mem_map_of_mem (List.mem_filter.mpr ⟨hr, ?_⟩))
  exact decide_eq_true rfl

/-- A process in Greenwich. -/
def greenwich : Process := { firstMinute with localtime := localtime 0 }

/-- Three records fill two files. -/
def threeLines : List Call :=
  [.append ['a', 'b', 'c', '\n'] 0 0, .append ['d', '\n'] 1000000 1000000,
    .append ['e', '\n'] 1000000 1000000]

theorem forward_threeLines : Forward 0 0 threeLines where
  sorted := by decide
  range := by
    have hrange : InRange 0 0 ∧ InRange 0 1000000 :=
      ⟨⟨by decide, by decide, by decide +kernel⟩, ⟨by decide, by decide, by decide +kernel⟩⟩
    show ∀ t ∈ ([0, 0, 1000000, 1000000] : List Timestamp), InRange 0 t
    simp [hrange]

theorem files_in_order_threeLines :
    [getFileName greenwich 0, getFileName greenwich 1000000].flatMap
        (destroy (threeLines.foldl (exec greenwich) (create greenwich 4 3 1024 0 fun _ => []))) =
      (appended threeLines).flatten := by
  have hnames : ∀ name ∈ (threeLines.foldl (exec greenwich)
      (create greenwich 4 3 1024 0 fun _ => [])).written.map Prod.fst,
      name ∈ [getFileName greenwich 0, getFileName greenwich 1000000] := by decide +kernel
  have hlocal : greenwich.localtime = localtime 0 := rfl
  exact files_in_order hlocal forward_threeLines rfl (by decide +kernel) fun name hne =>
    hnames name ((named_run rfl forward_threeLines 4 3 1024).mem_of_ne hne)

end ToolsCxx.Logging.Names
