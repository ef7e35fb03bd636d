import ToolsCxx.Logging.File

/-! # `LogFile`: what the files hold

`files_kept`: when the `LogFile` has been destroyed, every record is in the file that was open when
it was appended, once and whole, and the records of a file are in the order of the calls. The old
stream may still hold records of the file on which the new one is opened: nothing is pending in the
new one when they reach the file.

`files_bounded`: the size of the files. `m_writenBytes` counts what has been written to the stream,
which is what the file holds only if the file was empty when it was opened (`Sized`). A roll in the
same second as the last one opens the same file again, and the file may grow without a bound. -/

namespace ToolsCxx.Logging.Rolling

open ToolsCxx.Base ToolsCxx.Lib.Machine ToolsCxx.Lib.Streams ToolsCxx.Logging.File

variable {p : Process} {rollSize flushInterval checkEveryN : ℤ} {now : Timestamp}
  {disk disk' : Disk Name Char} {f : LogFile} {l : List Call} {a : Call}

/-! ### No record is lost -/

/-- **Every record is in one file**, once and whole, and the records of a file are in order. What
`disk` holds comes before them. -/
def Kept (l : List Call) (disk disk' : Disk Name Char) : Prop :=
  ∃ placed : List (Name × Record), placed.map Prod.snd = appended l ∧
    ∀ name, disk' name = disk name ++ ((placed.filter (·.1 = name)).map Prod.snd).flatten

/-- What a call adds to the history, and to the files. -/
theorem destroy_exec (p : Process) (f : LogFile) (a : Call) :
    ∃ placed : List (Name × Record), (exec p f a).written = f.written ++ placed ∧
      placed.map Prod.snd = appended [a] ∧
      destroy (exec p f a) = (destroy f).appendAll placed := by
  cases a with
  | append logLine now roll =>
    exact ⟨[(f.fout.name, logLine)], written_append, rfl, destroy_append⟩
  | flush => exact ⟨[], (List.append_nil _).symm, rfl, destroy_flush⟩
  | setCheckEveryN | setFlushInterval => exact ⟨[], (List.append_nil _).symm, rfl, rfl⟩

/-- **Rolling loses, duplicates, splits and reorders nothing.** -/
theorem files_kept (p : Process) (rollSize flushInterval checkEveryN : ℤ) (now : Timestamp)
    (disk : Disk Name Char) (l : List Call) :
    Kept l disk
      (destroy (l.foldl (exec p) (create p rollSize flushInterval checkEveryN now disk))) := by
  have hstep : ∀ l f a, (f.written.map Prod.snd = appended l ∧
      destroy f = disk.appendAll f.written) → True →
      (exec p f a).written.map Prod.snd = appended (l ++ [a]) ∧
        destroy (exec p f a) = disk.appendAll (exec p f a).written := by
    rintro l f a ⟨hwritten, hdisk⟩ -
    obtain ⟨placed, hw, hplaced, hd⟩ := destroy_exec p f a
    constructor
    · rw [hw, List.map_append, hwritten, hplaced, appended_snoc]
    · rw [hd, hdisk, hw]
      unfold Disk.appendAll
      rw [List.foldl_append]
  have halways : Always (exec p) (fun _ _ => True)
      (create p rollSize flushInterval checkEveryN now disk) l :=
    always_of_forall (fun _ _ _ => trivial) _
  have hcreate : destroy (create p rollSize flushInterval checkEveryN now disk) = disk :=
    drain_opened
  have hrun := Always.induction
    (P := fun l f => f.written.map Prod.snd = appended l ∧ destroy f = disk.appendAll f.written)
    ⟨rfl, hcreate⟩ hstep halways
  exact ⟨_, hrun.1, fun name => by rw [hrun.2, appendAll_apply]⟩

/-! ### The size of the files -/

/-- The length of the longest record. -/
def longest (l : List Call) : ℕ := ((appended l).map List.length).foldr max 0

theorem longest_snoc (l : List Call) (a : Call) :
    longest (l ++ [a]) = max (longest l) (longest [a]) := by
  have hfoldr : ∀ (l : List ℕ) (m : ℕ), l.foldr max m = max (l.foldr max 0) m := by
    intro l m
    induction l with
    | nil => exact (Nat.zero_max m).symm
    | cons n l ih => rw [List.foldr_cons, List.foldr_cons, ih, max_assoc]
  unfold longest
  rw [appended_snoc, List.map_append, List.foldr_append, hfoldr]

/-- **No file is longer** than the roll size and the longest record. -/
def Bounded (rollSize : ℤ) (l : List Call) (disk : Disk Name Char) : Prop :=
  ∀ name, ((disk name).length : ℤ) ≤ rollSize + longest l

/-- If the call opens a new stream, then on a file to which nothing has been written. -/
def OpensEmpty (p : Process) (f : LogFile) : Call → Prop
  | .append logLine now roll =>
    Rolls f logLine now → destroy (f.write logLine) (getFileName p roll) = []
  | _ => True

/-- **The counter is that of the file** the stream is on, and no file is too long. -/
structure Sized (rollSize : ℤ) (l : List Call) (f : LogFile) : Prop where
  size : f.rollSize = rollSize
  current : ((destroy f f.fout.name).length : ℤ) = f.writenBytes
  fits : f.writenBytes ≤ rollSize
  files : Bounded rollSize l (destroy f)

/-- The record fits. -/
theorem Sized.write (h : Sized rollSize l f) {logLine : Record} {now roll : Timestamp}
    (hfits : ¬ TooLong f logLine) :
    Sized rollSize (l ++ [.append logLine now roll]) (f.write logLine) := by
  have hlen : ((destroy (f.write logLine) f.fout.name).length : ℤ) =
      f.writenBytes + logLine.length := by
    rw [destroy_write, append_self, List.length_append, Nat.cast_add, h.current]
  have hsize : f.writenBytes + logLine.length ≤ rollSize := h.size ▸ not_lt.mp hfits
  refine ⟨h.size, hlen, hsize, fun name => ?_⟩
  rw [longest_snoc]
  rcases eq_or_ne name f.fout.name with rfl | hne
  · omega
  · rw [destroy_write, append_of_ne hne]
    have := h.files name
    omega

/-- A new stream, on an empty file. -/
theorem Sized.opened (h : ∀ name, ((destroy f name).length : ℤ) ≤ rollSize + longest l)
    (hsize : f.rollSize = rollSize) (hpos : 0 < rollSize) {roll : Timestamp}
    (hempty : destroy f (getFileName p roll) = []) : Sized rollSize l (rollFile p roll f) where
  size := hsize
  current := by
    rw [destroy_rollFile]
    exact congrArg (fun t : List Char => (t.length : ℤ)) hempty
  fits := hpos.le
  files := by rw [destroy_rollFile]; exact h

/-- The members that `flush` and `append` set do not matter. -/
theorem Sized.congr (h : Sized rollSize l f) {f' : LogFile} (hsize : f'.rollSize = f.rollSize)
    (hname : f'.fout.name = f.fout.name) (hd : destroy f' = destroy f)
    (hw : f'.writenBytes = f.writenBytes) : Sized rollSize l f' :=
  ⟨hsize.trans h.size, by rw [hd, hname, hw]; exact h.current, hw ▸ h.fits,
    hd ▸ h.files⟩

theorem sized_exec (hpos : 0 < rollSize) (h : Sized rollSize l f) (ha : OpensEmpty p f a) :
    Sized rollSize (l ++ [a]) (exec p f a) := by
  have hother : appended [a] = [] → Sized rollSize (l ++ [a]) f := fun hno => by
    refine ⟨h.size, h.current, h.fits, fun name => ?_⟩
    have := h.files name
    rw [longest_snoc]
    omega
  cases a with
  | flush => exact (hother rfl).congr rfl rfl destroy_flush rfl
  | setCheckEveryN | setFlushInterval => exact (hother rfl).congr rfl rfl rfl rfl
  | append logLine now roll =>
    have hcases := append_cases p f logLine now roll
    generalize exec p f (.append logLine now roll) = f' at hcases ⊢
    cases hcases with
    | tooLong hlong =>
      refine Sized.opened (f := f.write logLine) (fun name => ?_) h.size hpos (ha (Or.inl hlong))
      -- the file that has become too long was not, before this record
      have hname := h.files name
      have hrecord : longest [.append logLine now roll] = logLine.length := Nat.max_zero _
      have hcurrent := h.current
      have hsize := h.fits
      rw [longest_snoc, hrecord, destroy_write]
      rcases eq_or_ne name f.fout.name with rfl | hne
      · rw [append_self, List.length_append]
        push_cast
        omega
      · rw [append_of_ne hne]
        omega
    | roll hfits hd hp =>
      have hw : Sized rollSize (l ++ [.append logLine now roll]) (f.write logLine) := h.write hfits
      have hopen : Sized rollSize _ (rollFile p roll (f.write logLine)) :=
        Sized.opened hw.files hw.size hpos (ha (Or.inr ⟨hd, hp⟩))
      exact hopen.congr rfl rfl (by
        rw [destroy_flush, destroy_rollFile]; exact destroy_rollFile) rfl
    | flush hfits hd hp => exact (h.write hfits).congr rfl rfl destroy_flush rfl
    | keep hfits hd => exact (h.write hfits).congr rfl rfl rfl rfl

/-- **Log files respect the roll size**, if every stream is opened on an empty file: at any time,
and when the `LogFile` has been destroyed. -/
theorem files_bounded (hpos : 0 < rollSize)
    (h : Always (exec p) (OpensEmpty p)
      (create p rollSize flushInterval checkEveryN now fun _ => []) l)
    (hf : l.foldl (exec p) (create p rollSize flushInterval checkEveryN now fun _ => []) = f) :
    Bounded rollSize l f.disk ∧ Bounded rollSize l (destroy f) := by
  have hempty : ∀ name,
      destroy (create p rollSize flushInterval checkEveryN now fun _ => []) name = [] :=
    fun name => congrFun drain_opened name
  have h0 : Sized rollSize []
      (create p rollSize flushInterval checkEveryN now fun _ => []) := by
    refine ⟨rfl, congrArg (fun t : List Char => (t.length : ℤ)) (hempty _), hpos.le, fun name => ?_⟩
    rw [hempty]
    show ((0 : ℕ) : ℤ) ≤ rollSize + (0 : ℕ)
    omega
  have hfiles := (Always.induction (P := Sized rollSize) h0 (fun _ _ _ => sized_exec hpos) h).files
  rw [hf] at hfiles
  exact ⟨fun name => le_trans (Int.ofNat_le.mpr length_le_drain) (hfiles name), hfiles⟩

/-- A process that runs in the first minute of the epoch. -/
def firstMinute : Process where
  basename := ['a']
  hostname := ['h']
  pidString := ['1']
  localtime t := ⟨70, 0, 1, 0, 0, t⟩

/-- The second record makes the file too long, one second after it was opened. -/
def nextSecond : List Call :=
  [.append ['a', 'b', 'c'] 0 1000000, .append ['d', 'e', '\n'] 1000000 1000000]

theorem files_bounded_nextSecond : Bounded 4 nextSecond (destroy
    (nextSecond.foldl (exec firstMinute) (create firstMinute 4 3 1024 0 fun _ => []))) := by
  have hopens : Always (exec firstMinute) (OpensEmpty firstMinute)
      (create firstMinute 4 3 1024 0 fun _ => []) nextSecond :=
    ⟨fun _ => by decide +kernel, fun _ => by decide +kernel, trivial⟩
  exact (files_bounded (by decide) hopens rfl).2

/-- Three records of two characters each make the file too long, in the same second. -/
def sameSecond : List Call := List.replicate 3 (.append ['a', '\n'] 0 0)

/-- They are all in one file. -/
theorem not_always_bounded : ¬ Bounded 1 sameSecond (destroy
    (sameSecond.foldl (exec firstMinute) (create firstMinute 1 3 1024 0 fun _ => []))) := by
  intro h
  have hname := h (getFileName firstMinute 0)
  revert hname
  decide +kernel

end ToolsCxx.Logging.Rolling
