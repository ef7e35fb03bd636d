import ToolsCxx.Lib.LastIndex
import ToolsCxx.Logging.Names

/-! # `LogFile`: a directory of several processes

The processes of one machine may log into one directory, with the same base name. Each has a
`LogFile`, from its creation to its destruction, and may make another one afterwards; their calls
come in any order. The name of a file ends with the process id, so no file is of two processes
(`owner_unique`).

* `Kept`: what holds of the directory, seen through the stream of each process.
* `records_apart`: the records of a process are in its files, as if it were alone, and the other
  files are as they were. -/

namespace ToolsCxx.Logging.Directory

open ToolsCxx.Base ToolsCxx.Lib.Machine ToolsCxx.Lib.Streams ToolsCxx.Lib.Numerals
open ToolsCxx.Lib.LastIndex ToolsCxx.Logging.File

/-! ### The names of the files -/

/-- The name is that of a file of the process. -/
def Owner (p : Process) (name : Name) : Prop := ∃ now, name = getFileName p now

/-- The last field of a name is the process id. -/
theorem pid_unique {pid pid' : ℕ} {l l' : List Char}
    (h : l ++ ['.'] ++ numeral 10 Nat.digitChar pid =
      l' ++ ['.'] ++ numeral 10 Nat.digitChar pid') : pid = pid' := by
  have hdot : ∀ n, '.' ∉ numeral 10 Nat.digitChar n := fun n hmem => by
    have hdigit : ∀ k < 10, Nat.digitChar k ≠ '.' := by decide
    obtain ⟨k, hk, heq⟩ := mem_numeral (by decide) hmem
    exact hdigit k hk heq.symm
  have hvalue : ∀ k < 10, some ((Nat.digitChar k).toNat - 48) = some k := by decide
  rw [List.append_assoc, List.append_assoc] at h
  have hsplit := (splitLast_append (hdot pid)).symm.trans
    ((congrArg (splitLast '.') h).trans (splitLast_append (hdot pid')))
  exact @numeral_inj Char 10 Nat.digitChar (fun c => some (c.toNat - 48)) (by decide) hvalue _ _
    (congrArg Prod.snd (Option.some.inj hsplit))

section
variable {ι : Type} {p : ι → Process} {i j : ι} {f : LogFile} {name : Name}

/-- **A file has one owner.** -/
theorem owner_unique {pid : ι → ℕ} (hinj : Function.Injective pid)
    (hpid : ∀ i, (p i).pidString = numeral 10 Nat.digitChar (pid i)) (hi : Owner (p i) name)
    (hj : Owner (p j) name) : i = j := by
  obtain ⟨t, rfl⟩ := hi
  obtain ⟨u, heq⟩ := hj
  unfold getFileName at heq
  rw [hpid, hpid] at heq
  exact hinj (pid_unique (List.append_cancel_right heq))

/-! ### A call -/

theorem owner_exec {p : Process} (h : Owner p f.fout.name) (c : Call) :
    Owner p (File.exec p f c).fout.name := by
  cases c with
  | append logLine now roll =>
    rcases Names.name_append p f logLine now roll with heq | heq
    · rwa [heq]
    · exact ⟨roll, heq⟩
  | flush | setCheckEveryN | setFlushInterval => exact h

/-- A call writes to the file that is open when it begins. -/
theorem disk_exec_of_ne (p : Process) (c : Call) (hne : name ≠ f.fout.name) :
    (File.exec p f c).disk name = f.disk name := by
  have hdrain : ∀ g : LogFile, g.fout.name = f.fout.name → g.disk = f.disk →
      g.fout.drain g.disk name = f.disk name := fun g hname hdisk => by
    rw [← hname] at hne
    rw [← hdisk]
    exact append_of_ne hne
  cases c with
  | append logLine now roll =>
    have hcases := append_cases p f logLine now roll
    generalize File.exec p f (.append logLine now roll) = f' at hcases ⊢
    cases hcases with
    | tooLong => exact hdrain (f.write logLine) rfl rfl
    | roll =>
      -- nothing is pending in the new stream
      exact (congrFun drain_opened name).trans (hdrain (f.write logLine) rfl rfl)
    | flush => exact hdrain (f.write logLine) rfl rfl
    | keep => rfl
  | flush => exact hdrain f rfl rfl
  | setCheckEveryN | setFlushInterval => rfl

/-- Seen through the stream, it appends its record to that file. -/
theorem placed_exec (p : Process) (f : LogFile) (c : Call) :
    ∃ placed : List (Name × Record), placed.map Prod.snd = appended [c] ∧
      (∀ r ∈ placed, r.1 = f.fout.name) ∧
        destroy (File.exec p f c) = (destroy f).appendAll placed := by
  cases c with
  | append logLine now roll =>
    exact ⟨[(f.fout.name, logLine)], rfl, fun r hr => by rw [List.mem_singleton.mp hr],
      destroy_append⟩
  | flush => exact ⟨[], rfl, nofun, destroy_flush⟩
  | setCheckEveryN | setFlushInterval => exact ⟨[], rfl, nofun, rfl⟩

end

/-! ### The processes -/

structure State (ι : Type) where
  disk : Disk Name Char
  -- the `LogFile` of each process, if it has one; what it says of the directory may be out of date
  files : ι → Option LogFile

def initial {ι : Type} (disk : Disk Name Char) : State ι := ⟨disk, fun _ => none⟩

inductive Act (ι : Type) where
  | create (i : ι) (rollSize flushInterval checkEveryN : ℤ) (now : Timestamp)
  | call (i : ι) (c : Call)
  | destroy (i : ι)

/-- The directory as it will be when the process has destroyed its `LogFile`. -/
def through {ι : Type} (s : State ι) (i : ι) : Disk Name Char :=
  match s.files i with
  | none => s.disk
  | some f => f.fout.drain s.disk

section
variable {ι : Type} {s s' : State ι} {i : ι} {f : LogFile} {name : Name}

theorem through_of_none (h : s.files i = none) : through s i = s.disk := by
  unfold through
  rw [h]

theorem through_of_some (h : s.files i = some f) :
    through s i = destroy { f with disk := s.disk } := by
  unfold through
  rw [h]
  rfl

theorem through_congr (hfiles : s'.files i = s.files i) (hdisk : s'.disk name = s.disk name) :
    through s' i name = through s i name := by
  unfold through
  rw [hfiles]
  cases s.files i with
  | none => exact hdisk
  | some f =>
    show f.fout.drain s'.disk name = f.fout.drain s.disk name
    unfold OStream.drain
    rcases eq_or_ne name f.fout.name with rfl | hne
    · rw [append_self, append_self, hdisk]
    · rw [append_of_ne hne, append_of_ne hne, hdisk]

end

section
variable {ι : Type} [DecidableEq ι] (p : ι → Process)

/-- What an action does. -/
def exec (s : State ι) : Act ι → Except (Halt Empty) (State ι)
  | .create i rollSize flushInterval checkEveryN now =>
    match s.files i with
    | some _ => .error .disabled
    | none =>
      let f := File.create (p i) rollSize flushInterval checkEveryN now s.disk
      .ok { s with files := Function.update s.files i (some f) }
  | .call i c =>
    match s.files i with
    | none => .error .disabled
    | some f =>
      let f' := File.exec (p i) { f with disk := s.disk } c
      .ok { disk := f'.disk, files := Function.update s.files i (some f') }
  | .destroy i =>
    match s.files i with
    | none => .error .disabled
    | some f =>
      .ok { disk := File.destroy { f with disk := s.disk }
            files := Function.update s.files i none }

/-- The steps of the processes. -/
inductive Step (s : State ι) : Act ι → State ι → Prop where
  | create {i : ι} {rollSize flushInterval checkEveryN : ℤ} {now : Timestamp}
    (hi : s.files i = none) :
    Step s (.create i rollSize flushInterval checkEveryN now) { s with
      files := Function.update s.files i
        (some (File.create (p i) rollSize flushInterval checkEveryN now s.disk)) }
  | call {i : ι} {c : Call} {f : LogFile} (hi : s.files i = some f) :
    Step s (.call i c) {
      disk := (File.exec (p i) { f with disk := s.disk } c).disk
      files := Function.update s.files i (some (File.exec (p i) { f with disk := s.disk } c)) }
  | destroy {i : ι} {f : LogFile} (hi : s.files i = some f) :
    Step s (.destroy i) {
      disk := File.destroy { f with disk := s.disk }
      files := Function.update s.files i none }

variable {p}

theorem exec_step {s s' : State ι} {a : Act ι} (h : exec p s a = .ok s') : Step p s a s' := by
  cases a with
  | create i =>
    cases hi : s.files i with
    | none =>
      simp only [exec, hi] at h
      cases h
      exact .create hi
    | some f =>
      simp only [exec, hi] at h
      cases h
  | call i c =>
    cases hi : s.files i with
    | none =>
      simp only [exec, hi] at h
      cases h
    | some f =>
      simp only [exec, hi] at h
      cases h
      exact .call hi
  | destroy i =>
    cases hi : s.files i with
    | none =>
      simp only [exec, hi] at h
      cases h
    | some f =>
      simp only [exec, hi] at h
      cases h
      exact .destroy hi

/-- The calls of a process. -/
def callsOf (i : ι) (l : List (Act ι)) : List Call :=
  l.filterMap fun
    | .call j c => if j = i then some c else none
    | _ => none

variable {s s' : State ι} {i j : ι} {l : List (Act ι)} {a : Act ι} {disk : Disk Name Char}

theorem callsOf_snoc : callsOf i (l ++ [a]) = callsOf i l ++ callsOf i [a] :=
  List.filterMap_append

theorem callsOf_call {c : Call} : callsOf i [.call j c] = if j = i then [c] else [] := by
  unfold callsOf
  split_ifs with h
  · exact List.filterMap_cons_some (if_pos h)
  · exact List.filterMap_cons_none (if_neg h)

/-! ### The directory -/

/-- **What the directory holds** that held `disk` before the actions. -/
structure Kept (p : ι → Process) (disk : Disk Name Char) (l : List (Act ι)) (s : State ι) :
    Prop where
  current : ∀ i f, s.files i = some f → Owner (p i) f.fout.name
  records : ∀ i, ∃ placed : List (Name × Record), placed.map Prod.snd = appended (callsOf i l) ∧
    (∀ r ∈ placed, Owner (p i) r.1) ∧
      ∀ name, Owner (p i) name → through s i name = disk.appendAll placed name
  others : ∀ name, (∀ i, ¬ Owner (p i) name) → s.disk name = disk name

theorem kept_initial : Kept p disk [] (initial disk) where
  current _ _ h := by cases h
  records i := ⟨[], rfl, nofun, fun _ _ => rfl⟩
  others _ _ := rfl

/-- An action of the process `j` that appends `placed` to its files. -/
theorem Kept.step (h : Kept p disk l s)
    (hunique : ∀ {i j name}, Owner (p i) name → Owner (p j) name → i = j)
    (hfiles : ∀ i, i ≠ j → s'.files i = s.files i) (hcalls : ∀ i, i ≠ j → callsOf i [a] = [])
    (hdisk : ∀ name, ¬ Owner (p j) name → s'.disk name = s.disk name)
    (hcurrent : ∀ f, s'.files j = some f → Owner (p j) f.fout.name)
    {placed : List (Name × Record)} (hplaced : placed.map Prod.snd = appended (callsOf j [a]))
    (howner : ∀ r ∈ placed, Owner (p j) r.1)
    (hthrough : through s' j = (through s j).appendAll placed) : Kept p disk (l ++ [a]) s' where
  current i f hf := by
    rcases eq_or_ne i j with rfl | hne
    · exact hcurrent f hf
    · rw [hfiles i hne] at hf
      exact h.current i f hf
  records i := by
    obtain ⟨old, hold, holdOwner, hrecords⟩ := h.records i
    rcases eq_or_ne i j with rfl | hne
    · refine ⟨old ++ placed, ?_, fun r hr => (List.mem_append.mp hr).elim (holdOwner r) (howner r),
        fun name hname => ?_⟩
      · rw [List.map_append, hold, hplaced, callsOf_snoc]
        exact List.filterMap_append.symm
      · rw [hthrough, appendAll_apply, hrecords name hname, ← appendAll_apply]
        unfold Disk.appendAll
        rw [List.foldl_append]
    · refine ⟨old, ?_, holdOwner, fun name hname => ?_⟩
      · rw [hold, callsOf_snoc, hcalls i hne, List.append_nil]
      · rw [← hrecords name hname]
        exact through_congr (hfiles i hne) (hdisk name fun hj => hne (hunique hname hj))
  others name hname := (hdisk name (hname j)).trans (h.others name hname)

/-- An action that appends nothing. -/
theorem Kept.step_nil (h : Kept p disk l s)
    (hunique : ∀ {i j name}, Owner (p i) name → Owner (p j) name → i = j)
    (hfiles : ∀ i, i ≠ j → s'.files i = s.files i) (hcalls : ∀ i, callsOf i [a] = [])
    (hdisk : ∀ name, ¬ Owner (p j) name → s'.disk name = s.disk name)
    (hcurrent : ∀ f, s'.files j = some f → Owner (p j) f.fout.name)
    (hthrough : through s' j = through s j) : Kept p disk (l ++ [a]) s' := by
  have hplaced : ([] : List (Name × Record)).map Prod.snd = appended (callsOf j [a]) := by
    rw [hcalls]
    rfl
  exact h.step hunique hfiles (fun i _ => hcalls i) hdisk hcurrent hplaced nofun hthrough

theorem kept_step (h : Kept p disk l s)
    (hunique : ∀ {i j name}, Owner (p i) name → Owner (p j) name → i = j)
    (hs : Step p s a s') : Kept p disk (l ++ [a]) s' := by
  have hother : ∀ {j : ι} {f : Option LogFile} (i : ι), i ≠ j →
      Function.update s.files j f i = s.files i := fun _ hne => Function.update_of_ne hne _ _
  cases hs with
  | @create j rollSize flushInterval checkEveryN now hj =>
    have hself := Function.update_self j
      (some (File.create (p j) rollSize flushInterval checkEveryN now s.disk)) s.files
    refine h.step_nil hunique hother (fun _ => rfl) (fun _ _ => rfl) (fun f hf => ?_) ?_
    · cases hself.symm.trans hf
      exact ⟨now, rfl⟩
    · rw [through_of_some hself, through_of_none hj]
      exact drain_opened
  | @call j c f hj =>
    have howner : Owner (p j) ({ f with disk := s.disk } : LogFile).fout.name := h.current j f hj
    have hself := Function.update_self j
      (some (File.exec (p j) { f with disk := s.disk } c)) s.files
    obtain ⟨placed, hplaced, hname, hdestroy⟩ := placed_exec (p j) { f with disk := s.disk } c
    refine h.step hunique hother (fun i hne => ?_) (fun name hno => ?_) (fun f' hf => ?_)
      (hplaced.trans ?_) (fun r hr => ?_) ?_
    · rw [callsOf_call, if_neg hne.symm]
    · exact disk_exec_of_ne (p j) c fun heq => hno (heq ▸ howner)
    · cases hself.symm.trans hf
      exact owner_exec howner c
    · rw [callsOf_call, if_pos rfl]
    · rw [hname r hr]
      exact howner
    · rw [through_of_some hself, through_of_some hj, ← hdestroy]
  | @destroy j f hj =>
    have hself := Function.update_self j none s.files
    refine h.step_nil hunique hother (fun _ => rfl) (fun name hno => ?_) (fun f' hf => ?_) ?_
    · exact append_of_ne fun heq => hno (heq ▸ h.current j f hj)
    · cases hself.symm.trans hf
    · rw [through_of_none hself, through_of_some hj]

/-- **The records of the processes are kept apart.** In every run of processes with different ids,
each record is in a file of the process that has logged it, once and whole, and the records of a
file are in the order of the calls, seen through the stream if the process still has one; no file
is of two processes, and a file of none is as it was. -/
theorem records_apart {pid : ι → ℕ} (hinj : Function.Injective pid)
    (hpid : ∀ i, (p i).pidString = numeral 10 Nat.digitChar (pid i))
    (hr : Run (exec p) (initial disk) l s) :
    (∀ i, ∃ placed : List (Name × Record), placed.map Prod.snd = appended (callsOf i l) ∧
      (∀ r ∈ placed, Owner (p i) r.1) ∧ ∀ name, Owner (p i) name → through s i name =
        disk name ++ ((placed.filter (·.1 = name)).map Prod.snd).flatten) ∧
    (∀ i j name, Owner (p i) name → Owner (p j) name → i = j) ∧
    ∀ name, (∀ i, ¬ Owner (p i) name) → s.disk name = disk name := by
  have hunique : ∀ {i j name}, Owner (p i) name → Owner (p j) name → i = j :=
    fun hi hj => owner_unique hinj hpid hi hj
  have h : Kept p disk l s := Run.induction (P := Kept p disk) kept_initial
    (fun _ _ _ _ _ h ha => kept_step h hunique (exec_step ha)) hr
  refine ⟨fun i => ?_, fun _ _ _ => hunique, h.others⟩
  obtain ⟨placed, hplaced, howner, hrecords⟩ := h.records i
  exact ⟨placed, hplaced, howner, fun name hname => by rw [hrecords name hname, appendAll_apply]⟩

end

/-- Two processes whose ids are their numbers. -/
def numbered (i : ℕ) : Process :=
  { Rolling.firstMinute with pidString := numeral 10 Nat.digitChar i }

/-- The calls of two processes in turn; one of them makes a second `LogFile`. -/
def inTurn : List (Act ℕ) :=
  [.create 1 4 3 1024 0, .create 2 4 3 1024 0, .call 1 (.append ['a', '\n'] 0 0),
    .call 2 (.append ['b', '\n'] 0 0), .call 1 (.append ['c', '\n'] 0 0), .destroy 1,
    .create 1 4 3 1024 0, .call 2 .flush, .call 1 (.append ['d', '\n'] 0 0)]

theorem records_apart_inTurn :
    let s := after (exec numbered) (initial fun _ => []) inTurn
    (∀ i, ∃ placed : List (Name × Record), placed.map Prod.snd = appended (callsOf i inTurn) ∧
      (∀ r ∈ placed, Owner (numbered i) r.1) ∧ ∀ name, Owner (numbered i) name →
        through s i name = [] ++ ((placed.filter (·.1 = name)).map Prod.snd).flatten) ∧
    (∀ i j name, Owner (numbered i) name → Owner (numbered j) name → i = j) ∧
    ∀ name, (∀ i, ¬ Owner (numbered i) name) → s.disk name = [] :=
  records_apart (fun _ _ h => h) (fun _ => rfl) (run_after (l := inTurn) (by decide +kernel))

end ToolsCxx.Logging.Directory
