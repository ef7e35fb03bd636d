import ToolsCxx.Base.Timestamp
import ToolsCxx.Lib.Machine
import ToolsCxx.Lib.Streams

/-! # `LogFile`

`append` and `flush` hold `m_mutex` from their beginning to their end, so a run of a `LogFile` is a
sequence of calls. A call of `append` is given the times that it reads: `now`, and `roll` for the
second reading, in `roll_file`. Streams can always be opened. A counter of bytes is a number of
bytes on a disk, and does not overflow.

`append_cases` says what a call of `append` does; `drain_append`: seen through the stream, it
appends the record to the file of the stream that is open when the call begins. -/

namespace ToolsCxx.Logging.File

open ToolsCxx.Base ToolsCxx.Lib.Machine ToolsCxx.Lib.Streams

/-- The name of a file. -/
abbrev Name := List Char

/-- What is logged by one call of `append`. -/
abbrev Record := List Char

/-- What the name of a log file is made of, besides the time. -/
structure Process where
  basename : List Char
  hostname : List Char
  pidString : List Char
  localtime : ℤ → Timestamp.Tm

structure LogFile where
  rollSize : ℤ
  flushInterval : ℤ
  checkEveryN : ℤ
  count : ℤ
  lastRoll : ℤ
  lastFlush : ℤ
  startPeriod : ℤ
  fout : OStream Name Char
  writenBytes : ℤ
  -- the directory
  disk : Disk Name Char
  -- history: the records, each with the file of the stream it was written to
  written : List (Name × Record)

/-- The calls. -/
inductive Call where
  | append (logLine : Record) (now roll : Timestamp)
  | flush
  | setCheckEveryN (n : ℤ)
  | setFlushInterval (interval : ℤ)
  deriving DecidableEq

variable (p : Process)

/-- `LogFile::get_file_name`. -/
def getFileName (now : Timestamp) : Name :=
  p.basename ++ ['.'] ++ Timestamp.toFormattedString p.localtime now ++ ['.'] ++ p.hostname ++
    ['.'] ++ p.pidString ++ ['.', 'l', 'o', 'g']

/-- `LogFile::roll_file`. The new stream is opened, and then the old one is destroyed. -/
def rollFile (now : Timestamp) (f : LogFile) : LogFile :=
  { f with
    lastRoll := now.getSecondsSinceEpoch
    lastFlush := now.getSecondsSinceEpoch
    startPeriod := now.getPeriod
    fout := .opened (getFileName p now)
    disk := f.fout.drain f.disk
    writenBytes := 0 }

/-- `LogFile::LogFile`, in the directory `disk`. -/
def create (rollSize flushInterval checkEveryN : ℤ) (now : Timestamp) (disk : Disk Name Char) :
    LogFile where
  rollSize := rollSize
  flushInterval := flushInterval
  checkEveryN := checkEveryN
  count := 0
  -- what follows is done by `roll_file`; there is no old stream
  lastRoll := now.getSecondsSinceEpoch
  lastFlush := now.getSecondsSinceEpoch
  startPeriod := now.getPeriod
  fout := .opened (getFileName p now)
  writenBytes := 0
  disk := disk
  written := []

/-- `m_fout->flush()`. -/
def LogFile.flush (f : LogFile) : LogFile :=
  { f with fout := f.fout.flushed, disk := f.fout.drain f.disk }

/-- `m_fout->write`, and the count of the bytes. -/
def LogFile.write (logLine : Record) (f : LogFile) : LogFile :=
  { f with
    fout := f.fout.write logLine
    writenBytes := f.writenBytes + logLine.length
    written := f.written ++ [(f.fout.name, logLine)] }

/-- `LogFile::append_unlocked`. -/
def appendUnlocked (logLine : Record) (now roll : Timestamp) (f : LogFile) : LogFile :=
  let f := f.write logLine
  if f.writenBytes > f.rollSize then rollFile p roll f
  else
    let f := { f with count := f.count + 1 }
    if f.count ≥ f.checkEveryN then
      let f := { f with count := 0 }
      let f := if now.getPeriod ≠ f.startPeriod then rollFile p roll f else f
      { f with lastFlush := now.getSecondsSinceEpoch }.flush
    else if now.getSecondsSinceEpoch - f.lastFlush > f.flushInterval then
      let f := if now.getPeriod ≠ f.startPeriod then rollFile p roll f else f
      { f with lastFlush := now.getSecondsSinceEpoch }.flush
    else f

/-- What a call does. -/
def exec (f : LogFile) : Call → LogFile
  | .append logLine now roll => appendUnlocked p logLine now roll f
  | .flush => f.flush
  | .setCheckEveryN n => { f with checkEveryN := n }
  | .setFlushInterval interval => { f with flushInterval := interval }

/-- `LogFile::~LogFile`: the directory after the stream has been destroyed. -/
def destroy (f : LogFile) : Disk Name Char := f.fout.drain f.disk

/-- The records of the calls, in order. -/
def appended (l : List Call) : List Record :=
  l.filterMap fun
    | .append logLine _ _ => some logLine
    | _ => none

/-! ### What `append` does -/

/-- The record makes the file too long. -/
def TooLong (f : LogFile) (logLine : Record) : Prop := f.rollSize < f.writenBytes + logLine.length

/-- It is the last one of `m_checkEveryN`, or `m_flushInterval` seconds have passed. -/
def Due (f : LogFile) (now : Timestamp) : Prop :=
  f.checkEveryN ≤ f.count + 1 ∨ f.flushInterval < now.getSecondsSinceEpoch - f.lastFlush

/-- `append` calls `roll_file`. -/
def Rolls (f : LogFile) (logLine : Record) (now : Timestamp) : Prop :=
  TooLong f logLine ∨ Due f now ∧ now.getPeriod ≠ f.startPeriod

/-- One more record is counted. -/
def LogFile.counted (f : LogFile) : LogFile :=
  { f with count := if f.checkEveryN ≤ f.count + 1 then 0 else f.count + 1 }

variable {p} {f : LogFile} {logLine : Record} {now roll : Timestamp}

/-- **What `append` does**, by whether and why it rolls and flushes. -/
inductive Appended (p : Process) (f : LogFile) (logLine : Record) (now roll : Timestamp) :
    LogFile → Prop where
  | tooLong (h : TooLong f logLine) :
    Appended p f logLine now roll (rollFile p roll (f.write logLine))
  | roll (h : ¬ TooLong f logLine) (hd : Due f now) (hp : now.getPeriod ≠ f.startPeriod) :
    Appended p f logLine now roll
      { rollFile p roll (f.write logLine).counted with lastFlush := now.getSecondsSinceEpoch }.flush
  | flush (h : ¬ TooLong f logLine) (hd : Due f now) (hp : now.getPeriod = f.startPeriod) :
    Appended p f logLine now roll
      { (f.write logLine).counted with lastFlush := now.getSecondsSinceEpoch }.flush
  | keep (h : ¬ TooLong f logLine) (hd : ¬ Due f now) :
    Appended p f logLine now roll (f.write logLine).counted

theorem append_cases (p : Process) (f : LogFile) (logLine : Record) (now roll : Timestamp) :
    Appended p f logLine now roll (exec p f (.append logLine now roll)) := by
  have hcounted : ∀ {n}, (if f.checkEveryN ≤ f.count + 1 then 0 else f.count + 1) = n →
      (f.write logLine).counted = { f.write logLine with count := n } := by
    rintro _ rfl
    rfl
  show Appended p f logLine now roll (appendUnlocked p logLine now roll f)
  unfold appendUnlocked
  dsimp only
  split_ifs with hlong hcount hp hdue hp
  · exact .tooLong hlong
  · have h : Appended p f logLine now roll _ := .roll hlong (Or.inl hcount) hp
    rw [hcounted (if_pos hcount)] at h
    exact h
  · have h : Appended p f logLine now roll _ := .flush hlong (Or.inl hcount) (not_not.mp hp)
    rw [hcounted (if_pos hcount)] at h
    exact h
  · have h : Appended p f logLine now roll _ := .roll hlong (Or.inr hdue) hp
    rw [hcounted (if_neg hcount)] at h
    exact h
  · have h : Appended p f logLine now roll _ := .flush hlong (Or.inr hdue) (not_not.mp hp)
    rw [hcounted (if_neg hcount)] at h
    exact h
  · have h : Appended p f logLine now roll _ := .keep hlong (not_or.mpr ⟨hcount, hdue⟩)
    rw [hcounted (if_neg hcount)] at h
    exact h

/-! ### The files, seen through the stream -/

theorem destroy_flush : destroy f.flush = destroy f := drain_flush

theorem destroy_rollFile : destroy (rollFile p now f) = destroy f := drain_opened

theorem destroy_write : destroy (f.write logLine) = (destroy f).append f.fout.name logLine :=
  drain_write

/-- **A record goes to the file that is open when it is appended.** -/
theorem destroy_append :
    destroy (exec p f (.append logLine now roll)) = (destroy f).append f.fout.name logLine := by
  have h := append_cases p f logLine now roll
  rw [← destroy_write]
  generalize exec p f (.append logLine now roll) = f' at h ⊢
  cases h with
  | tooLong => exact destroy_rollFile
  | roll => exact destroy_flush.trans destroy_rollFile
  | flush => exact destroy_flush
  | keep => rfl

theorem written_append :
    (exec p f (.append logLine now roll)).written = f.written ++ [(f.fout.name, logLine)] := by
  have h := append_cases p f logLine now roll
  generalize exec p f (.append logLine now roll) = f' at h ⊢
  cases h <;> rfl

theorem appended_snoc {l : List Call} {a : Call} :
    appended (l ++ [a]) = appended l ++ appended [a] := List.filterMap_append

end ToolsCxx.Logging.File
