import ToolsCxx.Logging.Lines
import ToolsCxx.Logging.Rolling

/-! # The way of the records

Any number of threads execute statements of the macros of `log.h`, and `m_output` and `m_flush` are
the `append` and the `flush` of a `LogFile`. A step of a thread is the test of the threshold, the
construction of a `Log` with its `log`, or one of the effects of its destructor; `append` and
`flush` hold the mutex of the file. `abort` ends the process, and no destructor is called then.

* `records_delivered`: the records of each thread that pass the threshold reach the files in the
  order of its statements, none lost and none twice, whatever the other threads do.
* After `abort` the record of the `FATAL` statement is on the disk, and so is every record that was
  appended before it.
* `warn_enabled`: from the threshold of the environment on, only `set_level(LogLevel)` can take a
  `LOG_WARN` from the records. -/

namespace ToolsCxx.Logging.Pipeline

open ToolsCxx.Base ToolsCxx.Lib.Machine ToolsCxx.Lib.Streams
open ToolsCxx.Logging.Buffer ToolsCxx.Logging.Print ToolsCxx.Logging.Logger ToolsCxx.Logging.Lines
open ToolsCxx.Logging.File ToolsCxx.Logging.Rolling

variable {D : Type}

/-! ### The macros -/

/-- The macros. -/
inductive Site where
  | LOG_DEBUG
  | LOG_INFO
  | LOG_WARN
  | LOG_ERR
  | LOG_FATAL
  | LOG_SYSERR
  | LOG_SYSFATAL
  deriving DecidableEq

/-- The test before the `Log` is constructed. -/
def Site.enabled (threshold : LogLevel) : Site → Bool
  | .LOG_DEBUG => threshold.index ≤ LogLevel.debug.index
  | .LOG_INFO => threshold.index ≤ LogLevel.info.index
  | .LOG_WARN => threshold.index ≤ LogLevel.warn.index
  | .LOG_ERR | .LOG_FATAL | .LOG_SYSERR | .LOG_SYSFATAL => true

/-- The `Log` that is constructed. -/
def Site.log (errno : BitVec 32) : Site → Log
  | .LOG_DEBUG => Log.ofLevel .debug
  | .LOG_INFO => Log.ofLevel .info
  | .LOG_WARN => Log.ofLevel .warn
  | .LOG_ERR => Log.ofLevel .error
  | .LOG_FATAL => Log.ofLevel .fatal
  | .LOG_SYSERR => Log.ofErrno false errno
  | .LOG_SYSFATAL => Log.ofErrno true errno

/-- `Log::init_threshold_level`, by whether the two variables of the environment are defined. -/
def initThresholdLevel (logDebug logWarn : Bool) : LogLevel :=
  if logDebug then .debug else if logWarn then .warn else .info

/-- `Log::set_level(const std::string &)`. -/
def setLevel (level : List Char) (threshold : LogLevel) : LogLevel :=
  if level = ['L', 'O', 'G', '_', 'D', 'E', 'B', 'U', 'G'] then .debug
  else if level = ['L', 'O', 'G', '_', 'W', 'A', 'R', 'N'] then .warn
  else threshold

/-- A statement, with the values that it finds. -/
structure Statement (D : Type) where
  site : Site
  errno : BitVec 32
  time : CString
  tid : CString
  file : CString
  line : BitVec 32
  fmt : CString
  args : List (Arg D)

/-- The `Log` after `log`. -/
def Statement.run [Double D] (st : Statement D) : Except Fault Log :=
  (st.site.log st.errno).log st.time st.tid st.file st.line st.fmt st.args

/-- The record of a statement. -/
def Statement.text [Double D] (st : Statement D) : Except Fault Record := do
  let l ← st.run
  return emitted l

/-- The statement ends the process. -/
def Statement.Fatal (st : Statement D) : Prop := (st.site.log st.errno).curLevel = .fatal

/-! ### The process -/

/-- Where a thread is. -/
inductive Pc (D : Type) where
  | idle
  /-- the threshold has been passed -/
  | printing (st : Statement D)
  /-- in the destructor of the `Log` -/
  | destroying (effects : List Effect)

structure State (D : Type) where
  threshold : LogLevel
  file : LogFile
  threads : ℕ → Pc D
  -- the thread that has called `abort`
  aborted : Option ℕ
  -- history: the statements that have passed the threshold and the records that have been appended,
  -- each with its thread
  passed : List (ℕ × Statement D)
  logged : List (ℕ × Record)

def initial (threshold : LogLevel) (file : LogFile) : State D where
  threshold := threshold
  file := file
  threads := fun _ => .idle
  aborted := none
  passed := []
  logged := []

/-- The actions: of a thread, and the other calls of `Log` and of the `LogFile`. -/
inductive Act (D : Type) where
  | statement (t : ℕ) (st : Statement D)
  | print (t : ℕ)
  /-- the next effect of the destructor, with the times an `append` reads -/
  | effect (t : ℕ) (now roll : Timestamp)
  | setLevel (level : LogLevel)
  | setLevelName (level : List Char)
  | call (c : Call)

/-- The thread goes on at `pc`. -/
def State.goto (s : State D) (t : ℕ) (pc : Pc D) : State D :=
  { s with threads := Function.update s.threads t pc }

/-- The thread after an effect. -/
def afterEffect : List Effect → Pc D
  | [] => .idle
  | effects => .destroying effects

variable (p : Process)

/-- An effect of the destructor, by the thread `t`. -/
def perform (t : ℕ) (now roll : Timestamp) (s : State D) : Effect → State D
  | .output msg =>
    { s with
      file := File.exec p s.file (.append msg now roll)
      logged := s.logged ++ [(t, msg)] }
  | .flush => { s with file := File.exec p s.file .flush }
  | .abort => { s with aborted := some t }

theorem perform_threshold (t : ℕ) (now roll : Timestamp) (s : State D) (effect : Effect) :
    (perform p t now roll s effect).threshold = s.threshold := by
  cases effect <;> rfl

/-- What an action does. -/
def exec [Double D] (s : State D) (a : Act D) : Except (Halt Fault) (State D) := do
  enable (s.aborted = none)
  match a with
  | .statement t st =>
    match s.threads t with
    | .idle =>
      if st.site.enabled s.threshold then
        .ok { s.goto t (.printing st) with passed := s.passed ++ [(t, st)] }
      else .ok s
    | _ => .error .disabled
  | .print t =>
    match s.threads t with
    | .printing st =>
      match st.run with
      | .ok l => .ok (s.goto t (.destroying l.destroy))
      | .error f => .error (.fault f)
    | _ => .error .disabled
  | .effect t now roll =>
    match s.threads t with
    | .destroying (effect :: rest) =>
      .ok ((perform p t now roll s effect).goto t (afterEffect rest))
    | _ => .error .disabled
  | .setLevel level => .ok { s with threshold := level }
  | .setLevelName level => .ok { s with threshold := setLevel level s.threshold }
  | .call c => do
    enable (appended [c] = [])
    return { s with file := File.exec p s.file c }

/-! ### What is on the disk -/

section
variable {p} {disk : Disk Name Char} {f : LogFile} {done : List (Name × Record)}

/-- The records `done` are on the disk, and the other ones pending in the stream. -/
structure Synced (disk : Disk Name Char) (f : LogFile) (done : List (Name × Record)) : Prop where
  written : f.written = done ++ f.fout.pending.map fun r => (f.fout.name, r)
  disk : f.disk = disk.appendAll done

theorem append_flatten (name : Name) (pending : List Record) (d : Disk Name Char) :
    d.append name pending.flatten = d.appendAll (pending.map fun r => (name, r)) := by
  induction pending generalizing d with
  | nil => exact append_nil
  | cons r pending ih =>
    rw [List.flatten_cons, ← append_append, ih]
    rfl

theorem Synced.destroy (h : Synced disk f done) : destroy f = disk.appendAll f.written := by
  unfold File.destroy OStream.drain
  rw [append_flatten, h.disk, h.written]
  unfold Disk.appendAll
  rw [List.foldl_append]

theorem Synced.write (h : Synced disk f done) (r : Record) : Synced disk (f.write r) done where
  written := by
    show f.written ++ [(f.fout.name, r)] = done ++ (f.fout.pending ++ [r]).map _
    rw [h.written, List.map_append, List.append_assoc]
    rfl
  disk := h.disk

/-- A flush, or the end of the stream. -/
theorem Synced.drain (h : Synced disk f done) (f' : LogFile) (hpending : f'.fout.pending = [])
    (hdisk : f'.disk = File.destroy f) (hwritten : f'.written = f.written) :
    Synced disk f' f'.written where
  written := by rw [hpending, List.map_nil, List.append_nil]
  disk := by rw [hdisk, h.destroy, hwritten]

theorem Synced.isPrefix (h : Synced disk f done) : done <+: f.written :=
  ⟨_, h.written.symm⟩

/-- **What a call leaves on the disk.** -/
theorem synced_exec (h : Synced disk f done) (c : Call) : ∃ done',
    Synced disk (File.exec p f c) done' ∧ done <+: done' ∧
      (c = .flush → done' = (File.exec p f c).written) := by
  cases c with
  | flush => exact ⟨_, h.drain (LogFile.flush f) rfl rfl rfl, h.isPrefix, fun _ => rfl⟩
  | setCheckEveryN n => exact ⟨done, ⟨h.written, h.disk⟩, List.prefix_refl done, nofun⟩
  | setFlushInterval n => exact ⟨done, ⟨h.written, h.disk⟩, List.prefix_refl done, nofun⟩
  | append r now roll =>
    have hwrite := h.write r
    have hprefix : done <+: (f.write r).written := hwrite.isPrefix
    have hcases := append_cases p f r now roll
    generalize File.exec p f (.append r now roll) = f' at hcases
    cases hcases with
    | tooLong => exact ⟨_, hwrite.drain (rollFile p roll _) rfl rfl rfl, hprefix, nofun⟩
    | roll =>
      refine ⟨_, hwrite.drain (LogFile.flush _) rfl ?_ rfl, hprefix, nofun⟩
      exact drain_opened
    | flush => exact ⟨_, hwrite.drain (LogFile.flush _) rfl rfl rfl, hprefix, nofun⟩
    | keep => exact ⟨done, ⟨hwrite.written, hwrite.disk⟩, List.prefix_refl done, nofun⟩

end

/-! ### The invariant -/

/-- The statements of a thread that have passed the threshold. -/
def passedOf (s : State D) (t : ℕ) : List (Statement D) :=
  (s.passed.filter (·.1 = t)).map Prod.snd

/-- The records of a thread that have been appended. -/
def loggedOf (s : State D) (t : ℕ) : List Record := (s.logged.filter (·.1 = t)).map Prod.snd

/-- The record that a thread is about to append. -/
def Pc.flight [Double D] : Pc D → List (Except Fault Record)
  | .printing st => [st.text]
  | .destroying (.output msg :: _) => [.ok msg]
  | _ => []

/-- The last statement of the thread is a `FATAL` one. -/
def FatalLast (s : State D) (t : ℕ) : Prop :=
  ∃ st, (passedOf s t).getLast? = some st ∧ st.Fatal

/-- The records of the thread are on the disk, with all those before them. -/
def Flushed (s : State D) (t n : ℕ) : Prop := ∀ i r, s.logged[i]? = some (t, r) → i < n

/-- What is known of a thread, when `n` records are on the disk. -/
def PcOk (s : State D) (t n : ℕ) : Pc D → Prop
  | .idle | .printing _ | .destroying [.output _] => True
  | .destroying [.output _, .flush, .abort] | .destroying [.flush, .abort] => FatalLast s t
  | .destroying [.abort] => FatalLast s t ∧ Flushed s t n
  | .destroying _ => False

/-- **The records are on their way.** -/
structure Delivered [Double D] (disk : Disk Name Char) (s : State D) (done : List (Name × Record)) :
    Prop where
  order : ∀ t, (passedOf s t).map Statement.text =
    (loggedOf s t).map .ok ++ (s.threads t).flight
  records : s.file.written.map Prod.snd = s.logged.map Prod.snd
  synced : Synced disk s.file done
  pc : ∀ t, PcOk s t done.length (s.threads t)
  printing : ∀ t st, s.threads t = .printing st → (passedOf s t).getLast? = some st
  aborted : ∀ t, s.aborted = some t →
    s.threads t = .idle ∧ FatalLast s t ∧ Flushed s t done.length

section
variable {p} {disk : Disk Name Char} {s s' : State D} {done done' : List (Name × Record)} {t : ℕ}

theorem Flushed.mono {n m : ℕ} (h : Flushed s t n) (hlogged : s'.logged = s.logged)
    (hle : n ≤ m) : Flushed s' t m := fun i r hi => by
  rw [hlogged] at hi
  exact (h i r hi).trans_le hle

/-- A record of another thread is appended. -/
theorem Flushed.snoc {n m u : ℕ} {r : Record} (h : Flushed s t n)
    (hlogged : s'.logged = s.logged ++ [(u, r)]) (hu : u ≠ t) (hle : n ≤ m) :
    Flushed s' t m := fun i r' hi => by
  rw [hlogged] at hi
  rcases lt_or_ge i s.logged.length with hlt | hge
  · rw [List.getElem?_append_left hlt] at hi
    exact (h i r' hi).trans_le hle
  · rw [List.getElem?_append_right hge] at hi
    have hmem := List.mem_of_getElem? hi
    exact absurd (congrArg Prod.fst (List.mem_singleton.mp hmem)).symm hu

theorem FatalLast.congr (h : FatalLast s t) (hpassed : passedOf s' t = passedOf s t) :
    FatalLast s' t := by
  unfold FatalLast at h ⊢
  rwa [hpassed]

/-- What is known of a thread that does nothing. -/
theorem PcOk.mono {n m : ℕ} {pc : Pc D} (h : PcOk s t n pc)
    (hpassed : passedOf s' t = passedOf s t) (hflushed : Flushed s t n → Flushed s' t m) :
    PcOk s' t m pc := by
  unfold PcOk at h
  split at h
  · trivial
  · trivial
  · trivial
  · exact h.congr hpassed
  · exact h.congr hpassed
  · exact ⟨h.1.congr hpassed, hflushed h.2⟩
  · exact h.elim

/-- What comes after the record. -/
theorem PcOk.rest {n : ℕ} {msg : Record} {rest : List Effect}
    (h : PcOk s t n (.destroying (.output msg :: rest))) :
    rest = [] ∨ rest = [.flush, .abort] ∧ FatalLast s t := by
  cases rest with
  | nil => exact .inl rfl
  | cons effect rest =>
    cases effect with
    | output | abort => exact h.elim
    | flush =>
      cases rest with
      | nil => exact h.elim
      | cons effect rest =>
        cases effect with
        | output | flush => exact h.elim
        | abort =>
          cases rest with
          | nil => exact .inr ⟨rfl, h⟩
          | cons => exact h.elim

theorem passedOf_snoc_self {st : Statement D} (hpassed : s'.passed = s.passed ++ [(t, st)]) :
    passedOf s' t = passedOf s t ++ [st] := by
  unfold passedOf
  rw [hpassed, List.filter_append, List.map_append]
  simp

theorem passedOf_snoc_of_ne {u : ℕ} {st : Statement D}
    (hpassed : s'.passed = s.passed ++ [(t, st)]) (hu : u ≠ t) : passedOf s' u = passedOf s u := by
  unfold passedOf
  rw [hpassed, List.filter_append, List.map_append]
  simp [Ne.symm hu]

theorem loggedOf_snoc_self {r : Record} (hlogged : s'.logged = s.logged ++ [(t, r)]) :
    loggedOf s' t = loggedOf s t ++ [r] := by
  unfold loggedOf
  rw [hlogged, List.filter_append, List.map_append]
  simp

theorem loggedOf_snoc_of_ne {u : ℕ} {r : Record} (hlogged : s'.logged = s.logged ++ [(t, r)])
    (hu : u ≠ t) : loggedOf s' u = loggedOf s u := by
  unfold loggedOf
  rw [hlogged, List.filter_append, List.map_append]
  simp [Ne.symm hu]

variable [Double D]

/-- **A thread goes on**, and the others stay where they are. -/
theorem Delivered.goto (h : Delivered disk s done) {pc : Pc D}
    (hthreads : s'.threads = Function.update s.threads t pc)
    (hpassed : ∀ u, u ≠ t → passedOf s' u = passedOf s u)
    (hlogged : ∀ u, u ≠ t → loggedOf s' u = loggedOf s u)
    (hflushed : ∀ u, u ≠ t → Flushed s u done.length → Flushed s' u done'.length)
    (hrecords : s'.file.written.map Prod.snd = s'.logged.map Prod.snd)
    (hsynced : Synced disk s'.file done')
    (horder : (passedOf s' t).map Statement.text = (loggedOf s' t).map .ok ++ pc.flight)
    (hpc : PcOk s' t done'.length pc)
    (hprinting : ∀ st, pc = .printing st → (passedOf s' t).getLast? = some st)
    (haborted : ∀ u, s'.aborted = some u →
      u = t ∧ pc = .idle ∧ FatalLast s' t ∧ Flushed s' t done'.length) :
    Delivered disk s' done' where
  order u := by
    rw [hthreads]
    rcases eq_or_ne u t with rfl | hu
    · rw [Function.update_self]
      exact horder
    · rw [Function.update_of_ne hu, hpassed u hu, hlogged u hu]
      exact h.order u
  records := hrecords
  synced := hsynced
  pc u := by
    rw [hthreads]
    rcases eq_or_ne u t with rfl | hu
    · rw [Function.update_self]
      exact hpc
    · rw [Function.update_of_ne hu]
      exact (h.pc u).mono (hpassed u hu) (hflushed u hu)
  printing u st hst := by
    rw [hthreads] at hst
    rcases eq_or_ne u t with rfl | hu
    · rw [Function.update_self] at hst
      exact hprinting st hst
    · rw [Function.update_of_ne hu] at hst
      rw [hpassed u hu]
      exact h.printing u st hst
  aborted u hu := by
    obtain ⟨rfl, hidle, hfatal, hflush⟩ := haborted u hu
    refine ⟨?_, hfatal, hflush⟩
    rw [hthreads, Function.update_self]
    exact hidle

/-- The file or the threshold changes, and no record is appended. -/
theorem Delivered.congr (h : Delivered disk s done) (hthreads : s'.threads = s.threads)
    (hpassed : s'.passed = s.passed) (hlogged : s'.logged = s.logged)
    (haborted : s'.aborted = s.aborted) (hwritten : s'.file.written = s.file.written)
    (hsynced : Synced disk s'.file done') (hle : done.length ≤ done'.length) :
    Delivered disk s' done' := by
  have hpassedOf : ∀ u, passedOf s' u = passedOf s u := fun u => by
    unfold passedOf
    rw [hpassed]
  have hloggedOf : ∀ u, loggedOf s' u = loggedOf s u := fun u => by
    unfold loggedOf
    rw [hlogged]
  refine ⟨fun u => ?_, ?_, hsynced, fun u => ?_, fun u st hst => ?_, fun u hu => ?_⟩
  · rw [hthreads, hpassedOf, hloggedOf]
    exact h.order u
  · rw [hwritten, hlogged]
    exact h.records
  · rw [hthreads]
    exact (h.pc u).mono (hpassedOf u) fun hx => hx.mono hlogged hle
  · rw [hthreads] at hst
    rw [hpassedOf]
    exact h.printing u st hst
  · rw [haborted] at hu
    obtain ⟨hidle, hfatal, hflush⟩ := h.aborted u hu
    exact ⟨by rw [hthreads]; exact hidle, hfatal.congr (hpassedOf u), hflush.mono hlogged hle⟩

/-! ### The steps -/

/-- A statement passes the threshold. -/
theorem Delivered.statement (h : Delivered disk s done) (hnone : s.aborted = none)
    (hidle : s.threads t = .idle) (st : Statement D) :
    Delivered disk { s.goto t (.printing st) with passed := s.passed ++ [(t, st)] } done := by
  have horder := h.order t
  rw [hidle] at horder
  refine h.goto rfl (fun u hu => passedOf_snoc_of_ne rfl hu) (fun u hu => rfl)
    (fun u hu hx => hx.mono rfl le_rfl) h.records h.synced ?_ trivial ?_ ?_
  · rw [passedOf_snoc_self rfl, List.map_append, horder]
    exact congrArg (· ++ _) (List.append_nil _)
  · rintro _ ⟨⟩
    rw [passedOf_snoc_self rfl]
    exact List.getLast?_concat ..
  · intro u hu
    cases hu.symm.trans hnone

/-- The effects of the destructor. -/
theorem destroy_cases (l : Log) : (l.destroy = [.output (emitted l)] ∧ l.curLevel ≠ .fatal) ∨
    (l.destroy = [.output (emitted l), .flush, .abort] ∧ l.curLevel = .fatal) := by
  rw [emitted_eq]
  unfold Log.destroy
  split_ifs with hfatal
  · exact .inr ⟨rfl, hfatal⟩
  · exact .inl ⟨rfl, hfatal⟩

theorem run_curLevel {st : Statement D} {l : Log} (h : st.run = .ok l) :
    l.curLevel = (st.site.log st.errno).curLevel := by
  unfold Statement.run Log.log at h
  obtain ⟨b, -, h⟩ := bind_eq_ok.mp h
  obtain ⟨b, -, h⟩ := bind_eq_ok.mp h
  split_ifs at h
  all_goals
    obtain ⟨b, -, h⟩ := bind_eq_ok.mp h
    obtain ⟨b, -, h⟩ := bind_eq_ok.mp h
    cases h
    rfl

/-- A record is made. -/
theorem Delivered.print (h : Delivered disk s done) (hnone : s.aborted = none)
    {st : Statement D} (hpc : s.threads t = .printing st) {l : Log} (hrun : st.run = .ok l) :
    Delivered disk (s.goto t (.destroying l.destroy)) done := by
  have horder := h.order t
  have htext : st.text = .ok (emitted l) := by
    unfold Statement.text
    rw [hrun]
    rfl
  rw [hpc] at horder
  refine h.goto rfl (fun u hu => rfl) (fun u hu => rfl) (fun u hu hx => hx.mono rfl le_rfl)
    h.records h.synced ?_ ?_ nofun ?_
  · refine horder.trans (congrArg _ ?_)
    show [st.text] = _
    rw [htext]
    rcases destroy_cases l with ⟨heffects, -⟩ | ⟨heffects, -⟩ <;> rw [heffects] <;> rfl
  · rcases destroy_cases l with ⟨heffects, -⟩ | ⟨heffects, hfatal⟩ <;> rw [heffects]
    · trivial
    · exact ⟨st, h.printing t st hpc, (run_curLevel hrun).symm.trans hfatal⟩
  · intro u hu
    cases hu.symm.trans hnone

/-- A record is appended. -/
theorem Delivered.output (h : Delivered disk s done) (hnone : s.aborted = none) {msg : Record}
    {rest : List Effect} (hpc : s.threads t = .destroying (.output msg :: rest))
    (now roll : Timestamp) : ∃ done',
      Delivered disk ((perform p t now roll s (.output msg)).goto t (afterEffect rest)) done' := by
  obtain ⟨done', hsynced, hprefix, -⟩ := synced_exec (p := p) h.synced (.append msg now roll)
  have horder := h.order t
  have hok := h.pc t
  rw [hpc] at horder hok
  refine ⟨done', h.goto (t := t) rfl (fun u hu => rfl) (fun u hu => loggedOf_snoc_of_ne rfl hu)
    (fun u hu hx => hx.snoc rfl (Ne.symm hu) hprefix.length_le) ?_ hsynced ?_ ?_ ?_ ?_⟩
  · show (File.exec p s.file _).written.map Prod.snd = (s.logged ++ [(t, msg)]).map Prod.snd
    rw [written_append, List.map_append, h.records, List.map_append]
    rfl
  · have hflight : (afterEffect rest : Pc D).flight = [] := by
      rcases hok.rest with rfl | ⟨rfl, -⟩ <;> rfl
    rw [hflight, loggedOf_snoc_self rfl, List.map_append, List.append_nil]
    exact horder
  · rcases hok.rest with rfl | ⟨rfl, hfatal⟩
    · trivial
    · exact hfatal
  · intro st hst
    cases rest <;> cases hst
  · intro u hu
    cases hu.symm.trans hnone

/-- The record of a `FATAL` statement is flushed. -/
theorem Delivered.flush (h : Delivered disk s done) (hnone : s.aborted = none)
    {rest : List Effect} (hpc : s.threads t = .destroying (.flush :: rest))
    (now roll : Timestamp) : ∃ done',
      Delivered disk ((perform p t now roll s .flush).goto t (afterEffect rest)) done' := by
  obtain ⟨done', hsynced, hprefix, hdone⟩ := synced_exec (p := p) h.synced .flush
  have horder := h.order t
  have hok := h.pc t
  rw [hpc] at horder hok
  have hrest : rest = [.abort] := by
    rcases rest with _ | ⟨_ | _ | _, _ | _⟩ <;> first | rfl | exact hok.elim
  subst hrest
  -- all that has been appended is on the disk
  have hlen : done'.length = s.logged.length := by
    have hrecords := congrArg List.length h.records
    rw [List.length_map, List.length_map] at hrecords
    rw [hdone rfl]
    exact hrecords
  refine ⟨done', h.goto (t := t) rfl (fun u hu => rfl) (fun u hu => rfl)
    (fun u hu hx => hx.mono rfl hprefix.length_le) h.records hsynced horder ⟨hok, fun i r hi => ?_⟩
    nofun ?_⟩
  · rw [hlen]
    exact (List.getElem?_eq_some_iff.mp hi).1
  · intro u hu
    cases hu.symm.trans hnone

/-- The process ends. -/
theorem Delivered.abort (h : Delivered disk s done) {rest : List Effect}
    (hpc : s.threads t = .destroying (.abort :: rest)) (now roll : Timestamp) :
    Delivered disk ((perform p t now roll s .abort).goto t (afterEffect rest)) done := by
  have horder := h.order t
  have hok := h.pc t
  rw [hpc] at horder hok
  have hrest : rest = [] := by
    rcases rest with _ | ⟨_ | _ | _, _ | _⟩ <;> first | rfl | exact hok.elim
  subst hrest
  refine h.goto (t := t) rfl (fun u hu => rfl) (fun u hu => rfl)
    (fun u hu hx => hx.mono rfl le_rfl) h.records h.synced horder trivial nofun fun u hu => ?_
  cases hu
  exact ⟨rfl, rfl, hok⟩

theorem delivered_step (h : Delivered disk s done) {a : Act D} (ha : exec p s a = .ok s') :
    ∃ done', Delivered disk s' done' := by
  obtain ⟨hnone, ha⟩ := enable_bind_eq_ok.mp ha
  cases a with
  | statement t st =>
    dsimp only at ha
    split at ha
    · next hidle =>
      split_ifs at ha <;> cases ha
      · exact ⟨done, h.statement hnone hidle st⟩
      · exact ⟨done, h⟩
    · cases ha
  | print t =>
    dsimp only at ha
    split at ha
    · next st hpc =>
      split at ha
      · next l hrun =>
        cases ha
        exact ⟨done, h.print hnone hpc hrun⟩
      · cases ha
    · cases ha
  | effect t now roll =>
    dsimp only at ha
    split at ha
    · next effect rest hpc =>
      cases ha
      cases effect with
      | output msg => exact h.output hnone hpc now roll
      | flush => exact h.flush hnone hpc now roll
      | abort => exact ⟨done, h.abort hpc now roll⟩
    · cases ha
  | setLevel level =>
    cases ha
    exact ⟨done, h.congr rfl rfl rfl rfl rfl h.synced le_rfl⟩
  | setLevelName level =>
    cases ha
    exact ⟨done, h.congr rfl rfl rfl rfl rfl h.synced le_rfl⟩
  | call c =>
    obtain ⟨hno, ha⟩ := enable_bind_eq_ok.mp ha
    cases ha
    obtain ⟨done', hsynced, hprefix, -⟩ := synced_exec (p := p) h.synced c
    refine ⟨done', h.congr rfl rfl rfl rfl ?_ hsynced hprefix.length_le⟩
    cases c with
    | append => cases hno
    | _ => rfl

end

/-! ### The runs -/

variable [Double D] {p} {threshold : LogLevel} {rollSize flushInterval checkEveryN : ℤ}
  {now : Timestamp} {disk : Disk Name Char} {s : State D} {l : List (Act D)}

theorem run_delivered (hr : Run (exec p)
    (initial threshold (create p rollSize flushInterval checkEveryN now disk)) l s) :
    ∃ done, Delivered disk s done := by
  refine Run.induction (P := fun _ s => ∃ done, Delivered disk s done) ?_
    (fun _ _ _ _ _ ⟨_, h⟩ ha => delivered_step h ha) hr
  exact ⟨[], fun t => rfl, rfl, ⟨rfl, rfl⟩, fun t => trivial, nofun, nofun⟩

/-- **The records are delivered.** In every state of every run the records of a thread that have
been appended are those of its statements, in order, but for the one it is about to append; the
files hold the records in the order of the calls; and after `abort` all that was appended up to the
record of the `FATAL` statement is on the disk. -/
theorem records_delivered (hr : Run (exec p)
    (initial threshold (create p rollSize flushInterval checkEveryN now disk)) l s) :
    (∀ t, (passedOf s t).map Statement.text =
      (loggedOf s t).map .ok ++ (s.threads t).flight) ∧
    s.file.written.map Prod.snd = s.logged.map Prod.snd ∧
    destroy s.file = disk.appendAll s.file.written ∧
    ∃ n, s.file.disk = disk.appendAll (s.file.written.take n) ∧
      ∀ t, s.aborted = some t → FatalLast s t ∧
        (passedOf s t).map Statement.text = (loggedOf s t).map .ok ∧
          ∀ i r, s.logged[i]? = some (t, r) → i < n := by
  obtain ⟨done, h⟩ := run_delivered hr
  have htake : s.file.written.take done.length = done := by
    rw [h.synced.written]
    exact List.take_left
  refine ⟨h.order, h.records, h.synced.destroy, done.length, ?_, fun t ht => ?_⟩
  · rw [htake]
    exact h.synced.disk
  · obtain ⟨hidle, hfatal, hflushed⟩ := h.aborted t ht
    have horder := h.order t
    rw [hidle] at horder
    exact ⟨hfatal, horder.trans (List.append_nil _), hflushed⟩

/-- A statement in line 7 of a file. -/
def sayX (site : Site) : Statement ℚ where
  site := site
  errno := 0
  time := ⟨['1', '2', ':', '0', '0'], by decide⟩
  tid := ⟨['4', '2'], by decide⟩
  file := ⟨['m', '.', 'c', 'p', 'p'], by decide⟩
  line := 7
  fmt := ⟨['x'], by decide⟩
  args := []

/-- A thread ends the process while another one goes on. -/
def fatalAfterInfo : List (Act ℚ) :=
  [.statement 0 (sayX .LOG_INFO), .statement 1 (sayX .LOG_FATAL), .print 1, .print 0,
    .effect 0 0 0, .effect 1 0 0, .statement 0 (sayX .LOG_DEBUG), .statement 0 (sayX .LOG_ERR),
    .effect 1 0 0, .effect 1 0 0]

theorem records_delivered_fatalAfterInfo :
    let s := after (exec firstMinute)
      (initial .info (create firstMinute 100 3 1024 0 fun _ => [])) fatalAfterInfo
    (∀ t, (passedOf s t).map Statement.text =
      (loggedOf s t).map .ok ++ (s.threads t).flight) ∧
    s.file.written.map Prod.snd = s.logged.map Prod.snd ∧
    destroy s.file = Disk.appendAll s.file.written (fun _ => []) ∧
    ∃ n, s.file.disk = Disk.appendAll (s.file.written.take n) (fun _ => []) ∧
      ∀ t, s.aborted = some t → FatalLast s t ∧
        (passedOf s t).map Statement.text = (loggedOf s t).map .ok ∧
          ∀ i r, s.logged[i]? = some (t, r) → i < n :=
  records_delivered (run_after (by decide +kernel))

/-! ### The threshold -/

/-- The threshold after an action. -/
def thresholdAfter (old : LogLevel) : Act D → LogLevel
  | .setLevel level => level
  | .setLevelName level => setLevel level old
  | _ => old

/-- Only the two functions `set_level` change the threshold. -/
theorem threshold_step {a : Act D} {s' : State D} (ha : exec p s a = .ok s') :
    s'.threshold = thresholdAfter s.threshold a := by
  obtain ⟨-, ha⟩ := enable_bind_eq_ok.mp ha
  cases a with
  | statement t st =>
    dsimp only at ha
    split at ha
    · split_ifs at ha <;> cases ha <;> rfl
    · cases ha
  | print t =>
    dsimp only at ha
    split at ha
    · split at ha <;> cases ha
      rfl
    · cases ha
  | effect t now roll =>
    dsimp only at ha
    split at ha
    · cases ha
      exact perform_threshold ..
    · cases ha
  | setLevel level | setLevelName level =>
    cases ha
    rfl
  | call c =>
    obtain ⟨-, ha⟩ := enable_bind_eq_ok.mp ha
    cases ha
    rfl

theorem initThresholdLevel_le (logDebug logWarn : Bool) :
    (initThresholdLevel logDebug logWarn).index ≤ LogLevel.warn.index := by
  unfold initThresholdLevel
  split_ifs <;> decide

/-- A name sets no threshold above `WARN`. -/
theorem setLevel_le {old : LogLevel} (h : old.index ≤ LogLevel.warn.index)
    (level : List Char) : (setLevel level old).index ≤ LogLevel.warn.index := by
  unfold setLevel
  split_ifs
  · decide
  · exact le_rfl
  · exact h

/-- **Warnings pass.** The environment sets no threshold above `WARN`, and neither does a name: in a
run in which `set_level(LogLevel)` sets none either, each `LOG_WARN` makes a record. -/
theorem warn_enabled {logDebug logWarn : Bool} {file : LogFile}
    (hl : ∀ a ∈ l, ∀ level, a = .setLevel level → level.index ≤ LogLevel.warn.index)
    (hr : Run (exec p) (initial (initThresholdLevel logDebug logWarn) file) l s) :
    Site.LOG_WARN.enabled s.threshold = true := by
  refine decide_eq_true (Run.invariant_of (P := fun s => s.threshold.index ≤ LogLevel.warn.index)
    ?_ (initThresholdLevel_le logDebug logWarn) hl hr)
  intro t a t' h hle ha
  rw [threshold_step ha]
  cases a with
  | setLevel level => exact hle level rfl
  | setLevelName level => exact setLevel_le h level
  | statement | print | effect | call => exact h

end ToolsCxx.Logging.Pipeline
