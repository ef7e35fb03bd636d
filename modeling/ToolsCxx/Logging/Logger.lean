import ToolsCxx.Logging.Print

/-! # `Log`

A `Log` writes one record into the buffer of its `LogPrint`. The texts of the time and of the
thread's id are parameters of `log`; `basename` is the function of the C library. -/

namespace ToolsCxx.Logging.Logger

open ToolsCxx.Lib.Sinks ToolsCxx.Logging.Buffer ToolsCxx.Logging.Print

/-- `Log::LogLevel`. -/
inductive LogLevel where
  | debug
  | info
  | warn
  | error
  | fatal
  | numLogLevels
  deriving DecidableEq

/-- The value of a `LogLevel`. -/
def LogLevel.index : LogLevel → ℕ
  | .debug => 0
  | .info => 1
  | .warn => 2
  | .error => 3
  | .fatal => 4
  | .numLogLevels => 5

/-- `LogLevelName`. -/
def logLevelName : List CString :=
  [⟨['[', 'D', 'E', 'B', 'U', 'G', ']'], by decide⟩,
   ⟨['[', 'I', 'N', 'F', 'O', ']'], by decide⟩,
   ⟨['[', 'W', 'A', 'R', 'N', ']'], by decide⟩,
   ⟨['[', 'E', 'R', 'R', 'O', 'R', ']'], by decide⟩,
   ⟨['[', 'F', 'A', 'T', 'A', 'L', ']'], by decide⟩]

/-- A `Log`, with the buffer of `m_print`. -/
structure Log where
  curLevel : LogLevel
  errnoSave : BitVec 32
  print : LogBuffer smallBuffer

/-- `Log::Log(LogLevel)`. -/
def Log.ofLevel (logLevel : LogLevel) : Log where
  curLevel := logLevel
  errnoSave := 0
  print := newBuffer

/-- `Log::Log(bool)`, with the value of `errno`. -/
def Log.ofErrno (toAbort : Bool) (errno : BitVec 32) : Log where
  curLevel := if toAbort then .fatal else .error
  errnoSave := errno
  print := newBuffer

/-- The last component of a path; `'/'` of a path of slashes, `'.'` of the empty one. -/
def lastComponent (path : List Char) : List Char :=
  match path.reverse.dropWhile (· = '/') with
  | [] => if path = [] then ['.'] else ['/']
  | c :: rest => ((c :: rest).takeWhile (· ≠ '/')).reverse

theorem mem_of_mem_lastComponent {path : List Char} {c : Char} (h : c ∈ lastComponent path) :
    c ∈ path ∨ c = '.' ∨ c = '/' := by
  unfold lastComponent at h
  split at h
  · split_ifs at h
    · exact .inr (.inl (List.mem_singleton.mp h))
    · exact .inr (.inr (List.mem_singleton.mp h))
  · next c' rest hrest =>
    have hmem := (List.takeWhile_sublist _).mem (List.mem_reverse.mp h)
    rw [← hrest] at hmem
    exact .inl (List.mem_reverse.mp ((List.dropWhile_sublist _).mem hmem))

/-- `basename` of `libgen.h`: what it returns. It may write to its argument, one that ends in `'/'`
(and the cast in `log` takes the `const` away); `__FILE__` does not end so. -/
def basename (file : CString) : CString where
  text := lastComponent file.text
  noNul h := by
    rcases mem_of_mem_lastComponent h with h | h | h
    · exact file.noNul h
    · cases h
    · cases h

/-- `"%s %s %s "`. -/
def headerFormat : CString := ⟨['%', 's', ' ', '%', 's', ' ', '%', 's', ' '], by decide⟩

/-- `" %s (errno = %d)"`. -/
def errnoFormat : CString :=
  ⟨[' ', '%', 's', ' ', '(', 'e', 'r', 'r', 'n', 'o', ' ', '=', ' ', '%', 'd', ')'], by decide⟩

/-- `" - %s: %d\n"`. -/
def trailerFormat : CString := ⟨[' ', '-', ' ', '%', 's', ':', ' ', '%', 'd', '\n'], by decide⟩

variable {D : Type} [Double D]

/-- The header: the time, the thread's id and the name of the level. -/
def printHeader (time tid : CString) (curLevel : LogLevel) (b : LogBuffer smallBuffer) :
    Except Fault (LogBuffer smallBuffer) :=
  match logLevelName[curLevel.index]? with
  | none => .error .bounds
  | some name =>
    printf headerFormat ([.string time, .string tid, .string name] : List (Arg D)) b

/-- `Log::log`. -/
def Log.log (time tid file : CString) (line : BitVec 32) (fmt : CString) (args : List (Arg D))
    (l : Log) : Except Fault Log := do
  let b ← printHeader (D := D) time tid l.curLevel l.print
  let b ← printf fmt args b
  let b ← if l.errnoSave ≠ 0 then printf errnoFormat ([.int l.errnoSave] : List (Arg D)) b
    else .ok b
  let b ← printf trailerFormat ([.string (basename file), .int line] : List (Arg D)) b
  .ok { l with print := b }

/-- What the destructor calls: `m_output` with the characters, `m_flush`, `abort`. -/
inductive Effect where
  | output (msg : List Char)
  | flush
  | abort
  deriving DecidableEq

/-- `Log::~Log`. -/
def Log.destroy (l : Log) : List Effect :=
  .output (l.print.data.take l.print.length) ::
    if l.curLevel = .fatal then [.flush, .abort] else []

end ToolsCxx.Logging.Logger
