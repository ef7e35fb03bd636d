import ToolsCxx.Logging.Compose
import ToolsCxx.Logging.Logger

/-! # `Log`: the records

The formats of `Log::log` prescribe the arguments it passes, except for the one of the errno part:
it has a `%s` for which only the number is passed. So a record with a saved `errno` is built from
arguments that were supplied only when the buffer is full before that (`recorded_iff`). -/

namespace ToolsCxx.Logging.Record

open ToolsCxx.Lib.Sinks
open ToolsCxx.Logging.Buffer ToolsCxx.Logging.Print ToolsCxx.Logging.Format
open ToolsCxx.Logging.Steps ToolsCxx.Logging.Compose ToolsCxx.Logging.Logger

variable {D : Type} [Double D]

/-! ### What a record should be -/

def levelText (level : LogLevel) : List Char :=
  (logLevelName[level.index]?.map CString.text).getD []

def headerText (time tid : CString) (level : LogLevel) : List Char :=
  time.text ++ [' '] ++ tid.text ++ [' '] ++ levelText level ++ [' ']

/-- The text of the items of the body's format. -/
def bodyText (F : CString) (A : List (Arg D)) : List Char :=
  ((expand (parse F.text).1 A).map Prod.fst).getD []

def errnoText (strerror : BitVec 32 → CString) (e : BitVec 32) : List Char :=
  if e = 0 then []
  else [' '] ++ (strerror e).text ++ [' ', '(', 'e', 'r', 'r', 'n', 'o', ' ', '=', ' '] ++
    decimal e.toInt ++ [')']

def trailerText (file : CString) (line : BitVec 32) : List Char :=
  [' ', '-', ' '] ++ (basename file).text ++ [':', ' '] ++ decimal line.toInt ++ ['\n']

/-- The ways to construct a `Log`. -/
inductive Constructed : Log → Prop where
  | ofLevel (logLevel : LogLevel) : Constructed (Log.ofLevel logLevel)
  | ofErrno (toAbort : Bool) (errno : BitVec 32) : Constructed (Log.ofErrno toAbort errno)

/-- `log` goes through, and leaves the first 3999 characters of the record. -/
def Recorded (strerror : BitVec 32 → CString) (time tid file : CString) (line : BitVec 32)
    (F : CString) (A : List (Arg D)) (l : Log) : Prop :=
  ∃ l', l.log time tid file line F A = .ok l' ∧
    l'.print.text = (headerText time tid l.curLevel ++ bodyText F A ++
      errnoText strerror l.errnoSave ++ trailerText file line).take 3999

/-! ### The four calls -/

section
variable {B : Type} [Sink B Char] [LawfulSink B Char]

theorem printHeader_eq (time tid : CString) {level : LogLevel} (h : level ≠ .numLogLevels)
    (b : LogBuffer smallBuffer) :
    printHeader (D := D) time tid level b = .ok (write (headerText time tid level) b) := by
  have hparse : parse headerFormat.text =
      ([.directive plain [] 's', .literal ' ', .directive plain [] 's', .literal ' ',
        .directive plain [] 's', .literal ' '], []) := by decide +kernel
  obtain ⟨name, hname⟩ : ∃ name, logLevelName[level.index]? = some name := by
    cases level
    case numLogLevels => exact absurd rfl h
    all_goals exact ⟨_, rfl⟩
  unfold printHeader headerText levelText
  rw [hname]
  refine printf_of_expand (congrArg Prod.snd hparse) ?_ b
  rw [hparse]
  simp [expand, Item.expand, argType, Arg.type, valueText]

theorem expand_body {F : CString} {A : List (Arg D)} (hA : Matching F A) :
    expand (parse F.text).1 A = some (bodyText F A, []) := by
  obtain ⟨R, hR⟩ := exists_expand hA
  unfold bodyText
  rw [hR]
  rfl

/-- The body of a complete format is the output of `vprintf`. -/
theorem bodyText_eq_render {F : CString} {A : List (Arg D)} (hF : Complete F) (hA : Matching F A) :
    bodyText F A = render F A := by
  unfold bodyText
  rw [expand_render hF hA]
  rfl

theorem printTrailer_eq (file : CString) (line : BitVec 32) (b : B) :
    printf trailerFormat ([.string (basename file), .int line] : List (Arg D)) b =
      .ok (write (trailerText file line) b) := by
  have hparse : parse trailerFormat.text =
      ([.literal ' ', .literal '-', .literal ' ', .directive plain [] 's', .literal ':',
        .literal ' ', .directive plain [] 'd', .literal '\n'], []) := by decide +kernel
  refine printf_of_expand (congrArg Prod.snd hparse) ?_ b
  rw [hparse]
  simp [expand, Item.expand, argType, Arg.type, valueText, integer_plain, trailerText]

/-- The number is passed where a string should be. -/
theorem printErrno_eq (e : BitVec 32) (b : B) :
    printf errnoFormat ([.int e] : List (Arg D)) b =
      if hasRoom (write [' '] b) then .error .argument else .ok (write [' '] b) := by
  -- the blank, and the `%s`
  have hblank : item errnoFormat.text = some (.literal ' ', errnoFormat.text.tail) := by
    decide +kernel
  have hs : item errnoFormat.text.tail =
      some (.directive plain [] 's', errnoFormat.text.drop 3) := by decide +kernel
  unfold printf
  cases hroom : hasRoom b with
  | false =>
    rw [vprintf_full _ hroom, write_of_full hroom, hroom]
    rfl
  | true =>
    rw [vprintf_item hblank hroom rfl]
    cases hroom' : hasRoom (write [' '] b) with
    | false =>
      rw [vprintf_full _ hroom']
      rfl
    | true =>
      rw [vprintf_item_fault hs hroom' rfl]
      rfl

end

/-! ### The record -/

/-- The level has no name. -/
theorem log_bounds {l : Log} (hlevel : l.curLevel = .numLogLevels) (time tid file : CString)
    (line : BitVec 32) (F : CString) (A : List (Arg D)) :
    l.log time tid file line F A = .error .bounds := by
  unfold Log.log
  rw [hlevel]
  rfl

section
variable {l : Log} (hprint : l.print = newBuffer) (hlevel : l.curLevel ≠ .numLogLevels)
  {time tid : CString} (file : CString) (line : BitVec 32) {F : CString} {A : List (Arg D)}
include hprint hlevel

/-- The body goes wrong. -/
theorem log_of_error {e : Fault}
    (hbody : printf F A (write (headerText time tid l.curLevel) newBuffer) = .error e) :
    l.log time tid file line F A = .error e := by
  unfold Log.log
  simp only [hprint, printHeader_eq time tid hlevel, bind, Except.bind, hbody]

variable {b : LogBuffer smallBuffer}
  (hbody : printf F A (write (headerText time tid l.curLevel) newBuffer) = .ok b)
include hbody

theorem log_of_no_errno (he : l.errnoSave = 0) :
    l.log time tid file line F A = .ok { l with print := write (trailerText file line) b } := by
  unfold Log.log
  simp only [hprint, printHeader_eq time tid hlevel, bind, Except.bind, hbody, he, ne_eq,
    not_true_eq_false, if_false, printTrailer_eq]

theorem log_of_errno (he : l.errnoSave ≠ 0) :
    l.log time tid file line F A =
      if hasRoom (write [' '] b) then .error .argument
      else .ok { l with print := write (trailerText file line) (write [' '] b) } := by
  unfold Log.log
  simp only [hprint, printHeader_eq time tid hlevel, bind, Except.bind, hbody, if_pos he,
    printErrno_eq]
  split_ifs with hroom
  · rfl
  · simp only [printTrailer_eq]

end

theorem full_iff {t : List Char} : hasRoom (write t newBuffer) = false ↔ 3999 ≤ t.length := by
  have htext : newBuffer.text = [] := rfl
  rw [LogBuffer.hasRoom_write_eq_false, htext, List.length_nil, Nat.zero_add]
  rfl

section
variable {F : CString} {A : List (Arg D)} (hA : Matching F A) (t : List Char)
include hA

/-- The body, after a text. -/
theorem printBody_eq (h : Complete F ∨ 3999 ≤ (t ++ bodyText F A).length) :
    printf F A (write t newBuffer) = .ok (write (t ++ bodyText F A) newBuffer) := by
  rw [← full_iff, ← write_write] at h
  rw [← write_write]
  rcases h with hF | hfull
  · exact printf_of_expand hF (expand_body hA) _
  · exact printf_of_full (expand_body hA) hfull

theorem printBody_overrun (h : ¬ (Complete F ∨ 3999 ≤ (t ++ bodyText F A).length)) :
    printf F A (write t newBuffer) = .error .overrun := by
  rw [← full_iff, ← write_write] at h
  obtain ⟨hF, hroom⟩ := not_or.mp h
  exact printf_overrun hF (expand_body hA) (Bool.not_eq_false _ ▸ hroom)

end

section
variable {l : Log} (hl : Constructed l) (strerror : BitVec 32 → CString)
  (time tid file : CString) (line : BitVec 32) {F : CString} {A : List (Arg D)}
  (hA : Matching F A)
include hl hA

/-- The four calls write the record, as far as there is room. -/
theorem log_ok (hlevel : l.curLevel ≠ .numLogLevels)
    (hbody : Complete F ∨ 3999 ≤ (headerText time tid l.curLevel ++ bodyText F A).length)
    (herrno : l.errnoSave = 0 ∨
      3999 ≤ (headerText time tid l.curLevel ++ bodyText F A ++ [' ']).length) :
    l.log time tid file line F A = .ok { l with print := write (headerText time tid l.curLevel ++
      bodyText F A ++ errnoText strerror l.errnoSave ++ trailerText file line) newBuffer } := by
  have hprint : l.print = newBuffer := by cases hl <;> rfl
  have hprintf := printBody_eq hA _ hbody
  by_cases he : l.errnoSave = 0
  · have hnone : errnoText strerror l.errnoSave = [] := if_pos he
    rw [log_of_no_errno hprint hlevel file line hprintf he, hnone, List.append_nil, write_write]
  · obtain ⟨text, htext⟩ : ∃ text, errnoText strerror l.errnoSave = [' '] ++ text :=
      ⟨_, (if_neg he).trans (by simp only [List.append_assoc]; rfl)⟩
    have hroom := full_iff.mpr (herrno.resolve_left he)
    rw [← write_write] at hroom
    rw [log_of_errno hprint hlevel file line hprintf he, hroom, htext,
      ← write_write _ (trailerText file line), ← write_write _ ([' '] ++ text),
      ← write_write [' '] text]
    -- there is no room for the rest
    simp only [write_of_full hroom]
    rfl

theorem log_error (h : ¬ (l.curLevel ≠ .numLogLevels ∧
      (Complete F ∨ 3999 ≤ (headerText time tid l.curLevel ++ bodyText F A).length) ∧
      (l.errnoSave = 0 ∨
        3999 ≤ (headerText time tid l.curLevel ++ bodyText F A ++ [' ']).length))) :
    ∃ e, l.log time tid file line F A = .error e := by
  by_cases hlevel : l.curLevel = .numLogLevels
  · exact ⟨_, log_bounds hlevel ..⟩
  have hprint : l.print = newBuffer := by cases hl <;> rfl
  by_cases hbody : Complete F ∨ 3999 ≤ (headerText time tid l.curLevel ++ bodyText F A).length
  · -- the errno part fetches its argument
    obtain ⟨he, hlt⟩ := not_or.mp fun herrno => h ⟨hlevel, hbody, herrno⟩
    rw [← full_iff, ← write_write] at hlt
    refine ⟨.argument, ?_⟩
    rw [log_of_errno hprint hlevel file line (printBody_eq hA _ hbody) he]
    exact if_pos (Bool.not_eq_false _ ▸ hlt)
  · exact ⟨_, log_of_error hprint hlevel file line (printBody_overrun hA _ hbody)⟩

end

theorem not_recorded {l : Log} {strerror : BitVec 32 → CString} {time tid file : CString}
    {line : BitVec 32} {F : CString} {A : List (Arg D)} {e : Fault}
    (h : l.log time tid file line F A = .error e) :
    ¬ Recorded strerror time tid file line F A l := by
  rintro ⟨l', hl', -⟩
  rw [h] at hl'
  cases hl'

/-- **A record** is what it should be if and only if the level has a name, the body's format is
complete or not taken to its end, and there is no `errno` to print or no room for its text. -/
theorem recorded_iff {l : Log} (hl : Constructed l) (strerror : BitVec 32 → CString)
    (time tid file : CString) (line : BitVec 32) {F : CString} {A : List (Arg D)}
    (hA : Matching F A) :
    Recorded strerror time tid file line F A l ↔
      l.curLevel ≠ .numLogLevels ∧
      (Complete F ∨ 3999 ≤ (headerText time tid l.curLevel ++ bodyText F A).length) ∧
      (l.errnoSave = 0 ∨
        3999 ≤ (headerText time tid l.curLevel ++ bodyText F A ++ [' ']).length) := by
  by_cases h : l.curLevel ≠ .numLogLevels ∧
      (Complete F ∨ 3999 ≤ (headerText time tid l.curLevel ++ bodyText F A).length) ∧
      (l.errnoSave = 0 ∨
        3999 ≤ (headerText time tid l.curLevel ++ bodyText F A ++ [' ']).length)
  · refine iff_of_true ⟨_, log_ok hl strerror time tid file line hA h.1 h.2.1 h.2.2, ?_⟩ h
    rw [LogBuffer.text_write]
    rfl
  · obtain ⟨e, he⟩ := log_error hl time tid file line hA h
    exact iff_of_false (not_recorded he) h

/-- `LOG_INFO("%d", 7)`. -/
theorem recorded_iff_info :
    let strerror : BitVec 32 → CString := fun _ => ⟨['S', 'u', 'c', 'c', 'e', 's', 's'], by decide⟩
    let time : CString := ⟨['1', '2', ':', '0', '0'], by decide⟩
    let tid : CString := ⟨['4', '2'], by decide⟩
    let file : CString := ⟨['a', '/', 'm', '.', 'c', 'p', 'p'], by decide⟩
    let F : CString := ⟨['%', 'd'], by decide⟩
    let A : List (Arg ℚ) := [.int 7]
    let l := Log.ofLevel .info
    Recorded strerror time tid file 30 F A l ↔
      l.curLevel ≠ .numLogLevels ∧
      (Complete F ∨ 3999 ≤ (headerText time tid l.curLevel ++ bodyText F A).length) ∧
      (l.errnoSave = 0 ∨
        3999 ≤ (headerText time tid l.curLevel ++ bodyText F A ++ [' ']).length) := by
  intro strerror time tid file F A l
  exact recorded_iff (.ofLevel .info) strerror time tid file 30 (by decide +kernel)

/-- `LOG_SYSERR("x")` with `errno` 2. -/
theorem not_always_recorded : ¬ ∀ (l : Log) (strerror : BitVec 32 → CString)
    (time tid file : CString) (line : BitVec 32) (F : CString) (A : List (Arg ℚ)),
    Constructed l → Matching F A → Recorded strerror time tid file line F A l := by
  intro h
  let time : CString := ⟨['1', '2', ':', '0', '0'], by decide⟩
  let tid : CString := ⟨['4', '2'], by decide⟩
  let file : CString := ⟨['m', '.', 'c', 'p', 'p'], by decide⟩
  let F : CString := ⟨['x'], by decide⟩
  have hparse : parse F.text = ([.literal 'x'], []) := by decide +kernel
  have hexpand : expand (parse F.text).1 ([] : List (Arg ℚ)) = some (['x'], []) := by
    rw [hparse]
    rfl
  let strerror : BitVec 32 → CString := fun _ =>
    ⟨['N', 'o', ' ', 's', 'u', 'c', 'h', ' ', 'f', 'i', 'l', 'e', ' ', 'o', 'r', ' ',
      'd', 'i', 'r', 'e', 'c', 't', 'o', 'r', 'y'], by decide⟩
  have hbody := printf_of_expand (congrArg Prod.snd hparse) hexpand
    (write (headerText time tid .error) newBuffer)
  have hlog := log_of_errno (l := Log.ofErrno false 2) rfl nofun file 30 hbody (by decide)
  have hroom : hasRoom (write [' '] (write ['x'] (write (headerText time tid .error) newBuffer))) =
      true := by
    rw [write_write, write_write, ← Bool.not_eq_false, full_iff]
    decide
  rw [hroom] at hlog
  refine not_recorded hlog (h _ strerror time tid file 30 F [] (.ofErrno false 2) ?_)
  unfold Matching signature
  rw [hparse]
  rfl

end ToolsCxx.Logging.Record
