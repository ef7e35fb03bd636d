import ToolsCxx.Logging.Record

/-! # `Log`: the lines

The trailer ends with a newline, the last character that `log` appends. The buffer keeps no place
for it: a record whose text is clipped loses it (`terminated_iff`), and the next one goes on in the
same line. Records that keep it are lines of the output (`outputs_lines`). -/

namespace ToolsCxx.Logging.Lines

open ToolsCxx.Lib.Sinks
open ToolsCxx.Logging.Buffer ToolsCxx.Logging.Print ToolsCxx.Logging.Format
open ToolsCxx.Logging.Compose ToolsCxx.Logging.Logger ToolsCxx.Logging.Record

/-- The characters that an effect outputs. -/
def effectText : Effect → List Char
  | .output msg => msg
  | _ => []

/-- The characters that the destructor passes to `m_output`. -/
def emitted (l : Log) : List Char := l.destroy.flatMap effectText

theorem emitted_eq (l : Log) : emitted l = l.print.text := by
  unfold emitted Log.destroy
  split_ifs <;> exact List.append_nil _

variable {D : Type} [Double D]

/-- A call of one of the macros: the `Log` it constructs, and what `log` gets. -/
structure Entry (D : Type) [Double D] where
  log : Log
  constructed : Constructed log
  time : CString
  tid : CString
  file : CString
  line : BitVec 32
  fmt : CString
  args : List (Arg D)
  matching : Matching fmt args

namespace Entry

def header (e : Entry D) : List Char := headerText e.time e.tid e.log.curLevel

def body (e : Entry D) : List Char := bodyText e.fmt e.args

/-- What `log` appends before the newline. -/
def lineText (strerror : BitVec 32 → CString) (e : Entry D) : List Char :=
  e.header ++ e.body ++ errnoText strerror e.log.errnoSave ++
    ([' ', '-', ' '] ++ (basename e.file).text ++ [':', ' '] ++ decimal e.line.toInt)

def run (e : Entry D) : Except Fault Log :=
  e.log.log e.time e.tid e.file e.line e.fmt e.args

/-- The arguments of the errno part are not fetched, and the body's format not read past its
end. -/
def Passes (e : Entry D) : Prop :=
  e.log.curLevel ≠ .numLogLevels ∧
  (Complete e.fmt ∨ 3999 ≤ (e.header ++ e.body).length) ∧
  (e.log.errnoSave = 0 ∨ 3999 ≤ (e.header ++ e.body ++ [' ']).length)

/-- `log` goes through, and what is output ends with the newline that it appends: the one that
comes after as many characters as it appends before. -/
def Terminated (strerror : BitVec 32 → CString) (e : Entry D) : Prop :=
  ∃ l text, e.run = .ok l ∧ emitted l = text ++ ['\n'] ∧
    text.length = (e.lineText strerror).length

end Entry

/-! ### One record -/

section
variable (strerror : BitVec 32 → CString) (e : Entry D)

theorem line_newline : e.lineText strerror ++ ['\n'] =
    e.header ++ e.body ++ errnoText strerror e.log.errnoSave ++ trailerText e.file e.line := by
  unfold Entry.lineText trailerText
  simp only [List.append_assoc]

/-- When `log` goes through, the line and the newline are output, as far as there is room. -/
theorem run_ok (h : e.Passes) : ∃ l, e.run = .ok l ∧ l.curLevel = e.log.curLevel ∧
    emitted l = (e.lineText strerror ++ ['\n']).take 3999 := by
  obtain ⟨hlevel, hbody, herrno⟩ := h
  refine ⟨_, log_ok e.constructed strerror e.time e.tid e.file e.line e.matching hlevel hbody
    herrno, rfl, ?_⟩
  rw [emitted_eq, line_newline, LogBuffer.text_write]
  rfl

theorem passes_of_run {l : Log} (h : e.run = .ok l) : e.Passes := by
  by_contra hnot
  obtain ⟨f, hf⟩ := log_error e.constructed e.time e.tid e.file e.line e.matching hnot
  cases h.symm.trans hf

/-- The whole record fits. -/
theorem terminated_iff_fits :
    e.Terminated strerror ↔ e.Passes ∧ (e.lineText strerror).length < 3999 := by
  constructor
  · rintro ⟨l, text, hrun, htext, hlen⟩
    have hpass := passes_of_run e hrun
    obtain ⟨l', hrun', -, hemitted⟩ := run_ok strerror e hpass
    cases hrun.symm.trans hrun'
    have hle := congrArg List.length (hemitted.symm.trans htext)
    simp only [List.length_take, List.length_append, List.length_singleton, hlen] at hle
    exact ⟨hpass, by omega⟩
  · rintro ⟨hpass, hlt⟩
    obtain ⟨l, hrun, -, hemitted⟩ := run_ok strerror e hpass
    refine ⟨l, e.lineText strerror, hrun, ?_, rfl⟩
    rw [hemitted]
    exact List.take_of_length_le (by rw [List.length_append]; exact hlt)

/-- **A record ends with its newline** if and only if the level has a name, the body's format is
complete, there is no `errno` to print, and the whole text fits. -/
theorem terminated_iff :
    e.Terminated strerror ↔ e.log.curLevel ≠ .numLogLevels ∧ Complete e.fmt ∧ e.log.errnoSave = 0 ∧
      (e.header ++ e.body ++ trailerText e.file e.line).length ≤ 3999 := by
  rw [terminated_iff_fits]
  have hline := congrArg List.length (line_newline strerror e)
  have htrailer : 0 < (trailerText e.file e.line).length := Nat.succ_pos _
  unfold Entry.Passes
  simp only [List.length_append, List.length_singleton] at hline ⊢
  constructor
  · rintro ⟨⟨hlevel, hbody, herrno⟩, hlt⟩
    have hzero : e.log.errnoSave = 0 := by
      by_contra hne
      have hblank : 0 < (errnoText strerror e.log.errnoSave).length := by
        rw [errnoText, if_neg hne]
        exact Nat.succ_pos _
      have hfull := herrno.resolve_left hne
      omega
    exact ⟨hlevel, hbody.resolve_right (by omega), hzero, by omega⟩
  · rintro ⟨hlevel, hcomplete, hzero, hle⟩
    have hnone : errnoText strerror e.log.errnoSave = [] := if_pos hzero
    rw [hnone, List.length_nil] at hline
    exact ⟨⟨hlevel, .inl hcomplete, .inl hzero⟩, by omega⟩

/-- `LOG_INFO("%s", x)` with a string of 4000 characters. -/
theorem not_always_terminated : ¬ ∀ (strerror : BitVec 32 → CString) (e : Entry ℚ),
    e.Terminated strerror := by
  intro h
  let x : CString := ⟨List.replicate 4000 'x', fun h => by cases List.eq_of_mem_replicate h⟩
  let e : Entry ℚ :=
    { log := Log.ofLevel .info
      constructed := .ofLevel .info
      time := ⟨['1', '2', ':', '0', '0'], by decide⟩
      tid := ⟨['4', '2'], by decide⟩
      file := ⟨['m', '.', 'c', 'p', 'p'], by decide⟩
      line := 30
      fmt := ⟨['%', 's'], by decide⟩
      args := [.string x]
      matching := by decide +kernel }
  have hbody : e.body = x.text := by
    have hparse : parse e.fmt.text = ([.directive plain [] 's'], []) := by decide +kernel
    unfold Entry.body bodyText
    rw [hparse]
    exact List.append_nil x.text
  have hlt := ((terminated_iff_fits (fun _ => x) e).mp (h _ e)).2
  unfold Entry.lineText at hlt
  have hx : x.text.length = 4000 := List.length_replicate
  simp only [hbody, List.length_append, hx] at hlt
  omega

end

/-! ### Consecutive records -/

/-- What consecutive records output; `abort` ends the program. -/
def outputs : List (Entry D) → Except Fault (List Char)
  | [] => .ok []
  | e :: es => do
    let l ← e.run
    if Effect.abort ∈ l.destroy then .ok (emitted l)
    else
      let rest ← outputs es
      .ok (emitted l ++ rest)

theorem abort_mem_iff (l : Log) : Effect.abort ∈ l.destroy ↔ l.curLevel = .fatal := by
  unfold Log.destroy
  split_ifs with h
  · exact iff_of_true (by simp) h
  · exact iff_of_false (by simp) h

/-- **Records that end with their newlines** are lines of the output. -/
theorem outputs_lines (strerror : BitVec 32 → CString) {es : List (Entry D)}
    (hes : ∀ e ∈ es, e.Terminated strerror) (hfatal : ∀ e ∈ es, e.log.curLevel ≠ .fatal) :
    outputs es = .ok (es.flatMap fun e => e.lineText strerror ++ ['\n']) := by
  induction es with
  | nil => rfl
  | cons e es ih =>
    obtain ⟨hpass, hlt⟩ :=
      (terminated_iff_fits strerror e).mp (hes e List.mem_cons_self)
    obtain ⟨l, hrun, hlevel, hemitted⟩ := run_ok strerror e hpass
    have hne : Effect.abort ∉ l.destroy := by
      rw [abort_mem_iff, hlevel]
      exact hfatal e List.mem_cons_self
    rw [List.take_of_length_le (by rw [List.length_append]; exact hlt)] at hemitted
    have hrest := ih (fun e' he' => hes e' (List.mem_cons_of_mem e he'))
      (fun e' he' => hfatal e' (List.mem_cons_of_mem e he'))
    simp only [outputs, hrun, bind, Except.bind, if_neg hne, hrest, hemitted, List.flatMap_cons]

end ToolsCxx.Logging.Lines
