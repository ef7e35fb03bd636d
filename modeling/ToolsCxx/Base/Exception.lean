import ToolsCxx.Lib.LastIndex
import ToolsCxx.Lib.Blocks

/-! # `Exception`: the stack trace

`fill_stack_trace` looks in every string of `backtrace_symbols` for the last `(` and the last `+`,
terminates the string at the `+` for the call of the demangler, and puts the `+` back. A string is
the list of its characters; a pointer into it is an index, or null (`none`). Writing or reading
through null is a fault.

A frame is treated as it should be if and only if it has both marks, and they are in this order or
the demangler refuses what is after the `(` (`exists_survives_iff`). -/

namespace ToolsCxx.Base.Exception

open ToolsCxx.Lib.LastIndex ToolsCxx.Lib.Blocks

inductive Fault where
  /-- `*plus = '\0'` without a `plus`. -/
  | write
  /-- `__cxa_demangle(leftPar + 1, …)` without a `leftPar`. -/
  | read
  deriving DecidableEq

/-- The loop over `p`: `leftPar` and `plus`. -/
def findMarks (leftPar plus : Option ℕ) (p : ℕ) : List Char → Option ℕ × Option ℕ
  | [] => (leftPar, plus)
  | c :: string =>
    if c = '\x00' then (leftPar, plus)
    else if c = '(' then findMarks (some p) plus (p + 1) string
    else if c = '+' then findMarks leftPar (some p) (p + 1) string
    else findMarks leftPar plus (p + 1) string

/-- The body of the loop over the frames. `demangle` is `__cxa_demangle`, with `status` zero if
there is a result. -/
def appendFrame (demangle : List Char → Option (List Char)) (string stack : List Char) :
    Except Fault (List Char) :=
  match findMarks none none 0 string with
  | (_, none) => .error .write
  | (none, some _) => .error .read
  | (some leftPar, some plus) =>
    let cut := string.set plus '\x00'
    let restored := cut.set plus '+'
    match demangle (stringAt '\x00' cut (leftPar + 1)) with
    | none => .ok (stack ++ stringAt '\x00' restored 0 ++ ['\n'])
    | some demangled =>
      .ok (stack ++ restored.take (leftPar + 1) ++ demangled ++ stringAt '\x00' restored plus ++
        ['\n'])

/-- The loop over the frames, from the frame `i` on. -/
def frameLoop (demangle : ℕ → List Char → Option (List Char)) :
    ℕ → List (List Char) → List Char → Except Fault (List Char)
  | _, [], stack => .ok stack
  | i, string :: strings, stack =>
    match appendFrame (demangle i) string stack with
    | .error e => .error e
    | .ok stack => frameLoop demangle (i + 1) strings stack

/-- `Exception::fill_stack_trace`: `m_stack`, from what `backtrace_symbols` returns. -/
def fillStackTrace (demangle : ℕ → List Char → Option (List Char))
    (strings : Option (List (List Char))) : Except Fault (List Char) :=
  match strings with
  | none => .ok []
  | some strings => frameLoop demangle 1 (strings.drop 1) []

/-! ### The marks -/

theorem findMarks_eq {s : List Char} (hnul : '\x00' ∉ s) (leftPar plus : Option ℕ) (p : ℕ) :
    findMarks leftPar plus p s =
      (((lastIdx '(' s).map (p + ·)).or leftPar, ((lastIdx '+' s).map (p + ·)).or plus) := by
  induction s generalizing leftPar plus p with
  | nil => rfl
  | cons c s ih =>
    obtain ⟨hc, hs⟩ := not_or.mp (mt List.mem_cons.mpr hnul)
    -- the marks in the rest win
    have hlast : ∀ (a : Char) (old : Option ℕ), ((lastIdx a (c :: s)).map (p + ·)).or old =
        ((lastIdx a s).map (p + 1 + ·)).or (if c = a then some p else old) := by
      intro a old
      rw [lastIdx]
      cases lastIdx a s with
      | some k => exact congrArg some (Nat.succ_add_eq_add_succ p k).symm
      | none => split_ifs <;> rfl
    rw [findMarks, if_neg (Ne.symm hc), hlast, hlast]
    split_ifs with hpar hplus hplus
    · subst hpar
      exact absurd hplus (by decide)
    · exact ih hs _ _ _
    · exact ih hs _ _ _
    · exact ih hs _ _ _

theorem findMarks_none {s : List Char} (hnul : '\x00' ∉ s) :
    findMarks none none 0 s = (lastIdx '(' s, lastIdx '+' s) := by
  rw [findMarks_eq hnul]
  simp

/-- The last `(` is before the last `+`: in `(name+offset)` they are the marks of the symbol. -/
def Marked (path symbol rest s : List Char) : Prop :=
  s = path ++ '(' :: (symbol ++ '+' :: rest) ∧ '(' ∉ symbol ∧ '(' ∉ rest ∧ '+' ∉ rest

/-- The last `+` is before the last `(`. -/
def Crossed (path middle rest s : List Char) : Prop :=
  s = path ++ '+' :: (middle ++ '(' :: rest) ∧ '+' ∉ middle ∧ '+' ∉ rest ∧ '(' ∉ rest

section
variable {path symbol middle rest s : List Char}

theorem Marked.marks (h : Marked path symbol rest s) :
    lastIdx '(' s = some path.length ∧
      lastIdx '+' s = some (path ++ '(' :: symbol).length := by
  obtain ⟨rfl, hsymbol, hrest, hplus⟩ := h
  refine ⟨lastIdx_append ?_, ?_⟩
  · rw [List.mem_append, List.mem_cons, not_or, not_or]
    exact ⟨hsymbol, by decide, hrest⟩
  · rw [← List.cons_append, ← List.append_assoc]
    exact lastIdx_append hplus

theorem Crossed.marks (h : Crossed path middle rest s) :
    lastIdx '(' s = some (path ++ '+' :: middle).length ∧ lastIdx '+' s = some path.length := by
  obtain ⟨rfl, hmiddle, hrest, hpar⟩ := h
  refine ⟨?_, lastIdx_append ?_⟩
  · rw [← List.cons_append, ← List.append_assoc]
    exact lastIdx_append hpar
  · rw [List.mem_append, List.mem_cons, not_or, not_or]
    exact ⟨hmiddle, by decide, hrest⟩

/-- **The shapes of a frame**. -/
theorem shapes (s : List Char) : '(' ∉ s ∨ '+' ∉ s ∨
    (∃ path symbol rest, Marked path symbol rest s) ∨
      ∃ path middle rest, Crossed path middle rest s := by
  cases hpar : lastIdx '(' s with
  | none => exact .inl (lastIdx_eq_none.mp hpar)
  | some k =>
    obtain ⟨hsplit, htail⟩ := lastIdx_eq_some hpar
    generalize s.take k = path at hsplit
    generalize s.drop (k + 1) = tail at hsplit htail
    right
    cases hplus : lastIdx '+' tail with
    | some j =>
      obtain ⟨hsplit', hrest⟩ := lastIdx_eq_some hplus
      right; left
      refine ⟨path, tail.take j, tail.drop (j + 1), by rw [← hsplit']; exact hsplit, ?_, ?_, hrest⟩
      · exact fun h => htail (List.mem_of_mem_take h)
      · exact fun h => htail (List.mem_of_mem_drop h)
    | none =>
      have hno : '+' ∉ tail := lastIdx_eq_none.mp hplus
      cases hplus' : lastIdx '+' path with
      | some j =>
        obtain ⟨hsplit', hmiddle⟩ := lastIdx_eq_some hplus'
        right; right
        refine ⟨path.take j, path.drop (j + 1), tail, ?_, hmiddle, hno, htail⟩
        rw [hsplit, ← List.cons_append, ← List.append_assoc, ← hsplit']
      | none =>
        left
        rw [hsplit, List.mem_append, List.mem_cons, not_or, not_or]
        exact ⟨lastIdx_eq_none.mp hplus', by decide, hno⟩

end

/-! ### A frame -/

theorem set_mark {u v : List Char} {c : Char} (b : Char) :
    (u ++ c :: v).set u.length b = u ++ b :: v := by
  rw [List.set_append_right _ _ le_rfl, Nat.sub_self]
  rfl

section
variable {demangle : List Char → Option (List Char)} {path symbol middle rest s : List Char}
  (hnul : '\x00' ∉ s) (stack : List Char)
include hnul

/-- Both marks are there. -/
theorem appendFrame_eq {leftPar plus : ℕ} (hpar : lastIdx '(' s = some leftPar)
    (hplus : lastIdx '+' s = some plus) : appendFrame demangle s stack =
      .ok (stack ++ (match demangle (stringAt '\x00' (s.set plus '\x00') (leftPar + 1)) with
        | none => s
        | some name => s.take (leftPar + 1) ++ name ++ s.drop plus) ++ ['\n']) := by
  have hmarks : findMarks none none 0 s = (some leftPar, some plus) := by
    rw [findMarks_none hnul, hpar, hplus]
  have hrestored : (s.set plus '\x00').set plus '+' = s := by
    obtain ⟨hsplit, -⟩ := lastIdx_eq_some hplus
    have hlen : (s.take plus).length = plus :=
      List.length_take_of_le (lastIdx_lt hplus).le
    have hset := set_mark (u := s.take plus) (c := '+') (v := s.drop (plus + 1)) '+'
    rw [List.set_set]
    rw [← hsplit, hlen] at hset
    exact hset
  have hwhole : stringAt '\x00' s 0 = s := stringAt_of_not_mem hnul []
  have hend : stringAt '\x00' s plus = s.drop plus :=
    takeWhile_of_not_mem fun h => hnul (List.mem_of_mem_drop h)
  unfold appendFrame
  rw [hmarks]
  simp only [hrestored, hwhole, hend]
  cases demangle (stringAt '\x00' (s.set plus '\x00') (leftPar + 1)) with
  | none => rfl
  | some name => simp only [List.append_assoc]

/-- A mark is missing. -/
theorem appendFrame_fault (h : lastIdx '(' s = none ∨ lastIdx '+' s = none) :
    ∃ e, appendFrame demangle s stack = .error e := by
  unfold appendFrame
  rw [findMarks_none hnul]
  cases hplus : lastIdx '+' s with
  | none => exact ⟨.write, rfl⟩
  | some plus =>
    have hpar : lastIdx '(' s = none := h.resolve_right fun hnone => by
      rw [hplus] at hnone
      cases hnone
    rw [hpar]
    exact ⟨.read, rfl⟩

theorem appendFrame_marked (h : Marked path symbol rest s) : appendFrame demangle s stack =
    .ok (stack ++ (match demangle symbol with
      | none => s
      | some name => path ++ '(' :: (name ++ '+' :: rest)) ++ ['\n']) := by
  rw [appendFrame_eq hnul stack h.marks.1 h.marks.2]
  obtain ⟨rfl, -⟩ := h
  have hsymbol : '\x00' ∉ symbol := fun h => hnul (by simp [h])
  have hplus : path ++ '(' :: (symbol ++ '+' :: rest) = (path ++ '(' :: symbol) ++ '+' :: rest := by
    simp only [List.append_assoc, List.cons_append]
  have hpar : ∀ t, path ++ '(' :: t = (path ++ ['(']) ++ t := fun t => by
    rw [List.append_assoc, List.singleton_append]
  have hlen : path.length + 1 = (path ++ ['(']).length := by rw [List.length_append]; rfl
  have hcut : (path ++ '(' :: (symbol ++ '+' :: rest)).set (path ++ '(' :: symbol).length '\x00' =
      (path ++ ['(']) ++ (symbol ++ '\x00' :: rest) := by
    rw [hplus, set_mark, List.append_assoc, List.cons_append, hpar]
  have htake : (path ++ '(' :: (symbol ++ '+' :: rest)).take (path.length + 1) = path ++ ['('] := by
    rw [hpar, hlen, List.take_left]
  have hdrop : (path ++ '(' :: (symbol ++ '+' :: rest)).drop (path ++ '(' :: symbol).length =
      '+' :: rest := by
    rw [hplus, List.drop_left]
  rw [htake, hdrop, hcut, hlen, stringAt_of_nul hsymbol]
  cases demangle symbol with
  | none => rfl
  | some name => simp only [List.append_assoc, List.cons_append, List.nil_append]

theorem appendFrame_crossed (h : Crossed path middle rest s) : appendFrame demangle s stack =
    .ok (stack ++ (match demangle rest with
      | none => s
      | some name =>
        path ++ '+' :: (middle ++ '(' :: (name ++ '+' :: (middle ++ '(' :: rest)))) ++ ['\n']) := by
  rw [appendFrame_eq hnul stack h.marks.1 h.marks.2]
  obtain ⟨rfl, -⟩ := h
  have hrest : '\x00' ∉ rest := fun h => hnul (by simp [h])
  have hpar : ∀ c, path ++ c :: (middle ++ '(' :: rest) =
      (path ++ c :: (middle ++ ['('])) ++ rest :=
    fun c => by simp only [List.append_assoc, List.cons_append, List.nil_append]
  have hlen : ∀ c, (path ++ '+' :: middle).length + 1 = (path ++ c :: (middle ++ ['('])).length :=
    fun c => by simp only [List.length_append, List.length_cons, List.length_nil]; omega
  have htake : (path ++ '+' :: (middle ++ '(' :: rest)).take ((path ++ '+' :: middle).length + 1) =
      path ++ '+' :: (middle ++ ['(']) := by
    rw [hpar, hlen '+', List.take_left]
  rw [htake, List.drop_left, set_mark, hpar, hlen '\x00', stringAt_of_not_mem hrest]
  cases demangle rest with
  | none => rfl
  | some name => simp only [List.append_assoc, List.cons_append, List.nil_append]

end

/-- The line is the frame, or has only the text between the marks replaced. -/
def Line (demangle : List Char → Option (List Char)) (s line : List Char) : Prop :=
  line = s ∨ ∃ path symbol rest name, Marked path symbol rest s ∧ demangle symbol = some name ∧
    line = path ++ '(' :: (name ++ '+' :: rest)

/-- Nothing goes wrong with the frame, and the line that is appended is right. -/
def Survives (demangle : List Char → Option (List Char)) (s line : List Char) : Prop :=
  (∀ stack, appendFrame demangle s stack = .ok (stack ++ line ++ ['\n'])) ∧ Line demangle s line

/-- The frame has both marks, in their order, or the text after the `(` is refused. -/
def Readable (demangle : List Char → Option (List Char)) (s : List Char) : Prop :=
  ∃ leftPar plus, lastIdx '(' s = some leftPar ∧ lastIdx '+' s = some plus ∧
    (leftPar < plus ∨ demangle (s.drop (leftPar + 1)) = none)

section
variable {demangle : List Char → Option (List Char)} {path symbol middle rest s line : List Char}

theorem Marked.readable (h : Marked path symbol rest s) : Readable demangle s := by
  refine ⟨_, _, h.marks.1, h.marks.2, .inl ?_⟩
  rw [List.length_append, List.length_cons]
  omega

theorem Crossed.readable_iff (h : Crossed path middle rest s) :
    Readable demangle s ↔ demangle rest = none := by
  have hdrop : s.drop ((path ++ '+' :: middle).length + 1) = rest := by
    have hlen : (path ++ '+' :: middle).length + 1 = (path ++ '+' :: (middle ++ ['('])).length := by
      simp only [List.length_append, List.length_cons, List.length_nil]
      omega
    have hsplit : s = (path ++ '+' :: (middle ++ ['('])) ++ rest := by
      rw [h.1]
      simp only [List.append_assoc, List.cons_append, List.nil_append]
    rw [hlen, hsplit, List.drop_left]
  constructor
  · rintro ⟨leftPar, plus, hpar, hplus, hcase⟩
    rw [h.marks.1] at hpar
    rw [h.marks.2] at hplus
    cases hpar
    cases hplus
    rcases hcase with hlt | hnone
    · rw [List.length_append] at hlt
      omega
    · rwa [hdrop] at hnone
  · intro hnone
    exact ⟨_, _, h.marks.1, h.marks.2, .inr (by rw [hdrop]; exact hnone)⟩

/-- A longer line is wrong. -/
theorem Crossed.not_line (h : Crossed path middle rest s) {name : List Char} :
    ¬ Line demangle s
      (path ++ '+' :: (middle ++ '(' :: (name ++ '+' :: (middle ++ '(' :: rest)))) := by
  rintro (hsame | ⟨path', symbol', rest', name', hmarked, -⟩)
  · have hlen := congrArg List.length hsame
    rw [h.1] at hlen
    simp only [List.length_append, List.length_cons] at hlen
    omega
  · have hpar := hmarked.marks.1.symm.trans h.marks.1
    have hplus := hmarked.marks.2.symm.trans h.marks.2
    simp only [Option.some.injEq, List.length_append, List.length_cons] at hpar hplus
    omega

/-- **A frame** is treated as it should be if and only if it is readable. -/
theorem exists_survives_iff (hnul : '\x00' ∉ s) :
    (∃ line, Survives demangle s line) ↔ Readable demangle s := by
  have hmissing : (lastIdx '(' s = none ∨ lastIdx '+' s = none) →
      ((∃ line, Survives demangle s line) ↔ Readable demangle s) := by
    intro h
    refine iff_of_false ?_ ?_
    · rintro ⟨line, happend, -⟩
      obtain ⟨e, he⟩ : ∃ e, appendFrame demangle s [] = .error e := appendFrame_fault hnul [] h
      rw [happend] at he
      cases he
    · rintro ⟨leftPar, plus, hpar, hplus, -⟩
      rcases h with h | h
      · rw [h] at hpar
        cases hpar
      · rw [h] at hplus
        cases hplus
  rcases shapes s with hpar | hplus | ⟨path, symbol, rest, h⟩ | ⟨path, middle, rest, h⟩
  · exact hmissing (.inl (lastIdx_eq_none.mpr hpar))
  · exact hmissing (.inr (lastIdx_eq_none.mpr hplus))
  · refine iff_of_true ?_ h.readable
    cases hname : demangle symbol with
    | none =>
      refine ⟨s, fun stack => ?_, .inl rfl⟩
      rw [appendFrame_marked hnul stack h, hname]
    | some name =>
      refine ⟨_, fun stack => ?_, .inr ⟨path, symbol, rest, name, h, hname, rfl⟩⟩
      rw [appendFrame_marked hnul stack h, hname]
  · rw [h.readable_iff]
    cases hname : demangle rest with
    | none =>
      refine iff_of_true ⟨s, fun stack => ?_, .inl rfl⟩ rfl
      rw [appendFrame_crossed hnul stack h, hname]
    | some name =>
      refine iff_of_false ?_ (Option.some_ne_none _)
      rintro ⟨line, happend, hline⟩
      have hout := (appendFrame_crossed hnul [] h).symm.trans (happend [])
      rw [hname] at hout
      simp only [List.nil_append, Except.ok.injEq, List.append_cancel_right_eq] at hout
      rw [← hout] at hline
      exact h.not_line hline

end

/-! ### The trace -/

/-- Building the trace of the frames, the first one excepted, does not go wrong; the lines of the
trace are right. -/
def Traced (demangle : ℕ → List Char → Option (List Char)) (strings : List (List Char)) : Prop :=
  ∃ lines, fillStackTrace demangle (some strings) = .ok (lines.flatMap (· ++ ['\n'])) ∧
    List.Forall₂ (fun frame line => Survives (demangle frame.2) frame.1 line)
      ((strings.drop 1).zipIdx 1) lines

section
variable {demangle : ℕ → List Char → Option (List Char)}

/-- The loop appends the lines. -/
theorem frameLoop_eq {i : ℕ} {strings lines : List (List Char)} (stack : List Char)
    (h : List.Forall₂ (fun frame line => Survives (demangle frame.2) frame.1 line)
      (strings.zipIdx i) lines) :
    frameLoop demangle i strings stack = .ok (stack ++ lines.flatMap (· ++ ['\n'])) := by
  induction strings generalizing i lines stack with
  | nil =>
    cases h
    exact congrArg Except.ok (List.append_nil stack).symm
  | cons s strings ih =>
    rw [List.zipIdx_cons] at h
    cases h with
    | cons hs hrest =>
      rw [frameLoop, hs.1 stack]
      simp only [ih _ hrest, List.flatMap_cons, List.append_assoc]

theorem exists_forall₂_iff {α β : Type} {R : α → β → Prop} {l : List α} :
    (∃ l', List.Forall₂ R l l') ↔ ∀ a ∈ l, ∃ b, R a b := by
  induction l with
  | nil => exact iff_of_true ⟨[], .nil⟩ fun a ha => absurd ha List.not_mem_nil
  | cons a l ih =>
    rw [List.forall_mem_cons, ← ih]
    constructor
    · rintro ⟨l', h⟩
      cases h with
      | cons hb hl => exact ⟨⟨_, hb⟩, _, hl⟩
    · rintro ⟨⟨b, hb⟩, l', hl⟩
      exact ⟨b :: l', .cons hb hl⟩

/-- **The stack trace** is built as it should be if and only if every frame is readable. -/
theorem traced_iff {strings : List (List Char)} (hnul : ∀ s ∈ strings, '\x00' ∉ s) :
    Traced demangle strings ↔
      ∀ frame ∈ (strings.drop 1).zipIdx 1, Readable (demangle frame.2) frame.1 := by
  have hframe : ∀ frame ∈ (strings.drop 1).zipIdx 1, '\x00' ∉ frame.1 := by
    intro frame h
    exact hnul _ (List.mem_of_mem_drop (List.fst_mem_of_mem_zipIdx h))
  constructor
  · rintro ⟨lines, -, hlines⟩ frame hmem
    exact (exists_survives_iff (hframe frame hmem)).mp
      (exists_forall₂_iff.mp ⟨lines, hlines⟩ frame hmem)
  · intro h
    obtain ⟨lines, hlines⟩ := exists_forall₂_iff.mpr fun frame hmem =>
      (exists_survives_iff (hframe frame hmem)).mpr (h frame hmem)
    exact ⟨lines, frameLoop_eq [] hlines, hlines⟩

end

/-- The frame of the constructor, a frame with a symbol, and a demangler that knows it. -/
theorem traced_iff_main :
    let demangle : ℕ → List Char → Option (List Char) := fun _ name =>
      if name = ['_', 'Z', '1', 'f', 'v'] then some ['f', '(', ')'] else none
    let strings : List (List Char) :=
      [['[', '0', ']'], ['.', '/', 'a', '(', '_', 'Z', '1', 'f', 'v', '+', '4', ')']]
    Traced demangle strings ↔
      ∀ frame ∈ (strings.drop 1).zipIdx 1, Readable (demangle frame.2) frame.1 :=
  traced_iff (List.forall_mem_cons.mpr ⟨by decide, List.forall_mem_singleton.mpr (by decide)⟩)

/-- A caller's frame without a symbol: `[0x400a1d]`. -/
theorem not_always_traced : ¬ ∀ (demangle : ℕ → List Char → Option (List Char))
    (strings : List (List Char)), (∀ s ∈ strings, '\x00' ∉ s) → Traced demangle strings := by
  intro h
  obtain ⟨lines, htrace, -⟩ := h (fun _ _ => none)
    [['a', '(', ')'], ['[', '0', 'x', '4', '0', '0', 'a', '1', 'd', ']']]
    (List.forall_mem_cons.mpr ⟨by decide, List.forall_mem_singleton.mpr (by decide)⟩)
  cases htrace

end ToolsCxx.Base.Exception
