import ToolsCxx.Logging.Buffer
import ToolsCxx.Base.Timestamp
import ToolsCxx.Base.Integers

/-! # `LogPrint`

`vprintf` as a function of the format, the arguments and the buffer, which may be any sink: that of
a `LogPrint` is a `LogBuffer smallBuffer`.

* A `char` is a `Char`; a C string is the list of the characters before its terminator (`CString`),
  and the format pointer is the list of the characters between it and the terminator, or it has
  passed the terminator (`Pointer`): then reading is a fault (`.overrun`).
* The arguments are a list of typed values; an `int` and an `unsigned int` are the same 32 bits. A
  `va_arg` that finds no argument, or one of another type, is a fault (`.argument`).
* `double` is a type with the operations the code uses (`Double`); the rationals are the exact one.
* An operation without a defined result (`-int64` of the least `int64_t`, the conversion to
  `uint64_t` of a `double` out of its range) is noted in `undefined`; the run goes on with some
  value. -/

namespace ToolsCxx.Logging.Print

open ToolsCxx.Lib.Sinks ToolsCxx.Logging.Buffer

/-- A string: the characters before its terminator. -/
structure CString where
  text : List Char
  noNul : '\x00' ∉ text
  deriving DecidableEq

instance : Append CString where
  append s t := ⟨s.text ++ t.text, fun h => (List.mem_append.mp h).elim s.noNul t.noNul⟩

/-! ### Arguments -/

/-- The operations on `double`. -/
class Double (D : Type) where
  /-- `fn < 0`. -/
  isNeg : D → Bool
  neg : D → D
  add : D → D → D
  sub : D → D → D
  mul : D → D → D
  eq : D → D → Bool
  /-- `0.5`. -/
  half : D
  /-- `pow(10, width)`. -/
  pow10 : BitVec 8 → D
  ofUint64 : BitVec 64 → D
  /-- `static_cast<uint64_t>`; any value when the number is out of range. -/
  toUint64 : D → BitVec 64
  inRange : D → Bool

/-- Exact arithmetic. -/
instance : Double ℚ where
  isNeg x := x < 0
  neg x := -x
  add x y := x + y
  sub x y := x - y
  mul x y := x * y
  eq x y := x = y
  half := 1 / 2
  pow10 w := 10 ^ w.toNat
  ofUint64 n := n.toNat
  toUint64 x := BitVec.ofInt 64 (Base.Timestamp.truncate x)
  inRange x := 0 ≤ Base.Timestamp.truncate x ∧ Base.Timestamp.truncate x < 2 ^ 64

/-- The types of the arguments that `vprintf` fetches. -/
inductive ArgType where
  | int
  | long
  | double
  | pointer
  | string
  deriving DecidableEq

/-- An argument. -/
inductive Arg (D : Type) where
  | int (v : BitVec 32)
  | long (v : BitVec 64)
  | double (fn : D)
  | pointer (p : BitVec 64)
  | string (s : CString)
  deriving DecidableEq

namespace Arg

variable {D : Type}

def type : Arg D → ArgType
  | .int _ => .int
  | .long _ => .long
  | .double _ => .double
  | .pointer _ => .pointer
  | .string _ => .string

def asInt : Arg D → Option (BitVec 32)
  | .int v => some v
  | _ => none

def asLong : Arg D → Option (BitVec 64)
  | .long v => some v
  | _ => none

def asDouble : Arg D → Option D
  | .double fn => some fn
  | _ => none

def asPointer : Arg D → Option (BitVec 64)
  | .pointer p => some p
  | _ => none

def asString : Arg D → Option CString
  | .string s => some s
  | _ => none

end Arg

/-- What can go wrong. -/
inductive Fault where
  /-- The format is read after its terminator. -/
  | overrun
  /-- There is no argument, or it has another type. -/
  | argument
  /-- An array is accessed outside its bounds. -/
  | bounds
  deriving DecidableEq

/-- What a call changes. -/
structure State (B D : Type) where
  buffer : B
  args : List (Arg D)
  undefined : Bool := false
  deriving DecidableEq

/-! ### `printf_num` -/

inductive HexFlag where
  | no
  | lower
  | upper
  deriving DecidableEq

def hexArray : List Char :=
  ['0', '1', '2', '3', '4', '5', '6', '7', '8', '9', 'a', 'b', 'c', 'd', 'e', 'f']

def HEXArray : List Char :=
  ['0', '1', '2', '3', '4', '5', '6', '7', '8', '9', 'A', 'B', 'C', 'D', 'E', 'F']

/-- One of the three loops that write digits from the end of the array: `last` are those written,
31 places are before them at the start. -/
def digitLoop (digit : BitVec 64 → Char) (next : BitVec 64 → BitVec 64) (uint64 : BitVec 64)
    (last : List Char) : Except Fault (List Char) :=
  if last.length < 31 then
    let last' := digit uint64 :: last
    if next uint64 = 0 then .ok last' else digitLoop digit next (next uint64) last'
  else .error .bounds
termination_by 31 - last.length

/-- The digits of a number. -/
def numString (uint64 : BitVec 64) (hex : HexFlag) : Except Fault (List Char) :=
  match hex with
  | .lower =>
    digitLoop (fun n => hexArray.getD (n &&& 0xf).toNat '\x00') (fun n => n >>> 4) uint64 []
  | .upper =>
    digitLoop (fun n => HEXArray.getD (n &&& 0xf).toNat '\x00') (fun n => n >>> 4) uint64 []
  | .no => digitLoop (fun n => Char.ofNat ((n % 10).toNat + 48)) (fun n => n / 10) uint64 []

section
variable {B : Type} [Sink B Char]

/-- The loop that appends the padding. -/
def padLoop (padding : Char) (len width : BitVec 8) (buffer : B) : B :=
  if len < width then padLoop padding (len + 1) width (writeOne padding buffer) else buffer
termination_by width.toNat - len.toNat
decreasing_by bv_omega

/-- `LogPrint::printf_num`. -/
def printfNum (uint64 : BitVec 64) (hex : HexFlag) (padding : Char) (width : BitVec 8)
    (buffer : B) : Except Fault B := do
  let last ← numString uint64 hex
  .ok (write last (padLoop padding (BitVec.ofNat 8 last.length) width buffer))

end

/-! ### The format -/

/-- `fmt`: the characters before the terminator, or the pointer has passed it. -/
inductive Pointer where
  | at (fmt : List Char)
  | past
  deriving DecidableEq

/-- `*fmt`, where the pointer has not passed the terminator. -/
def deref (fmt : List Char) : Char := fmt.headD '\x00'

/-- `++ fmt`. -/
def next : List Char → Pointer
  | [] => .past
  | _ :: fmt => .at fmt

/-- The variables of `vprintf` that a directive sets. -/
structure Directive where
  sign : Bool
  hex : HexFlag
  padding : Char
  width : BitVec 8
  fracWidth : BitVec 8
  deriving DecidableEq

/-- The loops that read a width: the value, and where the pointer then is. -/
def digits (width : BitVec 8) : List Char → BitVec 8 × List Char
  | [] => (width, [])
  | c :: fmt =>
    if '0' ≤ c ∧ c ≤ '9' then digits (width * 10 + BitVec.ofNat 8 (c.toNat - '0'.toNat)) fmt
    else (width, c :: fmt)

theorem digits_suffix (width : BitVec 8) (fmt : List Char) : (digits width fmt).2 <:+ fmt := by
  induction fmt generalizing width with
  | nil => exact List.suffix_rfl
  | cons c fmt ih =>
    unfold digits
    split_ifs with h
    · exact (ih _).trans (List.suffix_cons c fmt)
    · exact List.suffix_rfl

section
variable {B : Type} [Sink B Char]

/-- The `for(;;)` over `u`, `x`, `X` and `.`. -/
def flags (d : Directive) (buffer : B) : List Char → Directive × B × List Char
  | [] => (d, buffer, [])
  | c :: fmt =>
    if c = 'u' then flags { d with sign := false } buffer fmt
    else if c = 'x' then
      flags { d with sign := false, hex := .lower } (write ['0', 'x'] buffer) fmt
    else if c = 'X' then
      flags { d with sign := false, hex := .upper } (write ['0', 'X'] buffer) fmt
    else if c = '.' then
      flags { d with fracWidth := (digits 0 fmt).1 } buffer (digits 0 fmt).2
    else (d, buffer, c :: fmt)
termination_by fmt => fmt.length
decreasing_by
  all_goals first
    | exact Nat.lt_succ_self _
    | exact Nat.lt_succ_of_le (digits_suffix _ _).length_le

section
variable (d : Directive) (buffer : B) (fmt : List Char)

@[simp] theorem flags_nil : flags d buffer [] = (d, buffer, []) := by unfold flags; rfl

@[simp] theorem flags_u :
    flags d buffer ('u' :: fmt) = flags { d with sign := false } buffer fmt := by
  conv_lhs => unfold flags
  exact if_pos rfl

@[simp] theorem flags_x : flags d buffer ('x' :: fmt) =
    flags { d with sign := false, hex := .lower } (write ['0', 'x'] buffer) fmt := by
  conv_lhs => unfold flags
  rw [if_neg (by decide), if_pos rfl]

@[simp] theorem flags_X : flags d buffer ('X' :: fmt) =
    flags { d with sign := false, hex := .upper } (write ['0', 'X'] buffer) fmt := by
  conv_lhs => unfold flags
  rw [if_neg (by decide), if_neg (by decide), if_pos rfl]

@[simp] theorem flags_dot : flags d buffer ('.' :: fmt) =
    flags { d with fracWidth := (digits 0 fmt).1 } buffer (digits 0 fmt).2 := by
  conv_lhs => unfold flags
  rw [if_neg (by decide), if_neg (by decide), if_neg (by decide), if_pos rfl]

theorem flags_other {c : Char} (hu : c ≠ 'u') (hx : c ≠ 'x') (hX : c ≠ 'X') (hdot : c ≠ '.') :
    flags d buffer (c :: fmt) = (d, buffer, c :: fmt) := by
  unfold flags
  rw [if_neg hu, if_neg hx, if_neg hX, if_neg hdot]

end

theorem flags_suffix (d : Directive) (buffer : B) (fmt : List Char) :
    (flags d buffer fmt).2.2 <:+ fmt := by
  induction d, buffer, fmt using flags.induct with
  | case1 d buffer => simp only [flags_nil, List.suffix_rfl]
  | case2 d buffer fmt ih => rw [flags_u]; exact ih.trans (List.suffix_cons _ _)
  | case3 d buffer fmt _ ih => rw [flags_x]; exact ih.trans (List.suffix_cons _ _)
  | case4 d buffer fmt _ _ ih => rw [flags_X]; exact ih.trans (List.suffix_cons _ _)
  | case5 d buffer fmt _ _ _ ih =>
    rw [flags_dot]
    exact ih.trans ((digits_suffix _ _).trans (List.suffix_cons _ _))
  | case6 d buffer c fmt hu hx hX hdot =>
    simp only [flags_other d buffer fmt hu hx hX hdot, List.suffix_rfl]

/-- What is read between `%` and the character of the conversion. -/
def scan (buffer : B) (fmt : List Char) : Directive × B × List Char :=
  flags
    { sign := true, hex := .no, padding := if deref fmt = '0' then '0' else ' ',
      width := (digits 0 fmt).1, fracWidth := 6 }
    buffer (digits 0 fmt).2

theorem scan_suffix (buffer : B) (fmt : List Char) : (scan buffer fmt).2.2 <:+ fmt :=
  (flags_suffix _ _ _).trans (digits_suffix _ _)

end

/-! ### Conversions -/

section
variable {B D : Type} [Sink B Char]

/-- `m_buffer.append`. -/
def State.append (buf : List Char) (s : State B D) : State B D :=
  { s with buffer := write buf s.buffer }

/-- `m_buffer.append_char`. -/
def State.appendChar (ch : Char) (s : State B D) : State B D :=
  { s with buffer := writeOne ch s.buffer }

/-- An operation that has no defined result if `p`. -/
def State.note (p : Bool) (s : State B D) : State B D :=
  { s with undefined := s.undefined || p }

/-- `va_arg` of the type that `select` selects. -/
def vaArg {α : Type} (select : Arg D → Option α) (s : State B D) :
    Except Fault (α × State B D) :=
  match s.args with
  | [] => .error .argument
  | a :: args =>
    match select a with
    | some v => .ok (v, { s with args := args })
    | none => .error .argument

/-- `printf_num` on the buffer. -/
def printNumber (d : Directive) (uint64 : BitVec 64) (s : State B D) :
    Except Fault (State B D) := do
  let buffer ← printfNum uint64 d.hex d.padding d.width s.buffer
  .ok { s with buffer := buffer }

/-- The end of the loop's body, with a sign. -/
def printSigned (d : Directive) (int64 : BitVec 64) (s : State B D) : Except Fault (State B D) :=
  if int64.slt 0 then
    printNumber d (-int64) ((s.appendChar '-').note (int64 == BitVec.intMin 64))
  else printNumber d int64 s

variable [Double D]

/-- `(fn - uint64) * pow(10, frac_width) + 0.5`. -/
def scaled (fn : D) (fracWidth : BitVec 8) : D :=
  Double.add (Double.mul (Double.sub fn (Double.ofUint64 (Double.toUint64 fn)))
    (Double.pow10 fracWidth)) Double.half

/-- `uint64` and `frac`, after the test for the carry. -/
def splitDouble (fn : D) (fracWidth : BitVec 8) : BitVec 64 × BitVec 64 :=
  let frac := Double.toUint64 (scaled fn fracWidth)
  if Double.eq (Double.ofUint64 frac : D) (Double.pow10 fracWidth) then
    (Double.toUint64 fn + 1, 0)
  else (Double.toUint64 fn, frac)

/-- `case 'f'`, with `fn` not negative. -/
def printDouble (d : Directive) (fn : D) (s : State B D) : Except Fault (State B D) := do
  let s := s.note (!Double.inRange fn || !Double.inRange (scaled fn d.fracWidth))
  let s ← printNumber d (splitDouble fn d.fracWidth).1 s
  let s := s.appendChar '.'
  printNumber { d with hex := .no, padding := '0', width := d.fracWidth }
    (splitDouble fn d.fracWidth).2 s

/-- The `switch` over the conversion, and what follows it. -/
def convert (d : Directive) (c : Char) (s : State B D) : Except Fault (State B D) :=
  match c with
  | 'b' => do
    let (v, s) ← vaArg Arg.asInt s
    .ok (s.append (if v = 0 then ['f', 'a', 'l', 's', 'e'] else ['t', 'r', 'u', 'e']))
  | 'c' => do
    let (v, s) ← vaArg Arg.asInt s
    .ok (s.appendChar (Char.ofNat (v.toNat % 256)))
  | 'd' => do
    let (v, s) ← vaArg Arg.asInt s
    if d.sign then printSigned d (v.signExtend 64) s else printNumber d (v.setWidth 64) s
  | 'f' => do
    let (fn, s) ← vaArg Arg.asDouble s
    if Double.isNeg fn then printDouble d (Double.neg fn) (s.appendChar '-')
    else printDouble d fn s
  | 'l' => do
    let (v, s) ← vaArg Arg.asLong s
    if d.sign then printSigned d v s else printNumber d v s
  | 'p' => do
    let (p, s) ← vaArg Arg.asPointer s
    printNumber { d with sign := false, hex := .upper, padding := '0', width := 16 } p s
  | 's' => do
    let (string, s) ← vaArg Arg.asString s
    .ok (s.append string.text)
  | '%' => .ok (s.appendChar '%')
  | c => .ok (s.appendChar c)

/-! ### The loop -/

/-- What is left of the format. -/
def Pointer.size : Pointer → ℕ
  | .past => 0
  | .at fmt => fmt.length + 1

theorem size_next_le (fmt : List Char) : (next fmt).size ≤ fmt.length := by
  cases fmt with
  | nil => exact le_rfl
  | cons c fmt => exact le_rfl

/-- `LogPrint::vprintf`: where the pointer is at the end, and what has been changed. -/
def vprintf : Pointer → State B D → Except Fault (Pointer × State B D)
  | .past, _ => .error .overrun
  | .at [], s => .ok (.at [], s)
  | .at (c :: fmt), s =>
    if c = '\x00' ∨ hasRoom s.buffer = false then .ok (.at (c :: fmt), s)
    else if c ≠ '%' then vprintf (.at fmt) (s.appendChar c)
    else
      match convert (scan s.buffer fmt).1 (deref (scan s.buffer fmt).2.2)
          { s with buffer := (scan s.buffer fmt).2.1 } with
      | .error e => .error e
      | .ok s' => vprintf (next (scan s.buffer fmt).2.2) s'
termination_by p => p.size
decreasing_by
  · exact Nat.lt_succ_self _
  · exact Nat.lt_succ_of_le
      ((size_next_le _).trans ((scan_suffix _ _).length_le.trans (Nat.le_succ _)))

/-- `LogPrint::printf`: the buffer after the call. Whether the call has done something undefined is
the other part of what `vprintf` leaves, which is dropped here. -/
def printf (fmt : CString) (args : List (Arg D)) (buffer : B) : Except Fault B := do
  let (_, s) ← vprintf (.at fmt.text) { buffer, args }
  .ok s.buffer

end

/-- `LogPrint::SMALL_BUFFER`. -/
def smallBuffer : ℕ := 4000

/-- `LogPrint::LogPrint`: the buffer of a `LogPrint`. -/
def newBuffer : LogBuffer smallBuffer := LogBuffer.new smallBuffer (by decide)

end ToolsCxx.Logging.Print
