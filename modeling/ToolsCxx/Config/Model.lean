import ToolsCxx.Lib.OrderedMap
import Mathlib.Data.List.Lex
import Mathlib.Data.Char

/-! # `ConfigFile`

`load` as a function of what the file holds. `npos` is `none`, and `npos + 1` is 0. -/

namespace ToolsCxx.Config.Model

open ToolsCxx.Lib.OrderedMap

/-- `m_configItemStore`. -/
abbrev Store := OrdMap (List Char) (List Char)

/-- What is thrown: an `Exception`, by its text. -/
structure Exception where
  what : String
  deriving DecidableEq

/-- The `Exception` of `load`. -/
def Exception.failedToOpen : Exception := ⟨"Failed to open config file"⟩

/-- The `Exception` of `get`. -/
def Exception.cantFind : Exception := ⟨"can't find in ConfigFile::get"⟩

/-! ### The operations on strings -/

/-- `find(c)`. -/
def find (c : Char) (string : List Char) : Option ℕ := string.findIdx? (· = c)

/-- `find_first_not_of(c)`. -/
def findFirstNotOf (c : Char) (string : List Char) : Option ℕ := string.findIdx? (· ≠ c)

/-- `find_last_not_of(c)`. -/
def findLastNotOf (c : Char) (string : List Char) : Option ℕ :=
  (string.reverse.findIdx? (· ≠ c)).map (string.length - 1 - ·)

/-- `pos + 1`. -/
def afterPos : Option ℕ → ℕ
  | none => 0
  | some pos => pos + 1

/-- `erase(pos, n)`. -/
def erase (pos : ℕ) (n : Option ℕ) (string : List Char) : List Char :=
  match n with
  | none => string.take pos
  | some n => string.take pos ++ string.drop (pos + n)

/-- `ConfigFile::trim_space`. -/
def trimSpace (string : List Char) : List Char :=
  if string = [] then string
  else
    let string := erase 0 (findFirstNotOf ' ' string) string
    erase (afterPos (findLastNotOf ' ' string)) none string

/-! ### `load` -/

/-- `fin`: what has not been read, and `good()`. -/
structure IFStream where
  rest : List Char
  good : Bool

/-- `std::getline`. A line that ends where the file ends is read too, and the stream then is not
good any more. -/
def getline (fin : IFStream) : List Char × IFStream :=
  (fin.rest.takeWhile (· ≠ '\n'),
    match fin.rest.dropWhile (· ≠ '\n') with
    | [] => ⟨[], false⟩
    | _ :: rest => ⟨rest, true⟩)

/-- The body of the loop, after `getline`. -/
def loadLine (lineBuf : List Char) (store : Store) : Store :=
  match lineBuf with
  | [] => store
  | c :: _ =>
    if c = '#' ∨ c = '[' ∨ c = '\t' ∨ c = '\r' ∨ c = '\n' then store
    else
      match find '=' lineBuf with
      | none => store
      | some index =>
        store.insertNew (trimSpace (lineBuf.take index)) (trimSpace (lineBuf.drop (index + 1)))

/-- How much there is still to read. -/
def IFStream.size (fin : IFStream) : ℕ := fin.rest.length + fin.good.toNat

theorem getline_size {fin : IFStream} (h : fin.good = true) : (getline fin).2.size < fin.size := by
  have hle := (List.dropWhile_sublist (p := (· ≠ '\n')) (l := fin.rest)).length_le
  unfold getline IFStream.size
  rw [h]
  split
  · exact Nat.succ_pos _
  · next c rest hrest =>
    rw [hrest, List.length_cons] at hle
    exact Nat.succ_le_succ hle

/-- The loop of `load`. -/
def loadLoop (fin : IFStream) (store : Store) : Store :=
  if fin.good = true then loadLoop (getline fin).2 (loadLine (getline fin).1 store) else store
termination_by fin.size
decreasing_by exact getline_size ‹_›

/-- `ConfigFile::load`, of a file that holds `file`, or of one that cannot be opened. -/
def load (file : Option (List Char)) (store : Store) : Except Exception Store :=
  match file with
  | none => .error .failedToOpen
  | some text => .ok (loadLoop ⟨text, true⟩ store)

/-- `ConfigFile::get`, with the conversion to the type that is asked for. -/
def get {α : Type} (convert : List Char → α) (itemName : List Char) (store : Store) :
    Except Exception α :=
  match store.find itemName with
  | none => .error .cantFind
  | some content => .ok (convert content)

end ToolsCxx.Config.Model
