/-
Reading JSON.

The text is cut into tokens, and a stack of open arrays and tables is built up
token by token.  Numbers are told apart by how they are written: one without
fraction and exponent is an integer if it fits into 64 bits.  A string that
names half of a surrogate pair, and a number too large for a double, are well
written but cannot be read.
-/

import VirtualHosts.Document
import VirtualHosts.Document.Double

namespace VirtualHosts.Json

inductive Token where
  | openArray
  | closeArray
  | openTable
  | closeTable
  | comma
  | colon
  /-- A string; `none` if it stands for no text. -/
  | quoted (text : Option String)
  | number (value : Value)
  | word (value : Value)

/-! ### Strings -/

def simpleEscape? : Char → Option Char
  | '"' => some '"'
  | '\\' => some '\\'
  | '/' => some '/'
  | 'b' => some '\x08'
  | 'f' => some '\x0c'
  | 'n' => some '\n'
  | 'r' => some '\r'
  | 't' => some '\t'
  | _ => none

def unit? (a b c d : Char) : Option Nat :=
  Text.natural? 16 [a, b, c, d]

inductive Piece where
  | char (c : Char)
  | unit (value : Nat)

def pieces? : List Char → Option (List Piece)
  | [] => some []
  | '\\' :: 'u' :: a :: b :: c :: d :: rest => do
      return .unit (← unit? a b c d) :: (← pieces? rest)
  | '\\' :: letter :: rest => do
      return .char (← simpleEscape? letter) :: (← pieces? rest)
  | c :: rest =>
      if c = '\\' ∨ c.toNat < 0x20 then none
      else (pieces? rest).map (.char c :: ·)

def assemble? : List Piece → Option (List Char)
  | [] => some []
  | .char c :: rest => (assemble? rest).map (c :: ·)
  | .unit high :: .unit low :: rest =>
      if 0xD800 ≤ high ∧ high < 0xDC00 then
        if 0xDC00 ≤ low ∧ low < 0xE000 then
          (assemble? rest).map
            (Char.ofNat (0x10000 + (high - 0xD800) * 0x400 + (low - 0xDC00)) :: ·)
        else none
      else if 0xDC00 ≤ high ∧ high < 0xE000 then none
      else (assemble? (.unit low :: rest)).map (Char.ofNat high :: ·)
  | .unit value :: rest =>
      if 0xD800 ≤ value ∧ value < 0xE000 then none
      else (assemble? rest).map (Char.ofNat value :: ·)

def quotedToken? (raw : List Char) : Option Token :=
  (pieces? raw).map fun found => .quoted ((assemble? found).map .ofList)

/-! ### Numbers and words -/

def exponent? : List Char → Option Int
  | '+' :: digits => (Text.natural? 10 digits).map Int.ofNat
  | '-' :: digits => (Text.natural? 10 digits).map fun n => -Int.ofNat n
  | digits => (Text.natural? 10 digits).map Int.ofNat

def decimal? (rest : List Char) : Option (List Char × Int) := do
  let isMark (c : Char) : Bool := c == 'e' || c == 'E'
  let (fraction, tail) ← match rest with
    | '.' :: rest =>
        let fraction := rest.takeWhile (!isMark ·)
        if fraction.isEmpty then none else some (fraction, rest.dropWhile (!isMark ·))
    | rest => some ([], rest)
  guard (fraction.all Char.isDigit)
  let exponent ← match tail with
    | [] => some 0
    | mark :: digits => if isMark mark then exponent? digits else none
  return (fraction, exponent)

/-- The value of a number.  A zero with a minus sign is no integer, and neither
is a number beyond 64 bits. -/
def number? (chars : List Char) : Option Value := do
  let (negative, digits) := match chars with
    | '-' :: rest => (true, rest)
    | rest => (false, rest)
  let whole := digits.takeWhile Char.isDigit
  let rest := digits.dropWhile Char.isDigit
  guard (!whole.isEmpty && (whole.length == 1 || whole.head? != some '0'))
  let size ← Text.natural? 10 whole
  let (fraction, exponent) ← decimal? rest
  if rest.isEmpty && negative && 0 < size && size ≤ Nat.pow 2 63 then return .integer (-size)
  else if rest.isEmpty && !negative && size < Nat.pow 2 64 then return .integer size
  else if Double.isFiniteInSteps whole fraction exponent then return .decimal (.ofList chars)
  else return .unreadable

def wordToken? (chars : List Char) : Option Token :=
  if chars = "null".toList then some (.word .null)
  else if chars = "true".toList then some (.word (.bool true))
  else if chars = "false".toList then some (.word (.bool false))
  else (number? chars).map .number

/-! ### Tokens -/

inductive Place where
  | between
  | word (seen : List Char)
  /-- Within quotes; the characters are kept in reverse, and whether the last
  one was a backslash that escapes the next. -/
  | quotes (seen : List Char) (escaped : Bool)

def isSpace (c : Char) : Bool :=
  c == ' ' || c == '\t' || c == '\n' || c == '\r'

def isWordChar (c : Char) : Bool :=
  c.isAlphanum || c == '+' || c == '-' || c == '.'

def mark? : Char → Option Token
  | '[' => some .openArray
  | ']' => some .closeArray
  | '\x7b' => some .openTable
  | '\x7d' => some .closeTable
  | ',' => some .comma
  | ':' => some .colon
  | _ => none

def start? (c : Char) : Option (List Token × Place) :=
  if isSpace c then some ([], .between)
  else if c = '"' then some ([], .quotes [] false)
  else if isWordChar c then some ([], .word [c])
  else (mark? c).map fun token => ([token], .between)

def advance? : Place → Char → Option (List Token × Place)
  | .between, c => start? c
  | .word seen, c =>
      if isWordChar c then some ([], .word (c :: seen))
      else do
        let token ← wordToken? seen.reverse
        let (tokens, place) ← start? c
        return (token :: tokens, place)
  | .quotes seen true, c => some ([], .quotes (c :: seen) false)
  | .quotes seen false, c =>
      if c = '"' then (quotedToken? seen.reverse).map fun token => ([token], .between)
      else some ([], .quotes (c :: seen) (c = '\\'))

/-- The tokens of a text.  While it is read they are kept in reverse. -/
def tokens? (chars : List Char) : Option (List Token) := do
  let (seen, place) ← chars.foldlM
    (fun (seen, place) c => do
      let (tokens, place) ← advance? place c
      return (tokens.reverse ++ seen, place))
    ([], .between)
  match place with
  | .between => return seen.reverse
  | .word word => return (← wordToken? word.reverse) :: seen |>.reverse
  | .quotes .. => none

/-! ### Values -/

/-- An array or table that is still open; its contents are kept in reverse.  A
table knows the key whose value comes next, and whether all its keys stand for
a text. -/
inductive Frame where
  | array (items : List Value)
  | table (fields : List (String × Value)) (readable : Bool) (key : String)

inductive Expected where
  | value
  | firstItem
  | firstKey
  | key
  | colon
  | next
  | nothing

structure State where
  frames : List Frame := []
  expected : Expected := .value
  result : Option Value := none

def State.put (state : State) (value : Value) : State :=
  match state.frames with
  | [] => { frames := [], expected := .nothing, result := some value }
  | .array items :: frames =>
      { state with frames := .array (value :: items) :: frames, expected := .next }
  | .table fields readable key :: frames =>
      { state with
        frames := .table ((key, value) :: fields) readable key :: frames, expected := .next }

/-- A key: `none` stands for no text, so that the table cannot be read. -/
def State.key? (state : State) (key : Option String) : Option State :=
  match state.frames with
  | .table fields readable _ :: frames =>
      some { state with
        frames := .table fields (readable && key.isSome) (key.getD "") :: frames
        expected := .colon }
  | _ => none

def State.close (state : State) : Option State :=
  match state.frames with
  | .array items :: frames => some ({ state with frames }.put (.array items.reverse))
  | .table fields readable _ :: frames =>
      some ({ state with frames }.put
        (if readable then .table fields.reverse else .unreadable))
  | [] => none

def State.inArray (state : State) : Bool :=
  match state.frames with
  | .array _ :: _ => true
  | _ => false

def State.step (state : State) (token : Token) : Option State :=
  match state.expected, token with
  | .value, .openArray | .firstItem, .openArray =>
      some { state with frames := .array [] :: state.frames, expected := .firstItem }
  | .value, .openTable | .firstItem, .openTable =>
      some { state with frames := .table [] true "" :: state.frames, expected := .firstKey }
  | .value, .quoted text | .firstItem, .quoted text =>
      some (state.put ((text.map .text).getD .unreadable))
  | .value, .number value | .firstItem, .number value
  | .value, .word value | .firstItem, .word value =>
      some (state.put value)
  | .firstItem, .closeArray => state.close
  | .firstKey, .closeTable => state.close
  | .firstKey, .quoted key | .key, .quoted key => state.key? key
  | .colon, .colon => some { state with expected := .value }
  | .next, .comma =>
      some { state with expected := if state.inArray then .value else .key }
  | .next, .closeArray => if state.inArray then state.close else none
  | .next, .closeTable => if state.inArray then none else state.close
  | _, _ => none

def read? (text : String) : Option Value := do
  let tokens ← tokens? text.toList
  let state ← tokens.foldlM State.step {}
  match state.expected with
  | .nothing => state.result
  | _ => none

end VirtualHosts.Json
