/-
Keys and values of TOML.

Arrays and inline tables are read with a stack of the ones that are open, so
that one loop over the characters reads a value of any depth.  Every turn of the
loop takes at least one character away.
-/

import VirtualHosts.Document.Toml.Scalar
import VirtualHosts.Document.Toml.Section

namespace VirtualHosts.Toml

/-- Keys have fewer parts than this, and values are nested less deep. -/
def limit : Nat := 80

def isBareKeyChar (c : Char) : Bool :=
  c.isAlphanum || c == '_' || c == '-'

def keyPart? (chars : List Char) : Option (String × List Char) :=
  match chars.takeWhile isBareKeyChar with
  | [] => shortString? chars
  | bare => some (.ofList bare, chars.dropWhile isBareKeyChar)

def keyParts? (chars : List Char) : Option (List String × List Char) := do
  let (part, rest) ← keyPart? (skipBlanks chars)
  match skipBlanks rest with
  | '.' :: rest =>
      if rest.length < chars.length then
        let (parts, rest) ← keyParts? rest
        some (part :: parts, rest)
      else none
  | rest => some ([part], rest)
termination_by chars.length

def key? (chars : List Char) : Option (List String × List Char) :=
  (keyParts? chars).filter fun (parts, _) => parts.length < limit

inductive Frame where
  | array (items : List Value)
  | table (made : Section) (path : List String) (key : String)

inductive Expected where
  | value
  | item
  | firstKey
  | key
  | next

structure Reading where
  frames : List Frame
  expected : Expected
  result : Option Value := none

namespace Reading

def start : Reading := { frames := [], expected := .value }

def put (reading : Reading) (value : Value) : Option Reading :=
  match reading.frames with
  | [] => some { reading with result := some value }
  | .array items :: frames =>
      some { reading with frames := .array (value :: items) :: frames, expected := .next }
  | .table made path key :: frames => do
      let made ← made.insert path key value
      return { reading with frames := .table made path key :: frames, expected := .next }

def push (reading : Reading) (frame : Frame) (expected : Expected) : Option Reading :=
  if reading.frames.length + 1 < limit then
    some { reading with frames := frame :: reading.frames, expected }
  else none

def close (reading : Reading) : Option Reading :=
  match reading.frames with
  | .array items :: frames => { reading with frames }.put (.array items.reverse)
  | .table made _ _ :: frames => { reading with frames }.put made.toValue
  | [] => none

def inArray (reading : Reading) : Bool :=
  match reading.frames with
  | .array _ :: _ => true
  | _ => false

/-- Blanks, and in an array also line ends and comments, if some come next. -/
def skip? (reading : Reading) (chars : List Char) : Option (List Char) :=
  match chars with
  | c :: rest =>
      if isBlank c then some (skipBlanks rest)
      else if reading.inArray && c = '#' then newline? (skipComment chars)
      else if reading.inArray then newline? chars
      else none
  | [] => none

def field? (reading : Reading) (chars : List Char) : Option (Reading × List Char) :=
  match reading.frames, key? chars with
  | .table made _ _ :: frames, some (parts, '=' :: rest) =>
      match parts.reverse with
      | key :: path =>
          some ({ reading with
            frames := .table made path.reverse key :: frames, expected := .value }, rest)
      | [] => none
  | _, _ => none

def value? (reading : Reading) (chars : List Char) : Option (Reading × List Char) :=
  match chars with
  | '[' :: rest => (reading.push (.array []) .item).map (·, rest)
  | '\x7b' :: rest => (reading.push (.table .empty [] "") .firstKey).map (·, rest)
  | '"' :: _ | '\x27' :: _ => do
      let (text, rest) ← string? chars
      return (← reading.put (.text text), rest)
  | _ => do
      let (value, rest) ← scalar? chars
      return (← reading.put value, rest)

def step? (reading : Reading) (chars : List Char) : Option (Reading × List Char) :=
  match reading.skip? chars with
  | some rest => some (reading, rest)
  | none =>
      match reading.expected, chars with
      | .item, ']' :: rest => reading.close.map (·, rest)
      | .firstKey, '\x7d' :: rest => reading.close.map (·, rest)
      | .next, ',' :: rest =>
          some ({ reading with expected := if reading.inArray then .item else .key }, rest)
      | .next, ']' :: rest => if reading.inArray then reading.close.map (·, rest) else none
      | .next, '\x7d' :: rest => if reading.inArray then none else reading.close.map (·, rest)
      | .value, _ | .item, _ => reading.value? chars
      | .firstKey, _ | .key, _ => reading.field? chars
      | .next, _ => none

def run? (reading : Reading) (chars : List Char) : Option (Value × List Char) :=
  match reading.result with
  | some value => some (value, chars)
  | none =>
      match reading.step? chars with
      | some (reading, rest) =>
          if rest.length < chars.length then reading.run? rest else none
      | none => none
termination_by chars.length

end Reading

def value? (chars : List Char) : Option (Value × List Char) :=
  Reading.start.run? (skipBlanks chars)

end VirtualHosts.Toml
