/-
Scalars of TOML that are not strings: booleans, integers, other numbers, dates
and times.

A date or time is not a text.  It reads as a table with one field, under a name
of its own, that holds its canonical form.
-/

import VirtualHosts.Document
import VirtualHosts.Document.Double
import VirtualHosts.Document.Toml.Lexical

namespace VirtualHosts.Toml

/-! ### Dates and times -/

def digits? (count : Nat) (chars : List Char) : Option (Nat × List Char) :=
  let digits := chars.take count
  if digits.length = count ∧ digits.all Char.isDigit then
    (Text.natural? 10 digits).map fun n => (n, chars.drop count)
  else none

def expect? (c : Char) : List Char → Option (List Char)
  | first :: rest => if first = c then some rest else none
  | [] => none

def daysOf (year month : Nat) : Nat :=
  if month = 2 then
    if year % 4 = 0 ∧ (year % 100 ≠ 0 ∨ year % 400 = 0) then 29 else 28
  else if month = 4 ∨ month = 6 ∨ month = 9 ∨ month = 11 then 30
  else 31

def date? (chars : List Char) : Option (String × List Char) := do
  let (year, rest) ← digits? 4 chars
  let (month, rest) ← digits? 2 (← expect? '-' rest)
  let (day, rest) ← digits? 2 (← expect? '-' rest)
  guard (1 ≤ month ∧ month ≤ 12 ∧ 1 ≤ day ∧ day ≤ daysOf year month)
  return (s!"{Text.padded 4 year}-{Text.padded 2 month}-{Text.padded 2 day}", rest)

/-- A fraction of a second in canonical form: nine digits count, and zeros at
the end are left out. -/
def fraction? : List Char → Option (String × List Char)
  | '.' :: rest =>
      let digits := rest.takeWhile Char.isDigit
      if digits.isEmpty then none
      else
        let kept := Text.stripEnd '0' (digits.take 9)
        some (if kept.isEmpty then "" else .ofList ('.' :: kept), rest.dropWhile Char.isDigit)
  | rest => some ("", rest)

def time? (chars : List Char) : Option (String × List Char) := do
  let (hour, rest) ← digits? 2 chars
  let (minute, rest) ← digits? 2 (← expect? ':' rest)
  let (second, rest) ← digits? 2 (← expect? ':' rest)
  guard (hour ≤ 23 ∧ minute ≤ 59 ∧ second ≤ 60)
  let (fraction, rest) ← fraction? rest
  return (s!"{Text.padded 2 hour}:{Text.padded 2 minute}:{Text.padded 2 second}{fraction}", rest)

def offset? : List Char → Option String
  | [] => some ""
  | ['Z'] | ['z'] => some "Z"
  | sign :: rest => do
      guard (sign == '+' || sign == '-')
      let (hour, rest) ← digits? 2 rest
      let (minute, rest) ← digits? 2 (← expect? ':' rest)
      guard (hour ≤ 23 ∧ minute ≤ 59 ∧ rest.isEmpty)
      let sign := if sign = '-' ∧ (hour, minute) ≠ (0, 0) then "-" else "+"
      return s!"{sign}{Text.padded 2 hour}:{Text.padded 2 minute}"

def dateTime? (chars : List Char) : Option String :=
  match date? chars with
  | some (date, []) => some date
  | some (date, separator :: rest) => do
      guard (separator == 'T' || separator == 't' || separator == ' ')
      let (time, rest) ← time? rest
      return s!"{date}T{time}{← offset? rest}"
  | none =>
      match time? chars with
      | some (time, []) => some time
      | _ => none

def dateTimeField : String := "$__toml_private_datetime"

/-! ### Numbers -/

def underscored? (base : Nat) (chars : List Char) : Option (List Char) :=
  let groups := Text.pieces (· == '_') chars
  if groups.any List.isEmpty then none
  else if groups.flatten.all fun c => (Text.digitIn? base c).isSome then some groups.flatten
  else none

def whole? (chars : List Char) : Option (List Char) :=
  (underscored? 10 chars).filter fun digits =>
    chars.length == 1 || digits.head? != some '0'

def sign : List Char → Bool × List Char
  | '+' :: rest => (false, rest)
  | '-' :: rest => (true, rest)
  | rest => (false, rest)

def integer? (chars : List Char) : Option Value :=
  match chars with
  | '0' :: 'x' :: rest => based 16 rest
  | '0' :: 'o' :: rest => based 8 rest
  | '0' :: 'b' :: rest => based 2 rest
  | _ => do
      let (negative, digits) := sign chars
      let size ← Text.natural? 10 (← whole? digits)
      if negative then
        if size ≤ Nat.pow 2 63 then some (.integer (-size)) else none
      else
        if size < Nat.pow 2 63 then some (.integer size) else none
where
  based (base : Nat) (digits : List Char) : Option Value := do
    let size ← Text.natural? base (← underscored? base digits)
    if size < Nat.pow 2 63 then some (.integer size) else none

/-- A number with a fraction or an exponent.  One beyond the doubles is refused
if it is positive.  Underscores and a plus sign do not count as written. -/
def real? (chars : List Char) : Option Value := do
  let isMark (c : Char) : Bool := c == 'e' || c == 'E'
  let (negative, digits) := sign chars
  let mantissa := digits.takeWhile (!isMark ·)
  let whole ← whole? (mantissa.takeWhile (· != '.'))
  let fraction ← match mantissa.dropWhile (· != '.') with
    | [] => some []
    | _ :: rest => underscored? 10 rest
  let exponent ← match digits.dropWhile (!isMark ·) with
    | [] => some 0
    | _ :: rest => do
        let (negative, digits) := sign rest
        let size ← Text.natural? 10 (← underscored? 10 digits)
        some (if negative then -(size : Int) else size)
  guard (digits.any fun c => c == '.' || isMark c)
  let size ← Text.natural? 10 (whole ++ fraction)
  if Double.isFinite size (exponent - fraction.length) then
    let written := digits.filter (· != '_')
    return .decimal (.ofList (if negative then '-' :: written else written))
  else
    guard negative
    return .notFinite

def infinite? (chars : List Char) : Option Value :=
  let (_, name) := sign chars
  if name = "inf".toList ∨ name = "nan".toList then some .notFinite else none

def isWordChar (c : Char) : Bool :=
  c.isAlphanum || c == '_' || c == '+' || c == '-' || c == '.' || c == ':'

/-- A date is followed by a blank and a time, if a digit comes after the blank. -/
def word (chars : List Char) : List Char × List Char :=
  let first := chars.takeWhile isWordChar
  match date? first, chars.dropWhile isWordChar with
  | some (_, []), ' ' :: c :: rest =>
      if c.isDigit then
        (first ++ ' ' :: (c :: rest).takeWhile isWordChar, (c :: rest).dropWhile isWordChar)
      else (first, ' ' :: c :: rest)
  | _, rest => (first, rest)

def scalar? (chars : List Char) : Option (Value × List Char) :=
  let (written, rest) := word chars
  let value :=
    if written = "true".toList then some (.bool true)
    else if written = "false".toList then some (.bool false)
    else
      ((dateTime? written).map fun text => .table [(dateTimeField, .text text)]) <|>
        integer? written <|> real? written <|> infinite? written
  value.map fun value => (value, rest)

end VirtualHosts.Toml
