/-
The small parts of TOML: blanks, line ends, comments and strings.

A reader takes the characters that are left and returns what it has read with
the characters after it.
-/

import VirtualHosts.Text

namespace VirtualHosts.Toml

def isBlank (c : Char) : Bool :=
  c == ' ' || c == '\t'

def skipBlanks (chars : List Char) : List Char :=
  chars.dropWhile isBlank

/-- Characters of comments and strings: the tab, and everything that is not a
control character. -/
def isPlain (c : Char) : Bool :=
  c == '\t' || (0x20 ≤ c.toNat && c.toNat != 0x7F)

def newline? : List Char → Option (List Char)
  | '\n' :: rest => some rest
  | '\r' :: '\n' :: rest => some rest
  | _ => none

def skipComment : List Char → List Char
  | '#' :: rest => rest.dropWhile isPlain
  | chars => chars

def lineEnd? (chars : List Char) : Option (List Char) :=
  match skipComment (skipBlanks chars) with
  | [] => some []
  | rest => newline? rest

/-! ### Strings -/

def cutShort (quote : Char) (escapes : Bool) : List Char → Option (List Char × List Char)
  | [] => none
  | [c] => if c = quote then some ([], []) else none
  | c :: next :: rest =>
      if c = quote then some ([], next :: rest)
      else if escapes && c = '\\' then
        (cutShort quote escapes rest).map fun (text, rest) => (c :: next :: text, rest)
      else
        (cutShort quote escapes (next :: rest)).map fun (text, rest) => (c :: text, rest)

/-- Cuts at the three quotes that close a string over several lines.  Up to two
quotes in front of them belong to the string. -/
def cutLong (quote : Char) (escapes : Bool) : List Char → Option (List Char × List Char)
  | a :: b :: c :: rest =>
      if a = quote ∧ b = quote ∧ c = quote then
        let inner := min 2 (rest.takeWhile (· == quote)).length
        some (List.replicate inner quote, rest.drop inner)
      else if escapes && a = '\\' then
        (cutLong quote escapes (c :: rest)).map fun (text, rest) => (a :: b :: text, rest)
      else
        (cutLong quote escapes (b :: c :: rest)).map fun (text, rest) => (a :: text, rest)
  | _ => none

def simpleEscape? : Char → Option Char
  | '"' => some '"'
  | '\\' => some '\\'
  | 'b' => some '\x08'
  | 'f' => some '\x0c'
  | 'n' => some '\n'
  | 'r' => some '\r'
  | 't' => some '\t'
  | _ => none

def coded? (digits : List Char) : Option Char := do
  let code ← Text.natural? 16 digits
  if valid : code.isValidChar then some (Char.ofNatAux code valid) else none

/-- Undoes the escapes of a string.  In a string over several lines, line ends
become line feeds, and a backslash at the end of a line takes the blanks and
line ends after it away; `taking` says that this is going on. -/
def unescape? (long : Bool) (taking : Bool) : List Char → Option (List Char)
  | [] => some []
  | '\\' :: rest =>
      if long && (newline? (skipBlanks rest)).isSome then
        unescape? long true rest
      else
        match rest with
        | 'u' :: a :: b :: c :: d :: rest => do
            return (← coded? [a, b, c, d]) :: (← unescape? long false rest)
        | 'U' :: a :: b :: c :: d :: e :: f :: g :: h :: rest => do
            return (← coded? [a, b, c, d, e, f, g, h]) :: (← unescape? long false rest)
        | letter :: rest => do
            return (← simpleEscape? letter) :: (← unescape? long false rest)
        | [] => none
  | '\n' :: rest =>
      if !long then none
      else if taking then unescape? long true rest
      else (unescape? long false rest).map ('\n' :: ·)
  | '\r' :: '\n' :: rest =>
      if !long then none
      else if taking then unescape? long true rest
      else (unescape? long false rest).map ('\n' :: ·)
  | c :: rest =>
      if taking && isBlank c then unescape? long true rest
      else if isPlain c then (unescape? long false rest).map (c :: ·)
      else none

def literal? (long : Bool) : List Char → Option (List Char)
  | [] => some []
  | '\n' :: rest => if long then (literal? long rest).map ('\n' :: ·) else none
  | '\r' :: '\n' :: rest => if long then (literal? long rest).map ('\n' :: ·) else none
  | c :: rest => if isPlain c then (literal? long rest).map (c :: ·) else none

def shortString? : List Char → Option (String × List Char)
  | '"' :: rest => do
      let (raw, rest) ← cutShort '"' true rest
      return (.ofList (← unescape? false false raw), rest)
  | '\x27' :: rest => do
      let (raw, rest) ← cutShort '\x27' false rest
      return (.ofList (← literal? false raw), rest)
  | _ => none

/-- A string of any kind.  A line end right after three opening quotes does not
belong to it. -/
def string? : List Char → Option (String × List Char)
  | '"' :: '"' :: '"' :: rest => do
      let (raw, rest) ← cutLong '"' true ((newline? rest).getD rest)
      return (.ofList (← unescape? true false raw), rest)
  | '\x27' :: '\x27' :: '\x27' :: rest => do
      let (raw, rest) ← cutLong '\x27' false ((newline? rest).getD rest)
      return (.ofList (← literal? true raw), rest)
  | chars => shortString? chars

end VirtualHosts.Toml
