/-
Characters and text as the rest of the library reads them.

Blank characters are those of Unicode's White_Space property; letters are
compared without case in the ASCII range only.  Every cut is made on the list
of characters, so that nothing below depends on positions inside a string.
-/

namespace VirtualHosts

namespace Text

/-- The characters with Unicode's White_Space property. -/
def isBlank (c : Char) : Bool :=
  let code := c.toNat
  (9 ≤ code && code ≤ 13) || code == 0x20 || code == 0x85 || code == 0xA0 ||
    code == 0x1680 || (0x2000 ≤ code && code ≤ 0x200A) || code == 0x2028 ||
    code == 0x2029 || code == 0x202F || code == 0x205F || code == 0x3000

/-- A text without any character that is not blank, the empty text included. -/
def isBlankText (text : String) : Bool :=
  text.toList.all isBlank

def trimStart (chars : List Char) : List Char :=
  chars.dropWhile isBlank

def trimEnd (chars : List Char) : List Char :=
  (chars.reverse.dropWhile isBlank).reverse

def trim (chars : List Char) : List Char :=
  trimEnd (trimStart chars)

def lower (text : String) : String :=
  .ofList (text.toList.map Char.toLower)

def sameIgnoringCase (left right : String) : Bool :=
  lower left == lower right

/-- Cuts at every character that is a separator.  There is always one more
piece than there are separators. -/
def pieces (separator : Char → Bool) : List Char → List (List Char)
  | [] => [[]]
  | c :: rest =>
      match separator c, pieces separator rest with
      | true, found => [] :: found
      | false, [] => [[c]]
      | false, piece :: found => (c :: piece) :: found

def fields (chars : List Char) : List (List Char) :=
  (pieces isBlank chars).filter (!·.isEmpty)

/-- The lines of a text; the end of the last one need not be marked. -/
def lines (chars : List Char) : List (List Char) :=
  pieces (· == '\n') chars

def segments (chars : List Char) : List (List Char) :=
  pieces (· == '/') chars

def join (separator : List Char) (parts : List (List Char)) : List Char :=
  separator.intercalate parts

def startsWith (text beginning : String) : Bool :=
  beginning.toList.isPrefixOf text.toList

/-- What is left of `chars` after `beginning`, if it begins so. -/
def dropBeginning? : (beginning chars : List Char) → Option (List Char)
  | [], chars => some chars
  | _ :: _, [] => none
  | b :: beginning, c :: chars => if b = c then dropBeginning? beginning chars else none

def dropLast? (last : Char) (chars : List Char) : Option (List Char) :=
  if chars.getLast? = some last then some chars.dropLast else none

def stripEnd (c : Char) (chars : List Char) : List Char :=
  (chars.reverse.dropWhile (· == c)).reverse

def stripBoth (c : Char) (chars : List Char) : List Char :=
  stripEnd c (chars.dropWhile (· == c))

def digitIn? (base : Nat) (c : Char) : Option Nat :=
  let value :=
    if '0' ≤ c ∧ c ≤ '9' then some (c.toNat - '0'.toNat)
    else if 'a' ≤ c ∧ c ≤ 'f' then some (c.toNat - 'a'.toNat + 10)
    else if 'A' ≤ c ∧ c ≤ 'F' then some (c.toNat - 'A'.toNat + 10)
    else none
  value.filter (· < base)

/-- The number that a non-empty row of digits writes in a base. -/
def natural? (base : Nat) (chars : List Char) : Option Nat :=
  if chars.isEmpty then none
  else chars.foldlM (fun total c => (digitIn? base c).map (total * base + ·)) 0

def hexadecimal (n : Nat) : String :=
  .ofList (Nat.toDigits 16 n)

def padded (width n : Nat) : String :=
  let digits := Nat.toDigits 10 n
  .ofList (List.replicate (width - digits.length) '0' ++ digits)

end Text

end VirtualHosts
