/-
Internet addresses: reading them and writing them in canonical form.

An address of version six has eight groups.  A double colon stands for one or
more groups of zeros, and the last two groups may be written as an address of
version four.
-/

import VirtualHosts.Text

namespace VirtualHosts

inductive Address where
  | v4 (first second third fourth : UInt8)
  | v6 (groups : Vector UInt16 8)
  deriving DecidableEq, Repr

namespace Address

def octet? (chars : List Char) : Option UInt8 :=
  if 3 < chars.length || (1 < chars.length && chars.head? == some '0') then
    none
  else
    ((Text.natural? 10 chars).filter (· < 256)).map UInt8.ofNat

def octets? (chars : List Char) : Option (UInt8 × UInt8 × UInt8 × UInt8) :=
  match (Text.pieces (· == '.') chars).mapM octet? with
  | some [first, second, third, fourth] => some (first, second, third, fourth)
  | _ => none

def group? (chars : List Char) : Option UInt16 :=
  if 4 < chars.length then none else (Text.natural? 16 chars).map UInt16.ofNat

/-- The groups that pieces between colons stand for; the last piece may be an
address of version four. -/
def groups? : List (List Char) → Option (List UInt16)
  | [] => some []
  | [last] =>
      match octets? last with
      | some (a, b, c, d) => some [a.toUInt16 * 256 + b.toUInt16, c.toUInt16 * 256 + d.toUInt16]
      | none => (group? last).map fun group => [group]
  | piece :: rest => do return (← group? piece) :: (← groups? rest)

def part? (chars : List Char) : Option (List UInt16) :=
  if chars.isEmpty then some [] else groups? (Text.pieces (· == ':') chars)

def cutAtGap : List Char → Option (List Char × List Char)
  | ':' :: ':' :: rest => some ([], rest)
  | c :: rest => (cutAtGap rest).map fun (before, after) => (c :: before, after)
  | [] => none

def ofGroups? (groups : List UInt16) : Option Address :=
  if complete : groups.length = 8 then some (.v6 ⟨groups.toArray, by simpa using complete⟩)
  else none

def readV6? (chars : List Char) : Option Address :=
  match cutAtGap chars with
  | none => (part? chars).bind ofGroups?
  | some (before, after) => do
      guard (!before.contains '.')
      let front ← part? before
      let back ← part? after
      guard (front.length + back.length < 8)
      ofGroups? (front ++ List.replicate (8 - (front.length + back.length)) 0 ++ back)

def read? (text : String) : Option Address :=
  match octets? text.toList with
  | some (first, second, third, fourth) => some (.v4 first second third fourth)
  | none => readV6? text.toList

def dotted (first second third fourth : UInt8) : String :=
  s!"{first.toNat}.{second.toNat}.{third.toNat}.{fourth.toNat}"

def zerosAhead (groups : List UInt16) : Nat :=
  (groups.takeWhile (· == 0)).length

def longestZeros : Nat → List UInt16 → Nat × Nat
  | _, [] => (0, 0)
  | start, group :: rest =>
      let here := zerosAhead (group :: rest)
      let later := longestZeros (start + 1) rest
      if here ≠ 0 ∧ later.2 ≤ here then (start, here) else later

def colonSeparated (groups : List UInt16) : String :=
  ":".intercalate (groups.map fun group => Text.hexadecimal group.toNat)

/-- The canonical text.  Two or more groups of zeros are written as a double
colon, the longest row of them and of equal ones the first; the addresses that
stand for those of version four end in dotted form. -/
def display : Address → String
  | .v4 first second third fourth => dotted first second third fourth
  | .v6 groups =>
      match groups.toList with
      | [0, 0, 0, 0, 0, 0xFFFF, high, low] =>
          "::ffff:" ++ dotted (high >>> 8).toUInt8 high.toUInt8 (low >>> 8).toUInt8 low.toUInt8
      | all =>
          let (start, length) := longestZeros 0 all
          if length < 2 then colonSeparated all
          else
            colonSeparated (all.take start) ++ "::" ++ colonSeparated (all.drop (start + length))

def withPort (address : Address) (port : UInt16) : String :=
  match address with
  | .v4 .. => s!"{address.display}:{port.toNat}"
  | .v6 _ => s!"[{address.display}]:{port.toNat}"

end Address

end VirtualHosts
