/-
Exact patterns, segment by segment.

A segment is literal, or it captures what stands between two literal parts, or
it captures the whole rest of the path.  Braces in the text of a pattern are
paired from the left before anything else: two of a kind are one literal
brace, and a brace that stays alone opens or closes the name of a parameter.
The brace right behind a parameter is the exception: that it was written twice
is credited to a later character, by the length of the name.
-/

import VirtualHosts.Error
import VirtualHosts.Text

namespace VirtualHosts.Dispatch

structure Mark where
  char : Char
  doubled : Bool
  deriving DecidableEq, Repr

def pairBraces : List Char → List Mark
  | '{' :: '{' :: rest => ⟨'{', true⟩ :: pairBraces rest
  | '}' :: '}' :: rest => ⟨'}', true⟩ :: pairBraces rest
  | c :: rest => ⟨c, false⟩ :: pairBraces rest
  | [] => []

inductive Atom where
  | char (c : Char)
  | capture (name : List Char)
  | rest (name : List Char)
  deriving DecidableEq, Repr

/-- The number of parameters that one pattern can have beside one for the rest. -/
def mostCaptures : Nat := 25

def tooManyCaptures : InsertStop :=
  .panicked "Too many route parameters."

def invalidName : InsertStop :=
  .refused .invalidParameter

inductive Place where
  | outside
  /-- Right behind a parameter whose name is so many bytes longer than one. -/
  | behind (surplus : Nat)
  | within (name : List Char)
  deriving DecidableEq, Repr

/-- The distances, in bytes, from a character to those that count as written twice,
when `late` are the distances that earlier pairs left.  Right behind a parameter a
pair counts further on. -/
def credits (place : Place) (mark : Mark) (late : List Nat) : List Nat :=
  let due := if mark.doubled then 0 :: late else late
  match place with
  | .behind surplus => due.map fun distance => if distance = 0 then surplus else distance
  | .outside | .within _ => due

def creditsBehind (c : Char) (credits : List Nat) : List Nat :=
  (credits.filter (c.utf8Size ≤ ·)).map (· - c.utf8Size)

/-- Reads atoms.  `left` is the number of parameters still allowed.

A name has at least one character; only its first may be a star, which then is
not all of it, and its first is no closing brace, not even one written twice. -/
def atoms (left : Nat) (place : Place) (late : List Nat) :
    List Mark → Except InsertStop (List Atom)
  | [] =>
      match place with
      | .within _ => .error invalidName
      | .outside | .behind _ => .ok []
  | mark :: marks =>
      let due := credits place mark late
      let late := creditsBehind mark.char due
      let doubled := due.contains 0
      match place with
      | .outside | .behind _ =>
          if doubled then (atoms left .outside late marks).map (.char mark.char :: ·)
          else if mark.char = '{' then atoms left (.within []) late marks
          else if mark.char = '}' then .error invalidName
          else (atoms left .outside late marks).map (.char mark.char :: ·)
      | .within [] =>
          if mark.char = '}' then .error invalidName
          else atoms left (.within [mark.char]) late marks
      | .within (first :: name) =>
          if mark.char = '}' ∧ !doubled then
            if first = '*' then
              if name = [] then .error invalidName
              else (atoms left .outside late marks).map (.rest name :: ·)
            else
              match left with
              | 0 => .error tooManyCaptures
              | left + 1 =>
                  let surplus := (String.ofList (first :: name)).utf8ByteSize - 1
                  (atoms left (.behind surplus) late marks).map
                    (.capture (first :: name) :: ·)
          else if mark.char = '*' ∨ mark.char = '/' then .error invalidName
          else atoms left (.within (first :: name ++ [mark.char])) late marks

inductive Segment where
  | literal (text : List Char)
  | capture (before name after : List Char)
  | rest (before name : List Char)
  deriving DecidableEq, Repr

namespace Segment

def anonymous : Segment → Segment
  | literal text => literal text
  | capture before _ after => capture before [] after
  | rest before _ => rest before []

def before? : Segment → Option (List Char)
  | literal _ => none
  | capture before _ _ | rest before _ => some before

def isRest : Segment → Bool
  | rest _ _ => true
  | literal _ | capture _ _ _ => false

def match? (segment : Segment) (text : List Char) : Option (List (String × String)) :=
  match segment with
  | literal own => if own = text then some [] else none
  | capture before name after =>
      match Text.dropBeginning? before text with
      | none => none
      | some tail =>
          if after.isSuffixOf tail ∧ after.length < tail.length then
            some [(.ofList name, .ofList (tail.take (tail.length - after.length)))]
          else
            none
  | rest before name =>
      match Text.dropBeginning? before text with
      | none | some [] => none
      | some tail => some [(.ofList name, .ofList tail)]

end Segment

/-- What is captured from the segments of a path, if all of them fit.  The last
segment of a pattern takes all that is left when it captures the rest. -/
def matchSegments? : List Segment → List (List Char) → Option (List (String × String))
  | [], [] => some []
  | segment :: segments, text :: texts =>
      if segment.isRest then segment.match? (Text.join ['/'] (text :: texts))
      else do
        let captured ← segment.match? text
        let others ← matchSegments? segments texts
        return captured ++ others
  | [], _ :: _ | _ :: _, [] => none

def splitAtoms : List Atom → List (List Atom)
  | [] => [[]]
  | atom :: rest =>
      match atom == .char '/', splitAtoms rest with
      | true, found => [] :: found
      | false, [] => [[atom]]
      | false, piece :: found => (atom :: piece) :: found

def spanLiteral : List Atom → List Char × List Atom
  | .char c :: atoms =>
      let (literal, others) := spanLiteral atoms
      (c :: literal, others)
  | atoms => ([], atoms)

/-- Reads one segment.  With more in it than one parameter can stand beside, the
segment is read up to that parameter, and the error is given with it. -/
def Segment.ofAtoms (isLast : Bool) (atoms : List Atom) : Segment × Option InsertError :=
  match spanLiteral atoms with
  | (before, []) => (.literal before, none)
  | (before, .capture name :: others) =>
      match spanLiteral others with
      | (after, []) => (.capture before name after, none)
      | _ => (.capture before name [], some .sharedSegment)
  | (before, .rest name :: others) =>
      (.rest before name, if isLast ∧ others = [] then none else some .catchAllNotLast)
  | (before, .char _ :: _) => (.literal before, none)

def readSegments : List (List Atom) → List Segment × Option InsertError
  | [] => ([], none)
  | atoms :: others =>
      match Segment.ofAtoms others.isEmpty atoms with
      | (segment, some error) => ([segment], some error)
      | (segment, none) =>
          let (segments, error) := readSegments others
          (segment :: segments, error)

end VirtualHosts.Dispatch
