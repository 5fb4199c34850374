/-
The patterns that a declared pathname answers.

A pathname is about itself and everything below it.  With a parameter, that is
a segment `:name`, it is about the paths of its own shape only; with a star at
its end it is about every path that begins as it does.
-/

import VirtualHosts.Text

namespace VirtualHosts.Dispatch

inductive Pattern where
  /-- Paths of one shape.  The text has parameters as names between braces, and
  braces of its own twice. -/
  | exact (text : String)
  | below (beginning : String)
  deriving DecidableEq, Repr

def doubleBraces (chars : List Char) : List Char :=
  chars.flatMap fun c => if c = '{' ∨ c = '}' then [c, c] else [c]

def segmentText : List Char → List Char
  | ':' :: first :: name => '{' :: first :: name ++ ['}']
  | segment => doubleBraces segment

/-- Whether a segment is marked as a parameter.  A colon alone counts here,
although it captures nothing. -/
def isMarked (segment : List Char) : Bool :=
  segment.head? == some ':'

namespace Pattern

def ofPathname (pathname : String) : List Pattern :=
  let chars := pathname.toList
  if chars = [] ∨ chars = ['*'] ∨ chars = ['/'] then
    [below "/"]
  else
    match Text.dropLast? '*' chars with
    | some beginning => [below (.ofList beginning)]
    | none =>
        let segments := Text.segments chars
        let text := String.ofList (Text.join ['/'] (segments.map segmentText))
        if segments.any isMarked then [exact text]
        else [exact text, below (.ofList (Text.stripEnd '/' chars ++ ['/']))]

end Pattern

end VirtualHosts.Dispatch
