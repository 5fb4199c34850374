/-
Request targets: either a path with an optional query, the star, an authority
alone, or a scheme, an authority and a path.

The characters are taken as they are written.  Nothing is decoded, and a
fragment is dropped.
-/

import VirtualHosts.Text

namespace VirtualHosts.Http

structure Uri where
  authority : Option String
  path : String
  query : Option String
  deriving DecidableEq, Repr

namespace Uri

def isLetterOrDigit (c : Char) : Bool :=
  c.isAlphanum

def isSchemeChar (c : Char) : Bool :=
  isLetterOrDigit c || c == '+' || c == '-' || c == '.' || c == '~'

def isPlainAuthorityChar (c : Char) : Bool :=
  isLetterOrDigit c || "!$&'()*+,-.;=_~".toList.contains c

/-- Characters of a path.  Beside those of the standard, quotes and braces are
let through, and every character beyond ASCII. -/
def isPathChar (c : Char) : Bool :=
  let code := c.toNat
  code == 0x21 || (0x24 ≤ code && code ≤ 0x3B) || code == 0x3D ||
    (0x40 ≤ code && code ≤ 0x5F) || (0x61 ≤ code && code ≤ 0x7A) || code == 0x7C ||
    code == 0x7E || code == 0x22 || code == 0x7B || code == 0x7D || 0x80 ≤ code

def isQueryChar (c : Char) : Bool :=
  let code := c.toNat
  code == 0x21 || (0x24 ≤ code && code ≤ 0x3B) || code == 0x3D ||
    (0x3F ≤ code && code != 0x7F)

structure AuthorityScan where
  /-- Colons since the start, the last closing bracket or the last at-sign. -/
  colons : Nat := 0
  opened : Bool := false
  closed : Bool := false
  percent : Bool := false
  atSignLast : Bool := false

def AuthorityScan.step (seen : AuthorityScan) (c : Char) : Option AuthorityScan :=
  let next := { seen with atSignLast := false }
  if c = ':' then
    if 8 ≤ seen.colons then none else some { next with colons := seen.colons + 1 }
  else if c = '[' then
    if seen.percent || seen.opened then none else some { next with opened := true }
  else if c = ']' then
    if !seen.opened || seen.closed then none
    else some { next with closed := true, colons := 0, percent := false }
  else if c = '@' then
    some { next with colons := 0, percent := false, atSignLast := true }
  else if c = '%' then
    some { next with percent := true }
  else if isPlainAuthorityChar c then
    some next
  else
    none

def AuthorityScan.complete (seen : AuthorityScan) : Bool :=
  seen.opened == seen.closed && seen.colons ≤ 1 && !seen.atSignLast && !seen.percent

def authority? (chars : List Char) : Option (List Char × List Char) :=
  let ends (c : Char) : Bool := c == '/' || c == '?' || c == '#'
  let authority := chars.takeWhile (!ends ·)
  match authority.foldlM AuthorityScan.step {} with
  | some seen =>
      if seen.complete then some (authority, chars.dropWhile (!ends ·)) else none
  | none => none

/-- The rest of a text after its scheme.  What has no scheme stays whole.  A
scheme has at most 64 characters. -/
def afterScheme? (chars : List Char) : Option (Bool × List Char) :=
  let scheme := chars.takeWhile isSchemeChar
  match chars.dropWhile isSchemeChar with
  | ':' :: '/' :: '/' :: rest =>
      if 64 < scheme.length then none else some (true, rest)
  | _ => some (false, chars)

/-- Reads a path and a query; the fragment after them is dropped. -/
def pathAndQuery? (chars : List Char) : Option (List Char × Option (List Char)) :=
  let path := chars.takeWhile fun c => c != '?' && c != '#'
  if !path.all isPathChar then
    none
  else
    match chars.dropWhile fun c => c != '?' && c != '#' with
    | '?' :: rest =>
        let query := rest.takeWhile (· != '#')
        if query.all isQueryChar then some (path, some query) else none
    | _ => some (path, none)

def longest : Nat := 65534

def read? (text : String) : Option Uri :=
  let chars := text.toList
  if longest < text.utf8ByteSize then
    none
  else if chars = ['*'] then
    some ⟨none, "*", none⟩
  else if chars.head? = some '/' then
    (pathAndQuery? chars).map fun (path, query) =>
      ⟨none, .ofList path, query.map .ofList⟩
  else
    match afterScheme? chars with
    | none => none
    | some (false, _) =>
        match authority? chars with
        | some (_ :: _, []) => some ⟨some text, "", none⟩
        | _ => none
    | some (true, rest) =>
        match authority? rest with
        | some (first :: more, rest) =>
            (pathAndQuery? rest).map fun (path, query) =>
              ⟨some (.ofList (first :: more)),
                if path.isEmpty then "/" else .ofList path, query.map .ofList⟩
        | _ => none

/-- The host in an authority: without what stands before the last at-sign, and
either a bracketed address or what stands before the first colon. -/
def hostOf (authority : List Char) : List Char :=
  let place := (authority.reverse.takeWhile (· != '@')).reverse
  match place with
  | '[' :: _ => place.takeWhile (· != ']') ++ [']']
  | _ => place.takeWhile (· != ':')

def host? (uri : Uri) : Option String :=
  uri.authority.map fun authority => .ofList (hostOf authority.toList)

end Uri

end VirtualHosts.Http
