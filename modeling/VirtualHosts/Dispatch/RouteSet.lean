/-
Sets of exact routes that can be told apart, and the route that answers a path.

Two routes cannot stand beside each other when they differ in the names of
parameters only, and a parameter for the rest of the path cannot stand where
another route has any parameter.  A path is compared from the left, a segment at
a time, with all routes at once: a literal segment is tried before a parameter, and
more literal text in front of a parameter before less.  What is demanded behind a
parameter is not tried but settled: the longest text that fits decides, and the
routes that demand less there are given up.
-/

import VirtualHosts.Dispatch.Segment

namespace VirtualHosts.Dispatch

structure ExactRoute (β : Type) where
  segments : List Segment
  value : β
  deriving Repr

/-- A step down the tree of the routes: a literal byte, a parameter, or the literal
text between a parameter and the next segment, its slash included. -/
inductive Branch where
  | byte (value : UInt8)
  | parameter
  | ending (text : List Char)
  deriving DecidableEq, Repr

def literalBranches (text : List Char) : List Branch :=
  text.flatMap fun c => (String.utf8EncodeChar c).map .byte

namespace Segment

def branches (slash : List Char) : Segment → List Branch
  | literal text => literalBranches (text ++ slash)
  | capture before _ after =>
      literalBranches before ++ .parameter ::
        (if after ++ slash = [] then [] else [.ending (after ++ slash)])
  | rest before _ => literalBranches before ++ [.parameter]

def display : Segment → List Char
  | literal text => text
  | capture before name after => before ++ '{' :: name ++ '}' :: after
  | rest before name => before ++ '{' :: '*' :: name ++ ['}']

end Segment

namespace ExactRoute

variable {β : Type}

def display (route : ExactRoute β) : String :=
  .ofList (Text.join ['/'] (route.segments.map Segment.display))

def branchesOf : List Segment → List Branch
  | [] => []
  | [last] => last.branches []
  | segment :: others => segment.branches ['/'] ++ branchesOf others

def branches (route : ExactRoute β) : List Branch :=
  branchesOf route.segments

def sameShape (left right : List Segment) : Bool :=
  left.map Segment.anonymous == right.map Segment.anonymous

/-- Whether a route has a parameter in the place of the last of `segments`, with
the same shape before it. -/
def meets (segments : List Segment) (route : ExactRoute β) : Bool :=
  let depth := segments.length - 1
  let there := route.segments.drop depth
  sameShape (segments.take depth) (route.segments.take depth) &&
    match segments.getLast?.bind Segment.before?, there.head?.bind Segment.before? with
    | some own, some other => own == other
    | _, _ => false

/-- Whether the place of the last of `segments` and the same place of a route
would hold a parameter for the rest beside another parameter. -/
def contends (segments : List Segment) (route : ExactRoute β) : Bool :=
  route.meets segments &&
    (segments.getLast?.any Segment.isRest ||
      (route.segments[segments.length - 1]?).any Segment.isRest)

end ExactRoute

/-- The branch that most of the given ones are equal to; of several, the one that
was the first to reach that number. -/
def busiest? (branches : List Branch) : Option Branch :=
  let counted := branches.foldl
    (fun (seen, leader) branch =>
      let count := (seen.filter (· == branch)).length + 1
      let most := (leader.map Prod.snd).getD 0
      (branch :: seen, if most < count then some (branch, count) else leader))
    (([], none) : List Branch × Option (Branch × Nat))
  counted.2.map Prod.fst

def longestEnding? (branches : List Branch) : Option Branch :=
  let longer (found : Option (List Char)) : Branch → Option (List Char)
    | .ending text =>
        if found.all fun known => (String.ofList known).utf8ByteSize <
            (String.ofList text).utf8ByteSize then some text
        else found
    | .byte _ | .parameter => found
  (branches.foldl longer none).map .ending

def Branch.isByte : Branch → Bool
  | byte _ => true
  | parameter | ending _ => false

/-- The branch followed from a place with these branches.  A parameter is followed
only where there is no literal byte. -/
def followed? (branches : List Branch) : Option Branch :=
  ((longestEnding? branches).or (busiest? (branches.filter Branch.isByte))).or branches.head?

/-- The route found by following the busiest branch at every place, starting with
all routes that are still possible and what remains of each. -/
def descend {α : Type} : (fuel : Nat) → List (List Branch × α) → Option α
  | 0, routes => routes.head?.map Prod.snd
  | fuel + 1, routes =>
      match followed? (routes.filterMap (·.1.head?)) with
      | none => routes.head?.map Prod.snd
      | some branch =>
          descend fuel <| routes.filterMap fun (remaining, route) =>
            match remaining with
            | [] => none
            | first :: others => if first = branch then some (others, route) else none

def reported? {β : Type} (routes : List (ExactRoute β)) : Option (ExactRoute β) :=
  let longest := (routes.map (·.branches.length)).foldl max 0
  descend longest (routes.map fun route => (route.branches, route))

abbrev Candidate (β : Type) := ExactRoute β × List Segment

namespace Candidate

variable {β : Type}

def afterLiteral? (text : List Char) : Candidate β → Option (Candidate β)
  | (route, .literal own :: others) => if own = text then some (route, others) else none
  | _ => none

/-- The text demanded at the end of a segment, and the candidate behind it, for a
parameter that stands behind `before` and can capture some of `tail`. -/
def afterCapture? (before tail : List Char) (isLast : Bool) :
    Candidate β → Option (List Char × Candidate β)
  | (route, .capture own _ after :: others) =>
      if own = before ∧ others.isEmpty = isLast ∧ after.isSuffixOf tail ∧
          after.length < tail.length then
        some (after, (route, others))
      else
        none
  | _ => none

def capturesRest (before : List Char) : Candidate β → Bool
  | (_, .rest own _ :: _) => own == before
  | _ => false

end Candidate

def settle {β : Type} (found : List (List Char × Candidate β)) : List (Candidate β) :=
  let longest := (found.map (·.1.length)).foldl max 0
  (found.filter fun (after, _) => after.length == longest).map Prod.snd

def cuts (text : List Char) : List (List Char × List Char) :=
  (List.range (text.length + 1)).reverse.map text.splitAt

/-- The route that answers the segments of a path.  Nothing is captured that is
empty. -/
def search {β : Type} :
    (texts : List (List Char)) → List (Candidate β) → Option (ExactRoute β)
  | _, [] => none
  | [], candidates => (candidates.find? (·.2.isEmpty)).map Prod.fst
  | text :: texts, candidates =>
      match search texts (candidates.filterMap (·.afterLiteral? text)) with
      | some route => some route
      | none =>
          (cuts text).findSome? fun (before, tail) =>
            if tail.isEmpty ∧ texts.isEmpty then none
            else
              match candidates.find? (·.capturesRest before) with
              | some (route, _) => some route
              | none =>
                  search texts <| settle <|
                    candidates.filterMap (·.afterCapture? before tail texts.isEmpty)

abbrev RouteSet (β : Type) := List (ExactRoute β)

namespace RouteSet

variable {β : Type}

/-- The earlier routes with which the first conflict of a new one is, place by
place from the left. -/
def contenders (routes : RouteSet β) (segments : List Segment) : List (ExactRoute β) :=
  let places := (List.range segments.length).map fun depth => segments.take (depth + 1)
  let found := places.map fun place => routes.filter (ExactRoute.contends place)
  (found.find? (!·.isEmpty)).getD []

/-- Inserts a route given by its text.  What is wrong with a name is found first,
then a conflict over the place of a parameter, then a misplaced parameter, and
last a route of the same shape.

It is assumed that a second parameter in a segment is always found and refused.  A
radix tree that compares the text behind a parameter byte by byte with the endings
that it has, and does not tell a brace that was written twice from one that opens a
name, takes such a segment where the two are equal, and cannot be searched any more;
no trees of that kind are described here. -/
def insert (routes : RouteSet β) (text : String) (value : β) :
    Except InsertStop (RouteSet β) :=
  match atoms mostCaptures .outside [] (pairBraces text.toList) with
  | .error error => .error error
  | .ok found =>
      let (segments, misplaced) := readSegments (splitAtoms found)
      match reported? (routes.contenders segments), misplaced,
          routes.find? (ExactRoute.sameShape segments ·.segments) with
      | some earlier, _, _ => .error (.refused (.conflict earlier.display))
      | none, some error, _ => .error (.refused error)
      | none, none, some earlier => .error (.refused (.conflict earlier.display))
      | none, none, none => .ok (routes ++ [⟨segments, value⟩])

def find? (routes : RouteSet β) (path : String) :
    Option (ExactRoute β × List (String × String)) := do
  let texts := Text.segments path.toList
  let route ← search texts (routes.map fun route => (route, route.segments))
  let captured ← matchSegments? route.segments texts
  return (route, captured)

end RouteSet

end VirtualHosts.Dispatch
