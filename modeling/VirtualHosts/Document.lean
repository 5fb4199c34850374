/-
Values of a structured document, whatever notation it was written in.
-/

namespace VirtualHosts

/-- A value of a document.  A table keeps its fields in the order in which they
are written, repeated ones included. -/
inductive Value where
  | null
  | bool (value : Bool)
  | integer (value : Int)
  /-- A finite number that is not written as an integer, as it is written. -/
  | decimal (written : String)
  /-- An infinity, or what is no number at all.  Where any value is taken it is
  nothing. -/
  | notFinite
  | text (value : String)
  | array (items : List Value)
  | table (fields : List (String × Value))
  /-- A value that is well written but stands for nothing: it can be skipped,
  and reading it fails. -/
  | unreadable
  deriving Repr

abbrev Options := List (String × Value)

end VirtualHosts
