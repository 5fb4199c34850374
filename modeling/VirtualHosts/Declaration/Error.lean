/-
What can be wrong with a declaration.  A failed declaration leaves the route
or host it was made on as it was.
-/

namespace VirtualHosts

inductive DeclarationError where
  | missingName
  | missingHostname
  | missingArguments
  | emptyPathname
  | missingVerbs (pathname : String)
  | handlerCount (pathname : String) (count : Nat)
  | staticMarkerMixed (pathname : String)
  | staticRequiresDirectory (pathname : String)
  | middlewareRequiresCallable (pathname : String)
  | unknownVerb (name : String)
  deriving DecidableEq, Repr

namespace DeclarationError

def message : DeclarationError → String
  | missingName => "Missing name. Must be a non-empty string"
  | missingHostname => "Missing hostname. Must be a non-empty string"
  | missingArguments =>
      "Missing arguments: a pathname and a handler, or a handler, must be provided"
  | emptyPathname => "Endpoint pathname must not be empty"
  | missingVerbs pathname => s!"Endpoint '{pathname}' declares no verbs"
  | handlerCount pathname count =>
      s!"Endpoint '{pathname}' has {count} handlers; " ++
        "exactly one file path or one callable is supported"
  | staticMarkerMixed pathname =>
      s!"Endpoint '{pathname}' mixes the static marker with HTTP verbs"
  | staticRequiresDirectory pathname =>
      s!"Static endpoint '{pathname}' must be served from a directory path, not a callable"
  | middlewareRequiresCallable pathname =>
      s!"Middleware '{pathname}' needs exactly one callable handler"
  | unknownVerb name => s!"Unknown verb '{name}'"

end DeclarationError

/-- The verb with a name; the error repeats the name as it was written. -/
def DeclarationError.orUnknown {β : Type} (name : String) : Option β → Except DeclarationError β
  | some found => .ok found
  | none => .error (.unknownVerb name)

end VirtualHosts
