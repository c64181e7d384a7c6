import FrameLens.Scope.Basic

/-!
Visibility: of several declarations of one name the innermost is seen.
-/
namespace FrameLens

/-- The declarations whose names were not seen before, the first of each name. -/
def firstOfEachName (seen : List String) : List Declaration → List Declaration
  | [] => []
  | d :: rest =>
    if d.name ∈ seen then firstOfEachName seen rest
    else d :: firstOfEachName (d.name :: seen) rest

/-- The declarations that are seen through scopes given innermost first: in the order of the scopes,
within a scope in the order of declaration. -/
def visible (scopes : List Scope) : List Declaration :=
  firstOfEachName [] (scopes.flatMap Scope.declarations)

/-- The names that `visible` leaves out, with the scopes that declare them. -/
def shadowedFrom (seen : List String) : List (ScopeId × String) → List (ScopeId × String)
  | [] => []
  | (id, name) :: rest =>
    if name ∈ seen then (id, name) :: shadowedFrom seen rest
    else shadowedFrom (name :: seen) rest

def shadowed (scopes : List Scope) : List (ScopeId × String) :=
  shadowedFrom [] (scopes.flatMap fun s => s.declarations.map fun d => (s.id, d.name))

end FrameLens
