import FrameLens.Variable.Declaration

/-!
Scopes of a function: the function itself, the blocks in it, and the calls that were inlined.
-/
namespace FrameLens

/-- Gives the readable text of a mangled symbol, or nothing if it cannot read the symbol. -/
structure Demangler where
  read? (symbol : String) : Option String

/-- The name that a symbol is shown under. Only what begins like a mangled symbol is demangled,
since other names could be taken for the codes of types. -/
def Demangler.displayName (demangler : Demangler) (symbol : String) : String :=
  match symbol.toList with
  | '_' :: 'Z' :: _ => (demangler.read? symbol).getD symbol
  | _ => symbol

/-- The place of an inlined call. -/
structure CallSite where
  /-- the symbol of the function that is called -/
  callee : String
  line : Nat
  file : Option String
  deriving DecidableEq, Repr

namespace CallSite

def displayName (demangler : Demangler) (site : CallSite) : String :=
  demangler.displayName site.callee

def text (demangler : Demangler) (site : CallSite) : String :=
  match site.file with
  | some file => site.displayName demangler ++ " at " ++ file ++ ":" ++ toString site.line
  | none => site.displayName demangler ++ " at line " ++ toString site.line

end CallSite

inductive ScopeKind where
  | function (name : String)
  | block
  | inlined (site : CallSite)
  deriving DecidableEq, Repr

def ScopeKind.site? : ScopeKind → Option CallSite
  | inlined site => some site
  | _ => none

/-- A scope with its code, the variables that it declares and the scopes directly in it. -/
structure Scope where
  id : ScopeId
  parent : Option ScopeId
  kind : ScopeKind
  range : AddressRange
  declarations : List Declaration
  children : List ScopeId
  deriving DecidableEq, Repr

namespace Scope

def contains (s : Scope) (pc : UInt64) : Bool := s.range.contains pc

/-- A scope with nothing in it. -/
def bare (id : ScopeId) (parent : Option ScopeId) (kind : ScopeKind) (range : AddressRange) :
    Scope where
  id := id
  parent := parent
  kind := kind
  range := range
  declarations := []
  children := []

def adopt (child : ScopeId) (s : Scope) : Scope := { s with children := s.children ++ [child] }

/-- Declares a variable, which is told the number of its scope. -/
def declare (id : ScopeId) (d : Declaration) (s : Scope) : Scope :=
  { s with declarations := s.declarations ++ [{ d with scope := some id }] }

end Scope

/-- Why scopes do not make a tree. -/
inductive ScopeFault where
  | unknownScope (id : ScopeId)
  | emptyRange (id : ScopeId) (range : AddressRange)
  | escapesParent (child : ScopeId) (range : AddressRange)
      (parent : ScopeId) (parentRange : AddressRange)
  | siblingsOverlap (first second : ScopeId) (start : UInt64)
  | declaredTwice (name : String) (id : ScopeId)
  deriving DecidableEq, Repr

def ScopeFault.message (fault : ScopeFault) : String :=
  "Malformed scope metadata: " ++
    match fault with
    | unknownScope id => "unknown scope id " ++ toString id
    | emptyRange id range => "scope " ++ toString id ++ " has empty range " ++ range.text
    | escapesParent child range parent parentRange =>
      "scope " ++ toString child ++ " " ++ range.text ++ " escapes parent " ++ toString parent ++
        " " ++ parentRange.text
    | siblingsOverlap first second start =>
      "sibling scopes " ++ toString first ++ " and " ++ toString second ++ " overlap at " ++
        Text.address start
    | declaredTwice name id =>
      "variable '" ++ name ++ "' declared twice in scope " ++ toString id

end FrameLens
