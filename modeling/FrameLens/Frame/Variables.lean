import FrameLens.Scope.Tree
import FrameLens.Scope.Visible
import FrameLens.Variable.Resolved

/-!
The variables that are seen at a stop, with their values. A variable whose storage is gone is listed
without a value and does not disturb the others.
-/
namespace FrameLens

namespace Declaration

/-- The variable with its value at a stop. -/
def resolve (pc : UInt64) (snapshot : Snapshot) (d : Declaration) :
    Except ReadError ResolvedVariable :=
  let location := d.locationAt pc
  (location.evaluate snapshot d.type.size).map (ResolvedVariable.ofRaw d location)

def resolveAll (pc : UInt64) (snapshot : Snapshot) : List Declaration →
    Except ReadError (List ResolvedVariable)
  | [] => .ok []
  | d :: rest =>
    match d.resolve pc snapshot with
    | .error e => .error e
    | .ok v =>
      match resolveAll pc snapshot rest with
      | .error e => .error e
      | .ok vs => .ok (v :: vs)

end Declaration

namespace ScopeTree

/-- The variables that are seen through the given scopes. -/
def resolveScopes (pc : UInt64) (snapshot : Snapshot) (scopes : List Scope) :
    Except QueryError (List ResolvedVariable) :=
  match Declaration.resolveAll pc snapshot (visible scopes) with
  | .ok vs => .ok vs
  | .error e => .error (.storage e)

/-- All variables that are seen at a stop, innermost first. -/
def variablesAt (t : ScopeTree) (pc : UInt64) (snapshot : Snapshot) :
    Except QueryError (List ResolvedVariable) :=
  match t.chain pc with
  | .error e => .error e
  | .ok scopes => resolveScopes pc snapshot scopes

/-- The frame with the given number, the innermost being 0. -/
def frameAt (t : ScopeTree) (demangler : Demangler) (pc : UInt64) (index : Nat) :
    Except QueryError InlineFrame :=
  match t.frames demangler pc with
  | .error e => .error e
  | .ok frames =>
    match frames[index]? with
    | some frame => .ok frame
    | none => .error (.noSuchFrame index frames.length)

/-- The variables of one frame. Those of the frames around it are not seen. -/
def frameVariablesAt (t : ScopeTree) (demangler : Demangler) (pc : UInt64) (index : Nat)
    (snapshot : Snapshot) : Except QueryError (List ResolvedVariable) :=
  match t.frameAt demangler pc index with
  | .error e => .error e
  | .ok frame => resolveScopes pc snapshot frame.scopes

end ScopeTree

/-- The variables at a stop, for lookups. -/
structure Listing where
  pc : UInt64
  entries : List ResolvedVariable
  deriving DecidableEq, Repr

def ScopeTree.listingAt (t : ScopeTree) (pc : UInt64) (snapshot : Snapshot) :
    Except QueryError Listing :=
  (t.variablesAt pc snapshot).map (Listing.mk pc)

namespace Listing

def find? (l : Listing) (name : String) : Option ResolvedVariable :=
  l.entries.find? (·.name = name)

def arguments (l : Listing) : List ResolvedVariable := l.entries.filter (·.kind = .parameter)

def locals (l : Listing) : List ResolvedVariable := l.entries.filter (·.kind = .local)

/-- One description to a line. -/
def text (l : Listing) : String :=
  String.join (l.entries.map fun v => v.description ++ "\n")

/-- Whether two lists hold equal variables in the same order, floating point values being compared
as numbers. -/
def sameVariables : List ResolvedVariable → List ResolvedVariable → Bool
  | [], [] => true
  | v :: vs, w :: ws => v.equal w && sameVariables vs ws
  | _, _ => false

def equal (l m : Listing) : Bool := l.pc = m.pc && sameVariables l.entries m.entries

end Listing
end FrameLens
