import FrameLens.Memory.Map
import FrameLens.Scope.Basic

/-!
The tree of a function's scopes: which of them hold a program counter, and the inline frames that
these make up.
-/
namespace FrameLens

/-- Scopes by number, the function itself first. -/
structure ScopeTree where
  scopes : List Scope
  nonempty : scopes ≠ []
  deriving DecidableEq, Repr

/-- Why a question about a stop has no answer. -/
inductive QueryError where
  | pcOutOfRange (pc : UInt64) (range : AddressRange)
  | noSuchFrame (index : Nat) (depth : Nat)
  | storage (cause : ReadError)
  deriving DecidableEq, Repr

def QueryError.message : QueryError → String
  | pcOutOfRange pc range =>
    "PC " ++ Text.address pc ++ " is outside function range " ++ range.text
  | noSuchFrame index depth =>
    "No inline frame " ++ toString index ++ " (only " ++ toString depth ++ " frames at this pc)"
  | storage cause => cause.message

/-- Scopes that a debugger shows as one frame: an inlined call or the function, with the blocks
around the program counter in it. -/
structure InlineFrame where
  function : String
  /-- the call that was inlined; the function itself has none -/
  site : Option CallSite
  /-- innermost first -/
  scopes : List Scope
  deriving DecidableEq, Repr

namespace InlineFrame

/-- Cuts a list of scopes, innermost first, after every inlined call and function. Blocks wait in
`pending` for the scope that ends their frame. -/
def split (demangler : Demangler) (pending : List Scope) : List Scope → List InlineFrame
  | [] => []
  | s :: rest =>
    match s.kind with
    | .block => split demangler (pending ++ [s]) rest
    | .inlined site =>
      ⟨site.displayName demangler, some site, pending ++ [s]⟩ :: split demangler [] rest
    | .function name =>
      ⟨demangler.displayName name, none, pending ++ [s]⟩ :: split demangler [] rest

end InlineFrame

namespace ScopeTree

def root (t : ScopeTree) : Scope := t.scopes.head t.nonempty

def get? (t : ScopeTree) (id : ScopeId) : Option Scope := t.scopes[id]?

def size (t : ScopeTree) : Nat := t.scopes.length

def range (t : ScopeTree) : AddressRange := t.root.range

/-- The symbol of the function. -/
def functionName (t : ScopeTree) : String :=
  match t.root.kind with
  | .function name => name
  | _ => ""

def children (t : ScopeTree) (s : Scope) : List Scope := s.children.filterMap t.get?

/-- The child that holds the program counter. Children are in the order of their starts, so only the
last that starts at or before it comes into question. -/
def childAt? (t : ScopeTree) (pc : UInt64) (s : Scope) : Option Scope :=
  (((t.children s).takeWhile fun child => child.range.start ≤ pc).getLast?).filter (·.contains pc)

/-- Goes from scope to child and collects what it passes, innermost first. A path through a tree is
no longer than the tree has scopes, which bounds `left`. -/
def descend (t : ScopeTree) (pc : UInt64) : (left : Nat) → Scope → List Scope → List Scope
  | 0, _, passed => passed
  | left + 1, s, passed =>
    match t.childAt? pc s with
    | some child => t.descend pc left child (child :: passed)
    | none => passed

/-- The scopes that hold the program counter, innermost first and the function last. -/
def chain (t : ScopeTree) (pc : UInt64) : Except QueryError (List Scope) :=
  if t.root.contains pc then .ok (t.descend pc t.size t.root [t.root])
  else .error (.pcOutOfRange pc t.range)

/-- The frames at the program counter, innermost first. -/
def frames (t : ScopeTree) (demangler : Demangler) (pc : UInt64) :
    Except QueryError (List InlineFrame) :=
  (t.chain pc).map (InlineFrame.split demangler [])

end ScopeTree
end FrameLens
