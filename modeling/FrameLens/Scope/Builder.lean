import FrameLens.Scope.Tree

/-!
Construction of scope trees, scope by scope and variable by variable, and the check that the result
is well formed.
-/
namespace FrameLens

/-- Scopes in the order in which they were added, the function first. -/
structure ScopeBuilder where
  scopes : List Scope
  nonempty : scopes ≠ []
  deriving Repr

namespace ScopeBuilder

def start (name : String) (range : AddressRange) : ScopeBuilder where
  scopes := [Scope.bare 0 none (.function name) range]
  nonempty := by simp

/-- Adds a scope under a parent, and gives the builder that there is then with the number of the new
scope. -/
def addScope (b : ScopeBuilder) (parent : ScopeId) (kind : ScopeKind) (range : AddressRange) :
    ScopeBuilder × Except ScopeFault ScopeId :=
  if parent < b.scopes.length then
    let id := b.scopes.length
    ({ scopes := b.scopes.modify parent (Scope.adopt id) ++ [Scope.bare id (some parent) kind range]
       nonempty := by simp }, .ok id)
  else (b, .error (.unknownScope parent))

def addBlock (b : ScopeBuilder) (parent : ScopeId) (range : AddressRange) :
    ScopeBuilder × Except ScopeFault ScopeId :=
  b.addScope parent .block range

def addInlined (b : ScopeBuilder) (parent : ScopeId) (range : AddressRange) (site : CallSite) :
    ScopeBuilder × Except ScopeFault ScopeId :=
  b.addScope parent (.inlined site) range

/-- Declares a variable in a scope. -/
def declare (b : ScopeBuilder) (scope : ScopeId) (d : Declaration) :
    ScopeBuilder × Except ScopeFault Unit :=
  if scope < b.scopes.length then
    ({ scopes := b.scopes.modify scope (Scope.declare scope d)
       nonempty := by
        have h := b.nonempty
        simpa [← List.length_pos_iff] using h }, .ok ())
  else (b, .error (.unknownScope scope))

/-- Where the code of a scope starts. -/
def startOf (scopes : List Scope) (id : ScopeId) : UInt64 :=
  match scopes[id]? with
  | some s => s.range.start
  | none => 0

/-- Puts a scope in front of the first that does not start before it. -/
def insertByStart (scopes : List Scope) (id : ScopeId) : List ScopeId → List ScopeId
  | [] => [id]
  | next :: rest =>
    if startOf scopes id ≤ startOf scopes next then id :: next :: rest
    else next :: insertByStart scopes id rest

/-- The order of the starts; scopes that start together keep their order. -/
def sortByStart (scopes : List Scope) : List ScopeId → List ScopeId
  | [] => []
  | id :: rest => insertByStart scopes id (sortByStart scopes rest)

def sortChildren (scopes : List Scope) (s : Scope) : Scope :=
  { s with children := sortByStart scopes s.children }

/-- The first child that is not inside its parent, or that starts before the one in front of it has
ended. -/
def childFault? (parent : Scope) : Option Scope → List Scope → Option ScopeFault
  | _, [] => none
  | previous, child :: rest =>
    if parent.range.encloses child.range then
      match previous with
      | some before =>
        if child.range.start < before.range.stop then
          some (.siblingsOverlap before.id child.id child.range.start)
        else childFault? parent (some child) rest
      | none => childFault? parent (some child) rest
    else some (.escapesParent child.id child.range parent.id parent.range)

/-- The first name that was declared before. -/
def repeatedName? (seen : List String) : List Declaration → Option String
  | [] => none
  | d :: rest => if d.name ∈ seen then some d.name else repeatedName? (seen ++ [d.name]) rest

/-- What is wrong with one scope, its children being in order. -/
def scopeFault? (scopes : List Scope) (s : Scope) : Option ScopeFault :=
  if s.range.isEmpty then some (.emptyRange s.id s.range)
  else
    match childFault? s none (s.children.filterMap (scopes[·]?)) with
    | some fault => some fault
    | none => (repeatedName? [] s.declarations).map (.declaredTwice · s.id)

/-- The tree of the scopes, if they are well formed; else the fault of the first scope that has
one. -/
def build (b : ScopeBuilder) : Except ScopeFault ScopeTree :=
  let scopes := b.scopes.map (sortChildren b.scopes)
  match scopes.findSome? (scopeFault? scopes) with
  | some fault => .error fault
  | none => .ok { scopes, nonempty := by simpa [scopes] using b.nonempty }

end ScopeBuilder
end FrameLens
