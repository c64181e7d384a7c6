/-!
What a mangled symbol refers to: the scopes, functions and types of C++.
-/
namespace FrameLens.Symbol

/-- One part of a name. Constructors and destructors have no name of their own. -/
inductive Part where
  | source (name : String)
  | constructor
  | destructor
  deriving DecidableEq, Repr

/-- A name that constructors and destructors can repeat. -/
inductive Leaf where
  | source (name : String)
  /-- the name of the string class of `std` -/
  | stdString
  deriving DecidableEq, Repr

/-- What makes one type of another. -/
inductive Mark where
  | pointer
  | reference
  | rvalueReference
  | qualified (volatile const : Bool)
  deriving DecidableEq, Repr

inductive Entity where
  | builtin (name : String)
  /-- the namespace `std` -/
  | std
  /-- the string class of `std` -/
  | stdString
  /-- a part that stands by itself -/
  | single (part : Part)
  | member (owner : Entity) (part : Part)
  /-- the type with a name that is one part -/
  | plainType (part : Part)
  /-- the type with a name in brackets of its own -/
  | nestedType (name : Entity)
  | marked (mark : Mark) (target : Entity)
  deriving DecidableEq, Repr

/-- A function or variable, with the types of its parameters and the marks that a compiler put on
copies of it. -/
structure Subject where
  entity : Entity
  /-- whether the name stands in brackets of its own, as the name of a member does -/
  nested : Bool
  volatile : Bool
  const : Bool
  parameters : List Entity
  clones : List String
  deriving DecidableEq, Repr

namespace Entity

/-- Whether the entity is a name made of parts. Types and the names in `std` with a code of their
own are not. -/
def isName : Entity → Bool
  | single _ | member _ _ => true
  | _ => false

/-- The last part of a name that has a name of its own. -/
def leaf? : Entity → Option Leaf
  | single (.source name) => some (.source name)
  | member _ (.source name) => some (.source name)
  | member owner _ => owner.leaf?
  | stdString => some .stdString
  | _ => none

end Entity

/-- The name that constructors and destructors repeat, wherever they stand in a symbol: the last one
of the function. A variable has none to offer. -/
def Subject.ownName? (s : Subject) : Option Leaf :=
  if s.parameters.isEmpty then none else s.entity.leaf?

/-! ### Levels

A description of an entity has levels, and one that goes too deep is not written. -/

def Leaf.depth : Leaf → Nat
  | source _ => 2
  | stdString => 0

/-- Constructors and destructors go as deep as the name that they repeat. -/
def Part.depth (own : Option Leaf) : Part → Nat
  | source _ => 3
  | constructor | destructor => 2 + (own.map Leaf.depth).getD 0

namespace Entity

/-- The levels below an entity. -/
def depth (own : Option Leaf) : Entity → Nat
  | builtin _ => 1
  | std | stdString => 0
  | single part => part.depth own
  | member owner part => max (owner.depth own + 1) (part.depth own)
  | plainType part => part.depth own + 3
  | nestedType name => name.depth own + 3
  | marked (.qualified _ _) target => max (target.depth own + 1) 2
  | marked _ target => target.depth own + 1

end Entity

namespace Subject

/-- A description that reaches this level is not written. -/
def levelLimit : Nat := 128

/-- The level at which the name is described. -/
def nameLevel : Nat := 4

/-- The level at which parameters are described. Those of a member lie below its name. -/
def parameterLevel (s : Subject) : Nat := if s.nested then 6 else 4

/-- Whether the description ends before the limit. -/
def isShallow (s : Subject) : Bool :=
  s.entity.depth s.ownName? + nameLevel < levelLimit &&
    s.parameters.all fun t => t.depth s.ownName? + s.parameterLevel < levelLimit

end Subject
end FrameLens.Symbol
