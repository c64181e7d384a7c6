/-!
Types of variables as debug information describes them: their size, their spelling in C and their
making from base type entries.
-/
namespace FrameLens

/-- Widths of the built-in integer types. -/
inductive Width where
  | w8 | w16 | w32 | w64
  deriving DecidableEq, Repr

def Width.size : Width → UInt64
  | .w8 => 1
  | .w16 => 2
  | .w32 => 4
  | .w64 => 8

inductive CType where
  | void
  | integer (signed : Bool) (width : Width)
  | single
  | double
  | bool
  | char
  | pointer (target : CType)
  | named (name : String) (size : UInt64)
  deriving DecidableEq, Repr

namespace CType

/-- Size in bytes; pointers have eight. -/
def size : CType → UInt64
  | void => 0
  | integer _ width => width.size
  | single => 4
  | double => 8
  | bool => 1
  | char => 1
  | pointer _ => 8
  | named _ size => size

def isPointer : CType → Bool
  | pointer _ => true
  | _ => false

/-- The type behind all pointers, and how many there are. -/
def stripPointers : CType → CType × Nat
  | pointer target =>
    let (base, depth) := target.stripPointers
    (base, depth + 1)
  | type => (type, 0)

/-- A type with a number of pointers around it. -/
def pointers (base : CType) : Nat → CType
  | 0 => base
  | depth + 1 => pointer (base.pointers depth)

/-- The spelling in C. Asterisks stand together, one blank after the type they point to. -/
def text : CType → String
  | void => "void"
  | integer true .w8 => "signed char"
  | integer true .w16 => "short"
  | integer true .w32 => "int"
  | integer true .w64 => "long"
  | integer false .w8 => "unsigned char"
  | integer false .w16 => "unsigned short"
  | integer false .w32 => "unsigned int"
  | integer false .w64 => "unsigned long"
  | single => "float"
  | double => "double"
  | bool => "_Bool"
  | char => "char"
  | pointer target => target.text ++ if target.isPointer then "*" else " *"
  | named name _ => name

/-- The integer width of a size in bytes. -/
def width? (size : UInt64) : Option Width :=
  if size = 1 then some .w8
  else if size = 2 then some .w16
  else if size = 4 then some .w32
  else if size = 8 then some .w64
  else none

/-- The built-in type of a base type entry, by the number of its encoding (1 address, 2 boolean,
4 float, 5 signed, 6 signed character, 7 unsigned, 8 unsigned character) and its size. A boolean is
one whatever its size. -/
def builtin? (encoding : Nat) (size : UInt64) : Option CType :=
  match encoding with
  | 1 => if size = 8 then some (pointer void) else none
  | 2 => some bool
  | 4 => if size = 4 then some single else if size = 8 then some double else none
  | 5 => (width? size).map (integer true)
  | 7 => (width? size).map (integer false)
  | 6 | 8 => if size = 1 then some char else none
  | _ => none

/-- The type of a base type entry; one that is not built in keeps its name and size. -/
def ofBase (name : String) (encoding : Nat) (size : UInt64) : CType :=
  (builtin? encoding size).getD (named name size)

end CType
end FrameLens
