import FrameLens.Variable.Declaration

/-!
Variables as debug information spells them, their locations still encoded.
-/
namespace FrameLens

/-- A location, or the bytes that describe one. -/
inductive LocationSource where
  | given (location : Location)
  | encoded (encoding : Encoding) (frameBase : Option Register) (bytes : List UInt8)
  deriving DecidableEq, Repr

def LocationSource.resolve : LocationSource → Except DecodeError Location
  | given location => .ok location
  | encoded encoding frameBase bytes => Location.ofBytes encoding frameBase bytes

structure VariableEntry where
  name : String
  type : CType
  kind : VariableKind
  location : LocationSource
  ranged : List (AddressRange × LocationSource)
  line : Option Nat
  deriving DecidableEq, Repr

namespace VariableEntry

/-- The locations in the order in which they are read. -/
def sources (e : VariableEntry) : List LocationSource := e.location :: e.ranged.map Prod.snd

def resolveRanged : List (AddressRange × LocationSource) →
    Except DecodeError (List (AddressRange × Location))
  | [] => .ok []
  | (range, source) :: rest => do
    let location ← source.resolve
    return (range, location) :: (← resolveRanged rest)

/-- The declaration that the entry spells; it is not part of a scope yet. -/
def resolve (e : VariableEntry) : Except DecodeError Declaration := do
  let location ← e.location.resolve
  let ranged ← resolveRanged e.ranged
  return { name := e.name, type := e.type, kind := e.kind, location, ranged, scope := none,
           line := e.line }

end VariableEntry
end FrameLens
