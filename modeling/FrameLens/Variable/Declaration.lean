import FrameLens.CType
import FrameLens.Location.Basic

/-!
Variables as debug information declares them.
-/
namespace FrameLens

inductive VariableKind where
  | parameter
  | local
  deriving DecidableEq, Repr

/-- Scopes are numbered in the order in which they were added. -/
abbrev ScopeId := Nat

/-- A declared variable. When locations for parts of the code are given, they alone count and the
default location does not. -/
structure Declaration where
  name : String
  type : CType
  kind : VariableKind
  location : Location
  ranged : List (AddressRange × Location)
  /-- the scope that declares it, once it is part of one -/
  scope : Option ScopeId
  line : Option Nat
  deriving DecidableEq, Repr

namespace Declaration

/-- Where the variable is while the program stands at `pc`: the first range that contains it
tells. -/
def locationAt (d : Declaration) (pc : UInt64) : Location :=
  match d.ranged with
  | [] => d.location
  | ranged =>
    match ranged.find? (·.1.contains pc) with
    | some (_, location) => location
    | none => .unavailable

end Declaration
end FrameLens
