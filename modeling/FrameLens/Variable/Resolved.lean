import FrameLens.Variable.Declaration
import FrameLens.Variable.Value

/-!
Variables with the values that they have at one stop.
-/
namespace FrameLens

structure ResolvedVariable where
  name : String
  type : CType
  kind : VariableKind
  storage : StorageClass
  value : Value
  /-- where in memory the value was read -/
  address : Option UInt64
  /-- the register that holds the value -/
  register : Option Register
  deriving DecidableEq, Repr

def Location.register? : Location → Option Register
  | register r => some r
  | _ => none

namespace ResolvedVariable

/-- A declared variable with what was found at its location. -/
def ofRaw (d : Declaration) (location : Location) (raw : RawValue) : ResolvedVariable where
  name := d.name
  type := d.type
  kind := d.kind
  storage := location.storage
  value := Value.decode d.type raw
  address := raw.address?
  register := location.register?

def isUnavailable (v : ResolvedVariable) : Bool := v.value.isUnavailable

def description (v : ResolvedVariable) : String :=
  "(" ++ v.type.text ++ ") " ++ v.name ++ " = " ++ v.value.text

/-- Equality in all parts, where floating point values are compared as numbers. -/
def equal (v w : ResolvedVariable) : Bool :=
  v.name = w.name ∧ v.type = w.type ∧ v.kind = w.kind ∧ v.storage = w.storage ∧
    v.value.equal w.value ∧ v.address = w.address ∧ v.register = w.register

end ResolvedVariable
end FrameLens
