import FrameLens.Binary64
import FrameLens.CType
import FrameLens.Location.Basic
import FrameLens.Text.Escape

/-!
Values of variables: how bytes are read as a value of a type, and how values are written.
-/
namespace FrameLens

inductive Value where
  | integer (value : Int64)
  | unsigned (value : UInt64)
  | float (value : Binary64)
  | bool (value : Bool)
  | char (value : Char)
  | pointer (address : UInt64)
  /-- bytes that no built-in type explains -/
  | bytes (bytes : List UInt8)
  | unavailable
  deriving DecidableEq, Repr

namespace Value

/-- Reads exactly as many bytes as the type has. -/
def ofBytes (type : CType) (bytes : List UInt8) : Value :=
  match type with
  | .integer true _ => integer (Int64.ofInt (Bytes.toInt bytes))
  | .integer false _ => unsigned (UInt64.ofNat (Bytes.toNat bytes))
  | .single => float (Binary64.ofSingle (Bytes.toNat bytes))
  | .double => float ⟨UInt64.ofNat (Bytes.toNat bytes)⟩
  | .bool => bool (Bytes.toNat bytes != 0)
  | .char => char (Char.ofNat (Bytes.toNat bytes))
  | .pointer _ => pointer (UInt64.ofNat (Bytes.toNat bytes))
  | .void | .named _ _ => .bytes bytes

/-- The value of a type in what was found at its location. Bytes after the end of the type are
dropped; where there are too few, or the type is empty or larger than a word, all of them are kept
as they are. -/
def decode (type : CType) : RawValue → Value
  | .unavailable => unavailable
  | .bytes raw _ =>
    let size := type.size.toNat
    if size = 0 ∨ 8 < size ∨ raw.length < size then bytes raw else ofBytes type (raw.take size)

def isUnavailable : Value → Bool
  | unavailable => true
  | _ => false

def text : Value → String
  | integer value => toString value.toInt
  | unsigned value => toString value.toNat
  | float value => value.text
  | bool value => if value then "true" else "false"
  | char value => "'" ++ Text.escapeChar value ++ "'"
  | pointer address => "0x" ++ Text.hexPadded 16 address.toNat
  | bytes raw => "bytes[" ++ String.ofList (Text.spacedDigits raw) ++ "]"
  | unavailable => "<unavailable>"

/-- The value as an unsigned word, for those that are numbers of some kind but not fractions. A
negative number counts modulo `2 ^ 64`. -/
def asUnsigned? : Value → Option UInt64
  | integer value => some value.toUInt64
  | unsigned value => some value
  | bool value => some (if value then 1 else 0)
  | char value => some (UInt64.ofNat value.toNat)
  | pointer address => some address
  | float _ | bytes _ | unavailable => none

/-- Equality of values, where floating point numbers are compared as numbers. -/
def equal : Value → Value → Bool
  | float x, float y => x.equal y
  | x, y => x = y

end Value
end FrameLens
