import FrameLens.Decimal.Shortest

/-!
Floating point numbers of 64 bits, kept as their bits: widening from 32 bits, comparison and text.
-/
namespace FrameLens

/-- A floating point number in the 64-bit interchange format. Equality of the structure is equality
of the bits; `Binary64.equal` compares the numbers. -/
structure Binary64 where
  bits : UInt64
  deriving DecidableEq, Repr

/-- What the bits stand for. A finite number is `mantissa * 2 ^ exponent` with a sign. -/
inductive Binary64.Number where
  | nan
  | infinite (negative : Bool)
  | finite (negative : Bool) (mantissa : Nat) (exponent : Int)
  deriving DecidableEq, Repr

namespace Binary64

/-- The leading bit of a full mantissa, which the format does not store. -/
def leadingBit : Nat := 0x10000000000000

def negative (x : Binary64) : Bool := x.bits.toNat / 0x8000000000000000 == 1

def exponentField (x : Binary64) : Nat := x.bits.toNat / leadingBit % 0x800

def fraction (x : Binary64) : Nat := x.bits.toNat % leadingBit

def number (x : Binary64) : Number :=
  if x.exponentField = 0x7ff then
    if x.fraction = 0 then .infinite x.negative else .nan
  else if x.exponentField = 0 then .finite x.negative x.fraction (-1074)
  else .finite x.negative (leadingBit + x.fraction) (x.exponentField - 1075)

def isNaN (x : Binary64) : Bool := x.number = .nan

def isZero (x : Binary64) : Bool := x.exponentField == 0 && x.fraction == 0

/-- Numeric equality: a NaN equals nothing, and the two zeros are equal. -/
def equal (x y : Binary64) : Bool :=
  !x.isNaN && !y.isNaN && (x.bits == y.bits || (x.isZero && y.isZero))

def ofFields (negative : Bool) (exponentField fraction : Nat) : Binary64 :=
  let sign := if negative then 0x8000000000000000 else 0
  ⟨UInt64.ofNat (sign + exponentField * leadingBit + fraction)⟩

/-- The number with the same value as a 32-bit one, given by its bits. A small number that has no
leading bit in the shorter format gets one in the longer; a NaN becomes a quiet NaN with the same
payload. -/
def ofSingle (bits : Nat) : Binary64 :=
  let negative := bits / 0x80000000 % 2 == 1
  let exponentField := bits / 0x800000 % 0x100
  let fraction := bits % 0x800000
  if exponentField = 0xff then
    let quiet := if 0 < fraction ∧ fraction < 0x400000 then 0x400000 else 0
    ofFields negative 0x7ff ((fraction + quiet) <<< 29)
  else if exponentField = 0 then
    if fraction = 0 then ofFields negative 0 0
    else
      let top := fraction.log2
      ofFields negative (top + 874) ((fraction - (1 <<< top)) <<< (52 - top))
  else ofFields negative (exponentField + 896) (fraction <<< 29)

/-- Text of a positive finite number. The neighbour below a power of two is nearer than the one
above, unless that power is the smallest with a full mantissa. -/
def magnitudeText (mantissa : Nat) (exponent : Int) : String :=
  let narrowBelow := mantissa == leadingBit && exponent != -1074
  (RoundingInterval.ofBinary mantissa exponent narrowBelow).shortest.positional

/-- The shortest digits that read back as the number, written without an exponent. -/
def text (x : Binary64) : String :=
  match x.number with
  | .nan => "NaN"
  | .infinite negative => if negative then "-inf" else "inf"
  | .finite negative mantissa exponent =>
    let magnitude := if mantissa = 0 then "0" else magnitudeText mantissa exponent
    if negative then "-" ++ magnitude else magnitude

end Binary64
end FrameLens
