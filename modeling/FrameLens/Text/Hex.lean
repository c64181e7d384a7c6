/-!
Lower-case hexadecimal text of numbers and byte strings.
-/
namespace FrameLens.Text

/-- The hexadecimal digits of a number, without leading zeros; zero is `0`. -/
def hexDigits (n : Nat) : List Char := Nat.toDigits 16 n

def hex (n : Nat) : String := String.ofList (hexDigits n)

/-- Hexadecimal digits with zeros in front, up to a width. -/
def paddedDigits (width n : Nat) : List Char :=
  let digits := hexDigits n
  List.replicate (width - digits.length) '0' ++ digits

def hexPadded (width n : Nat) : String := String.ofList (paddedDigits width n)

/-- An address or program counter as messages show it. -/
def address (a : UInt64) : String := "0x" ++ hex a.toNat

def byteDigits (b : UInt8) : List Char := paddedDigits 2 b.toNat

/-- A byte string as pairs of digits with nothing between them. -/
def hexBytes (bytes : List UInt8) : String := String.ofList (bytes.flatMap byteDigits)

/-- A byte string as pairs of digits with blanks between them. -/
def spacedDigits : List UInt8 → List Char
  | [] => []
  | [b] => byteDigits b
  | b :: rest => byteDigits b ++ ' ' :: spacedDigits rest

end FrameLens.Text
