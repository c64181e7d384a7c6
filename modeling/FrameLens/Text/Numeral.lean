/-!
Unsigned 64-bit numerals: an optional plus sign and digits, decimal unless `0x` or `0X` stands in
front.
-/
namespace FrameLens.Text

/-- The value of a digit in bases up to sixteen, letters in either case. -/
def digitValue? (c : Char) : Option Nat :=
  if '0' ≤ c ∧ c ≤ '9' then some (c.toNat - '0'.toNat)
  else if 'a' ≤ c ∧ c ≤ 'f' then some (c.toNat - 'a'.toNat + 10)
  else if 'A' ≤ c ∧ c ≤ 'F' then some (c.toNat - 'A'.toNat + 10)
  else none

/-- Reads digits after those that gave `value`; every character has to be a digit of the base. -/
def digitsFrom (base : Nat) : Nat → List Char → Option Nat
  | value, [] => some value
  | value, c :: rest =>
    match digitValue? c with
    | some d => if d < base then digitsFrom base (value * base + d) rest else none
    | none => none

/-- One or more digits of the base. -/
def digits? (base : Nat) : List Char → Option Nat
  | [] => none
  | cs => digitsFrom base 0 cs

/-- A single plus sign in front is skipped. -/
def withoutPlus : List Char → List Char
  | '+' :: rest => rest
  | cs => cs

/-- A numeral of the base whose value fits in 64 bits. -/
def word? (base : Nat) (cs : List Char) : Option UInt64 :=
  match digits? base (withoutPlus cs) with
  | some n => if n < UInt64.size then some (UInt64.ofNat n) else none
  | none => none

/-- Splits a numeral into its base and what follows the mark of the base. -/
def splitBase : List Char → Nat × List Char
  | '0' :: 'x' :: rest => (16, rest)
  | '0' :: 'X' :: rest => (16, rest)
  | cs => (10, cs)

/-- A numeral in either base. -/
def number? (s : String) : Option UInt64 :=
  let (base, cs) := splitBase s.toList
  word? base cs

/-- A decimal numeral. -/
def decimal? (s : String) : Option UInt64 := word? 10 s.toList

end FrameLens.Text
