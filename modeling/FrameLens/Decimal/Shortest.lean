/-!
The shortest decimal that identifies a binary fraction. A positive number `m * 2 ^ q` stands for
every real closer to it than to its neighbours of the same format; of the decimals among those
reals, one with the fewest digits that lies nearest to the number is chosen.
-/
namespace FrameLens

/-- The number `coefficient * 10 ^ exponent`. -/
structure Decimal where
  coefficient : Nat
  exponent : Int
  deriving DecidableEq, Repr

/-- A power of ten. -/
def tenTo (n : Nat) : Nat := Nat.pow 10 n

/-- A positive number with the reals that round to it. All three bounds share one denominator, and
`closed` says whether the ends belong to the reals that round to the number. -/
structure RoundingInterval where
  low : Nat
  value : Nat
  high : Nat
  denominator : Nat
  closed : Bool

/-- The interval of `m * 2 ^ q`. Below a power of two the neighbours stand half as far apart,
which `narrowBelow` tells. The ends belong to the interval when `m` is even. -/
def RoundingInterval.ofBinary (m : Nat) (q : Int) (narrowBelow : Bool) : RoundingInterval :=
  let scale := q - 2
  let up := 1 <<< scale.toNat
  { low := (4 * m - if narrowBelow then 1 else 2) * up
    value := 4 * m * up
    high := (4 * m + 2) * up
    denominator := 1 <<< (-scale).toNat
    closed := m % 2 == 0 }

/-- The numerator of `c * 10 ^ e` and the factor by which a bound has to be scaled to compare with
it. -/
def RoundingInterval.onGrid (i : RoundingInterval) (c : Nat) (e : Int) : Nat × Nat :=
  (c * tenTo e.toNat * i.denominator, tenTo (-e).toNat)

/-- Whether the decimal rounds to the number. -/
def RoundingInterval.holds (i : RoundingInterval) (c : Nat) (e : Int) : Bool :=
  let (n, scale) := i.onGrid c e
  if i.closed then i.low * scale ≤ n && n ≤ i.high * scale
  else i.low * scale < n && n < i.high * scale

/-- The largest multiple of `10 ^ e` that is at most the number, as a coefficient. -/
def RoundingInterval.floor (i : RoundingInterval) (e : Int) : Nat :=
  i.value * tenTo (-e).toNat / (tenTo e.toNat * i.denominator)

/-- Whether `c * 10 ^ e` is farther below the number than the next multiple is above it, or as
far. -/
def RoundingInterval.upperNearer (i : RoundingInterval) (c : Nat) (e : Int) : Bool :=
  let (n, scale) := i.onGrid (2 * c + 1) e
  n ≤ 2 * (i.value * scale)

/-- The better of the two multiples of `10 ^ e` around the number, if one of them rounds to it. An
exact tie goes up. -/
def RoundingInterval.candidate? (i : RoundingInterval) (e : Int) : Option Nat :=
  let below := i.floor e
  match i.holds below e, i.holds (below + 1) e with
  | true, true => some (if i.upperNearer below e then below + 1 else below)
  | true, false => some below
  | false, true => some (below + 1)
  | false, false => none

/-- How many decimal places the format can have after the point before its first digit. -/
def placesBound : Nat := 330

/-- The power of ten just above the number: `10 ^ (k - 1) ≤ value < 10 ^ k`. -/
def RoundingInterval.magnitude (i : RoundingInterval) : Int :=
  (Nat.toDigits 10 (i.value * tenTo placesBound / i.denominator)).length - (placesBound : Int)

/-- Tries one more digit at a time, `left` times at most. -/
def RoundingInterval.search (i : RoundingInterval) (k : Int) : (left digits : Nat) → Decimal
  | 0, digits => ⟨i.floor (k - digits), k - digits⟩
  | left + 1, digits =>
    match i.candidate? (k - digits) with
    | some c => if c = tenTo digits then ⟨1, k⟩ else ⟨c, k - digits⟩
    | none => i.search k left (digits + 1)

/-- Seventeen digits are enough for 53 significant bits. -/
def RoundingInterval.shortest (i : RoundingInterval) : Decimal := i.search i.magnitude 17 1

/-- Positional text: all digits are written out and there is no exponent. -/
def Decimal.positional (d : Decimal) : String :=
  let digits := Nat.toDigits 10 d.coefficient
  let places := (-d.exponent).toNat
  let chars :=
    if places = 0 then digits ++ List.replicate d.exponent.toNat '0'
    else if places < digits.length then
      let whole := digits.length - places
      digits.take whole ++ '.' :: digits.drop whole
    else '0' :: '.' :: (List.replicate (places - digits.length) '0' ++ digits)
  String.ofList chars

end FrameLens
