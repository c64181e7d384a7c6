import FrameLens.Text.Hex

/-!
Half-open ranges of addresses.
-/
namespace FrameLens

/-- The addresses from `start` up to, and without, `stop`. -/
structure AddressRange where
  start : UInt64
  stop : UInt64
  deriving DecidableEq, Repr

namespace AddressRange

def contains (r : AddressRange) (a : UInt64) : Bool := r.start ≤ a && a < r.stop

def isEmpty (r : AddressRange) : Bool := r.stop ≤ r.start

/-- Whether all addresses from one end of `inner` to the other lie between the ends of `outer`. -/
def encloses (outer inner : AddressRange) : Bool :=
  outer.start ≤ inner.start && inner.stop ≤ outer.stop

def text (r : AddressRange) : String :=
  "[" ++ Text.address r.start ++ ", " ++ Text.address r.stop ++ ")"

end AddressRange
end FrameLens
