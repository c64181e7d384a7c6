import FrameLens.AddressRange

/-!
A captured piece of memory.
-/
namespace FrameLens

/-- Consecutive bytes from `base` on. The bytes may reach past the end of the address space; those
that do have no address. -/
structure Region where
  base : UInt64
  data : List UInt8
  name : Option String
  deriving DecidableEq, Repr

/-- The last address there is. -/
def lastAddress : Nat := 0xffffffffffffffff

namespace Region

def size (r : Region) : Nat := r.data.length

def contains (r : Region) (a : UInt64) : Bool := r.base ≤ a && a.toNat - r.base.toNat < r.size

/-- The end of the region, or the last address where the region reaches past it. -/
def limit (r : Region) : UInt64 := UInt64.ofNat (min (r.base.toNat + r.size) lastAddress)

def range (r : Region) : AddressRange := ⟨r.base, r.limit⟩

/-- The bytes at an address, if all of them lie in the region. -/
def slice? (r : Region) (a : UInt64) (count : Nat) : Option (List UInt8) :=
  let start := a.toNat - r.base.toNat
  if r.contains a ∧ start + count ≤ r.size then some ((r.data.drop start).take count) else none

end Region
end FrameLens
