import FrameLens.Memory.Region

/-!
Captured memory as a list of regions. Where regions overlap, an address is found in the one that was
added first; a read that has found a region takes from it as much as it has.
-/
namespace FrameLens

/-- Why bytes could not be read. -/
inductive ReadError where
  /-- some byte of the request is in no region, or past the last address -/
  | unreadable (address length : UInt64)
  /-- the request is longer than any buffer -/
  | tooLong
  deriving DecidableEq, Repr

def ReadError.message : ReadError → String
  | unreadable address length =>
    "Cannot read " ++ toString length.toNat ++ " bytes at " ++ Text.address address
  | tooLong => "capacity overflow"

structure MemoryMap where
  regions : List Region
  deriving DecidableEq, Repr

namespace MemoryMap

def empty : MemoryMap := ⟨[]⟩

def add (m : MemoryMap) (r : Region) : MemoryMap := ⟨m.regions ++ [r]⟩

/-- The first region that contains the address. -/
def find? (m : MemoryMap) (a : UInt64) : Option Region := m.regions.find? (·.contains a)

/-- Where the part of a request that one region can answer ends. -/
def chunkEnd (r : Region) (stop : UInt64) : UInt64 := if stop ≤ r.limit then stop else r.limit

theorem lt_chunkEnd {r : Region} {cursor stop : UInt64} (inside : r.contains cursor = true)
    (before : cursor < stop) : cursor < chunkEnd r stop := by
  simp only [Region.contains, Bool.and_eq_true, decide_eq_true_eq, UInt64.le_iff_toNat_le] at inside
  rw [UInt64.lt_iff_toNat_lt] at before
  have bound := stop.toNat_lt
  unfold chunkEnd
  split
  · exact UInt64.lt_iff_toNat_lt.mpr before
  · rw [UInt64.lt_iff_toNat_lt, Region.limit, UInt64.toNat_ofNat_of_lt' (by
      unfold lastAddress UInt64.size; omega)]
    unfold lastAddress
    omega

theorem chunkEnd_le (r : Region) (stop : UInt64) : chunkEnd r stop ≤ stop := by
  unfold chunkEnd
  split
  · exact UInt64.le_refl _
  · next h => exact UInt64.le_of_lt (UInt64.not_le.mp h)

/-- A region that holds the cursor brings the walk nearer to its end. -/
theorem chunkEnd_forward {m : MemoryMap} {r : Region} {cursor stop : UInt64}
    (found : m.find? cursor = some r) (before : cursor < stop) :
    stop.toNat - (chunkEnd r stop).toNat < stop.toNat - cursor.toNat := by
  have inside : r.contains cursor = true := by simpa using List.find?_some found
  have forward := UInt64.lt_iff_toNat_lt.mp (lt_chunkEnd inside before)
  have within := UInt64.le_iff_toNat_le.mp (chunkEnd_le r stop)
  omega

/-- Walks from `cursor` to `stop`, taking from each region that it comes to as much as it has. -/
def collect (m : MemoryMap) (cursor stop : UInt64) : Option (List UInt8) :=
  if before : cursor < stop then
    match found : m.find? cursor with
    | none => none
    | some r =>
      have _forward := chunkEnd_forward found before
      match r.slice? cursor ((chunkEnd r stop).toNat - cursor.toNat) with
      | none => none
      | some chunk => (m.collect (chunkEnd r stop) stop).map (chunk ++ ·)
  else some []
termination_by stop.toNat - cursor.toNat

/-- Requests of this length or more are refused before memory is looked at. -/
def lengthLimit : Nat := 0x8000000000000000

/-- Reads bytes that may lie in several adjoining regions. A failure names the whole request. -/
def read (m : MemoryMap) (a length : UInt64) : Except ReadError (List UInt8) :=
  if a.toNat + length.toNat > lastAddress then .error (.unreadable a length)
  else if length.toNat ≥ lengthLimit then .error .tooLong
  else
    match m.collect a (a + length) with
    | some bytes => .ok bytes
    | none => .error (.unreadable a length)

end MemoryMap
end FrameLens
