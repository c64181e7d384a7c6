import FrameLens.Memory.Map
import FrameLens.Register.Basic

/-!
The captured state of a stopped process: registers, and something to read memory from.
-/
namespace FrameLens

/-- Where memory is read from: a process, a file or regions that were copied. All that is known of
it is what it answers to a request for bytes at an address. -/
structure MemoryReader where
  read (address length : UInt64) : Except ReadError (List UInt8)

namespace MemoryReader

def captured (map : MemoryMap) : MemoryReader := ⟨map.read⟩

/-- Answers every request with the same bytes, or refuses it when there are none. -/
def fixed (answer : Option (List UInt8)) : MemoryReader where
  read address length :=
    match answer with
    | some bytes => .ok bytes
    | none => .error (.unreadable address length)

end MemoryReader

structure Snapshot where
  registers : Registers
  memory : MemoryReader

namespace Snapshot

def register? (s : Snapshot) (r : Register) : Option UInt64 := s.registers.get? r

def read (s : Snapshot) (a length : UInt64) : Except ReadError (List UInt8) :=
  s.memory.read a length

/-- A one-line summary that lists the captured registers. -/
def summary (s : Snapshot) : String :=
  let entries := s.registers.entries.map fun entry =>
    "Register(" ++ toString entry.1.number.toNat ++ "): " ++ toString entry.2.toNat
  "Snapshot \x7b registers: Registers \x7b values: \x7b" ++ ", ".intercalate entries ++
    "\x7d \x7d, .. \x7d"

end Snapshot
end FrameLens
