import FrameLens.Location.Extent
import FrameLens.Snapshot

/-!
Where the value of a variable is kept, how that follows from location operations, and what a
snapshot gives for it.
-/
namespace FrameLens

inductive Location where
  | register (register : Register)
  /-- in memory, at the content of a register plus an offset -/
  | stack (base : Register) (offset : Int64)
  /-- known without looking, least significant byte first -/
  | constant (bytes : List UInt8)
  /-- nowhere -/
  | unavailable
  deriving DecidableEq, Repr

inductive StorageClass where
  | register
  | stack
  | constant
  | optimizedOut
  deriving DecidableEq, Repr

def StorageClass.text : StorageClass → String
  | register => "register"
  | stack => "stack"
  | constant => "constant"
  | optimizedOut => "optimized out"

def Location.storage : Location → StorageClass
  | register _ => .register
  | stack _ _ => .stack
  | constant _ => .constant
  | unavailable => .optimizedOut

/-- What was found at a location: bytes, with the address if they came from memory. -/
inductive RawValue where
  | bytes (bytes : List UInt8) (address : Option UInt64)
  | unavailable
  deriving DecidableEq, Repr

def RawValue.address? : RawValue → Option UInt64
  | bytes _ address => address
  | unavailable => none

def DecodeError.message (e : DecodeError) : String :=
  "Invalid DWARF location expression: " ++
    match e with
    | endOfInput => "Hit the end of input before it was expected"
    | invalidOpcode => "Invalid opcode in DWARF expression"
    | unsignedNumber => "An error parsing an unsigned LEB128 value"
    | signedNumber => "An error parsing a signed LEB128 value"
    | registerNumber => "Registers larger than `u16` are not supported."
    | addressSize => "The specified address size is not supported"

/-- Why operations that could be read do not tell where the value is. -/
inductive Unusable where
  | noFrameBase
  | unsupported
  deriving DecidableEq, Repr

namespace Location

/-- The location that operations describe. Only single locations are understood: a register, memory
at a register or at the frame base, a constant. -/
def ofOperations (encoding : Encoding) (frameBase : Option Register) :
    List Operation → Except Unusable Location
  | [] => .ok unavailable
  | [.register r] => .ok (register r)
  | [.registerOffset base offset 0] => .ok (stack base offset)
  | [.frameOffset offset] =>
    match frameBase with
    | some base => .ok (stack base offset)
    | none => .error .noFrameBase
  | [.push word, .stackValue] => .ok (constant (Bytes.ofWord encoding.addressSize word))
  | [.implicitValue data] => .ok (constant data)
  | _ => .error .unsupported

/-- The location that bytes describe. What cannot be used is no error: the value is unavailable. -/
def ofBytes (encoding : Encoding) (frameBase : Option Register) (bytes : List UInt8) :
    Except DecodeError Location :=
  match Operation.readAll encoding bytes with
  | .error e => .error e
  | .ok operations =>
    match ofOperations encoding frameBase operations with
    | .ok location => .ok location
    | .error _ => .ok unavailable

/-- Looks up the value, `size` bytes of it. Registers and memory that were not captured make it
unavailable, and only a request longer than any buffer fails. -/
def evaluate (location : Location) (snapshot : Snapshot) (size : UInt64) :
    Except ReadError RawValue :=
  match location with
  | register r =>
    match snapshot.register? r with
    | some word => .ok (.bytes (Bytes.ofWord size.toNat word) none)
    | none => .ok .unavailable
  | stack base offset =>
    match snapshot.register? base with
    | some word =>
      let address := word + offset.toUInt64
      match snapshot.read address size with
      | .ok bytes => .ok (.bytes bytes (some address))
      | .error .tooLong => .error .tooLong
      | .error (.unreadable _ _) => .ok .unavailable
    | none => .ok .unavailable
  | constant bytes => .ok (.bytes bytes none)
  | unavailable => .ok .unavailable

end Location
end FrameLens
