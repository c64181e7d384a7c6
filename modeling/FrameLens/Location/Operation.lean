import FrameLens.Bytes.Leb128
import FrameLens.Bytes.LittleEndian
import FrameLens.Register.Basic

/-!
Operations of DWARF location descriptions and their reading from bytes. Only the operations that a
location can be made of keep their operands; of every other one its extent matters and nothing else.
-/
namespace FrameLens

/-- Why bytes are not a sequence of operations. -/
inductive DecodeError where
  | endOfInput
  | invalidOpcode
  | unsignedNumber
  | signedNumber
  | registerNumber
  | addressSize
  deriving DecidableEq, Repr

/-- How many bytes an offset into a section has. -/
inductive OffsetFormat where
  | dwarf32
  | dwarf64
  deriving DecidableEq, Repr

/-- The properties of a unit that the reading of its operations depends on. -/
structure Encoding where
  version : Nat
  addressSize : Nat
  format : OffsetFormat
  deriving DecidableEq, Repr

def OffsetFormat.size : OffsetFormat → Nat
  | dwarf32 => 4
  | dwarf64 => 8

inductive Operation where
  /-- puts a number on the stack -/
  | push (word : UInt64)
  /-- the value is in the register -/
  | register (register : Register)
  /-- puts register plus offset on the stack; type 0 is the untyped form -/
  | registerOffset (register : Register) (offset : Int64) (type : Nat)
  /-- puts frame base plus offset on the stack -/
  | frameOffset (offset : Int64)
  /-- the value is given in place -/
  | implicitValue (data : List UInt8)
  /-- the value is what is on the stack -/
  | stackValue
  | other
  deriving DecidableEq, Repr

/-- Takes something from the front of a byte string. -/
abbrev Reader := StateT (List UInt8) (Except DecodeError)

namespace Reader

def bytes (count : Nat) : Reader (List UInt8) := fun input =>
  if count ≤ input.length then .ok (input.take count, input.drop count) else .error .endOfInput

/-- An unsigned number of a fixed number of bytes. -/
def fixed (count : Nat) : Reader Nat := Bytes.toNat <$> bytes count

/-- A signed number of a fixed number of bytes. -/
def fixedSigned (count : Nat) : Reader Int := Bytes.toInt <$> bytes count

def unsigned : Reader Nat := fun input =>
  match Leb128.readUnsigned input with
  | .ok result => .ok result
  | .error .endOfInput => .error .endOfInput
  | .error .tooLarge => .error .unsignedNumber

def signed : Reader Int := fun input =>
  match Leb128.readSigned input with
  | .ok result => .ok result
  | .error .endOfInput => .error .endOfInput
  | .error .tooLarge => .error .signedNumber

/-- Fails without taking anything. -/
def fail {α : Type} (e : DecodeError) : Reader α := fun _ => .error e

/-- An unsigned number that has to be below a bound. -/
def unsignedBelow (bound : Nat) (e : DecodeError) : Reader Nat := do
  let n ← unsigned
  if n < bound then pure n else fail e

def register : Reader Register := do
  let n ← unsignedBelow UInt16.size .registerNumber
  pure ⟨UInt16.ofNat n⟩

def offset : Reader Int64 := Int64.ofInt <$> signed

/-- An address, which has one, two, four or eight bytes. -/
def address (encoding : Encoding) : Reader Nat :=
  if encoding.addressSize ∈ [1, 2, 4, 8] then fixed encoding.addressSize else fail .addressSize

/-- Bytes after their number. -/
def block : Reader (List UInt8) := do
  let count ← unsigned
  bytes count

/-- Bytes after their number, which has one byte. -/
def shortBlock : Reader (List UInt8) := do
  let count ← fixed 1
  bytes count

end Reader

/-- An operand that is read and dropped. -/
inductive Operand where
  | fixed (count : Nat)
  | unsigned
  | signed
  | address
  | sectionOffset
  | block
  | shortBlock
  deriving DecidableEq, Repr

open Reader in
def Operand.skip (encoding : Encoding) : Operand → Reader Unit
  | fixed count => do let _ ← bytes count
  | unsigned => do let _ ← Reader.unsigned
  | signed => do let _ ← Reader.signed
  | address => do let _ ← Reader.address encoding
  | sectionOffset => do let _ ← bytes encoding.format.size
  | block => do let _ ← Reader.block
  | shortBlock => do let _ ← Reader.shortBlock

namespace Operation

def skipAll (encoding : Encoding) : List Operand → Reader Unit
  | [] => pure ()
  | operand :: rest => do
    operand.skip encoding
    skipAll encoding rest

/-- The operations without operands that no location is made of: arithmetic, comparison, shuffling
of the stack and fixed addresses of the frame or thread. -/
def plainOpcodes : List Nat :=
  [0x06, 0x12, 0x13, 0x14, 0x16, 0x17, 0x18, 0x19, 0x1a, 0x1b, 0x1c, 0x1d, 0x1e, 0x1f, 0x20, 0x21,
    0x22, 0x24, 0x25, 0x26, 0x27, 0x29, 0x2a, 0x2b, 0x2c, 0x2d, 0x2e, 0x96, 0x97, 0x9b, 0x9c, 0xe0]

/-- The operations with a single number in groups of seven bits that no location is made of. -/
def numberOpcodes : List Nat :=
  [0x23, 0x93, 0xa1, 0xa2, 0xa8, 0xa9, 0xf7, 0xf9, 0xfb, 0xfc]

/-- The operands of the operations that no location is made of. A reference to another entry was an
address in version 2 and is an offset since. -/
def otherOperands? (encoding : Encoding) (opcode : Nat) : Option (List Operand) :=
  if opcode ∈ plainOpcodes then some []
  else if opcode ∈ numberOpcodes then some [.unsigned]
  else if opcode ∈ [0x15, 0x94, 0x95] then some [.fixed 1]
  else if opcode ∈ [0x28, 0x2f, 0x98] then some [.fixed 2]
  else if opcode ∈ [0x99, 0xfa] then some [.fixed 4]
  else if opcode = 0x03 then some [.address]
  else if opcode = 0x9a then some [.sectionOffset]
  else if opcode = 0x9d then some [.unsigned, .unsigned]
  else if opcode ∈ [0xa0, 0xf2] then
    some [if encoding.version = 2 then .address else .sectionOffset, .signed]
  else if opcode ∈ [0xa3, 0xf3] then some [.block]
  else if opcode ∈ [0xa4, 0xf4] then some [.unsigned, .shortBlock]
  else if opcode ∈ [0xa6, 0xa7, 0xf6] then some [.fixed 1, .unsigned]
  else none

open Reader

/-- A place of a WebAssembly frame: its kind, then its index. -/
def readWasmPlace : Reader Operation := do
  let kind ← fixed 1
  if kind < 3 then
    let _ ← unsignedBelow UInt32.size .unsignedNumber
    pure other
  else if kind = 3 then
    let _ ← bytes 4
    pure other
  else fail .invalidOpcode

/-- Reads the operands that belong to an opcode. -/
def readOperands (encoding : Encoding) (opcode : Nat) : Reader Operation := do
  match opcode with
  | 0x08 => return push (UInt64.ofNat (← fixed 1))
  | 0x09 => return push (UInt64.ofInt (← fixedSigned 1))
  | 0x0a => return push (UInt64.ofNat (← fixed 2))
  | 0x0b => return push (UInt64.ofInt (← fixedSigned 2))
  | 0x0c => return push (UInt64.ofNat (← fixed 4))
  | 0x0d => return push (UInt64.ofInt (← fixedSigned 4))
  | 0x0e => return push (UInt64.ofNat (← fixed 8))
  | 0x0f => return push (UInt64.ofInt (← fixedSigned 8))
  | 0x10 => return push (UInt64.ofNat (← unsigned))
  | 0x11 => return push (UInt64.ofInt (← signed))
  | 0x90 => return register (← Reader.register)
  | 0x91 => return frameOffset (← offset)
  | 0x92 =>
    let base ← Reader.register
    return registerOffset base (← offset) 0
  | 0x9e => return implicitValue (← block)
  | 0x9f => return stackValue
  | 0xa5 | 0xf5 =>
    let base ← Reader.register
    return registerOffset base 0 (← unsigned)
  | 0xed => readWasmPlace
  | _ =>
    match otherOperands? encoding opcode with
    | some operands =>
      skipAll encoding operands
      return other
    | none => fail .invalidOpcode

/-- Reads what follows an opcode. Three runs of opcodes hold a small number themselves. -/
def read (encoding : Encoding) (opcode : UInt8) : Reader Operation :=
  let n := opcode.toNat
  if 0x30 ≤ n ∧ n < 0x50 then pure (push (UInt64.ofNat (n - 0x30)))
  else if 0x50 ≤ n ∧ n < 0x70 then pure (register ⟨UInt16.ofNat (n - 0x50)⟩)
  else if 0x70 ≤ n ∧ n < 0x90 then do
    return registerOffset ⟨UInt16.ofNat (n - 0x70)⟩ (← offset) 0
  else readOperands encoding n

end Operation
end FrameLens
