import FrameLens.Location.Operation

/-!
Readers of operations take bytes away and never put any back, so reading operation after operation
comes to an end.
-/
namespace FrameLens
namespace Reader

/-- What is left after a successful reading is no longer than what was there. -/
def Consumes {α : Type} (reader : Reader α) : Prop :=
  ∀ input a rest, reader input = .ok (a, rest) → rest.length ≤ input.length

theorem Consumes.pure {α : Type} (a : α) : Consumes (Pure.pure a) := by
  intro input b rest h
  cases h
  exact Nat.le_refl _

theorem Consumes.bind {α β : Type} {first : Reader α} {next : α → Reader β}
    (hf : Consumes first) (hn : ∀ a, Consumes (next a)) : Consumes (first >>= next) := by
  intro input b rest h
  change (first input >>= fun r => next r.1 r.2) = .ok (b, rest) at h
  cases step : first input with
  | error e => rw [step] at h; cases h
  | ok r =>
    rw [step] at h
    exact Nat.le_trans (hn r.1 _ _ _ h) (hf _ _ _ step)

theorem Consumes.map {α β : Type} {reader : Reader α} (f : α → β) (h : Consumes reader) :
    Consumes (f <$> reader) :=
  h.bind fun a => Consumes.pure (f a)

theorem Consumes.fail {α : Type} (e : DecodeError) : Consumes (Reader.fail e : Reader α) := by
  intro input a rest h
  cases h

theorem consumes_bytes (count : Nat) : Consumes (bytes count) := by
  intro input a rest h
  unfold bytes at h
  split at h
  · cases h
    simp
  · cases h

theorem consumes_fixed (count : Nat) : Consumes (fixed count) := (consumes_bytes count).map _

theorem consumes_fixedSigned (count : Nat) : Consumes (fixedSigned count) :=
  (consumes_bytes count).map _

theorem consumes_unsigned : Consumes unsigned := by
  intro input a rest h
  unfold unsigned at h
  split at h
  · next result read =>
    cases h
    exact Nat.le_of_lt (Leb128.unsignedWithin_length read)
  · cases h
  · cases h

theorem consumes_signed : Consumes signed := by
  intro input a rest h
  unfold signed at h
  split at h
  · next result read =>
    cases h
    exact Nat.le_of_lt (Leb128.signedWithin_length read)
  · cases h
  · cases h

theorem consumes_unsignedBelow (bound : Nat) (e : DecodeError) :
    Consumes (unsignedBelow bound e) := by
  refine consumes_unsigned.bind fun n => ?_
  split
  · exact .pure n
  · exact .fail e

theorem consumes_register : Consumes register :=
  (consumes_unsignedBelow _ _).bind fun _ => .pure _

theorem consumes_offset : Consumes offset := consumes_signed.map _

theorem consumes_address (encoding : Encoding) : Consumes (address encoding) := by
  unfold address
  split
  · exact consumes_fixed _
  · exact .fail _

theorem consumes_block : Consumes block := consumes_unsigned.bind consumes_bytes

theorem consumes_shortBlock : Consumes shortBlock := (consumes_fixed 1).bind consumes_bytes

end Reader

open Reader

theorem Operand.consumes_skip (encoding : Encoding) (operand : Operand) :
    Consumes (operand.skip encoding) := by
  cases operand with
  | fixed count => exact (consumes_bytes count).bind fun _ => .pure _
  | unsigned => exact consumes_unsigned.bind fun _ => .pure _
  | signed => exact consumes_signed.bind fun _ => .pure _
  | address => exact (consumes_address encoding).bind fun _ => .pure _
  | sectionOffset => exact (consumes_bytes _).bind fun _ => .pure _
  | block => exact consumes_block.bind fun _ => .pure _
  | shortBlock => exact consumes_shortBlock.bind fun _ => .pure _

namespace Operation

theorem consumes_skipAll (encoding : Encoding) (operands : List Operand) :
    Consumes (skipAll encoding operands) := by
  induction operands with
  | nil => exact .pure ()
  | cons operand rest ih => exact (operand.consumes_skip encoding).bind fun _ => ih

theorem consumes_readWasmPlace : Consumes readWasmPlace := by
  refine (consumes_fixed 1).bind fun kind => ?_
  split
  · exact (consumes_unsignedBelow _ _).bind fun _ => .pure _
  · split
    · exact (consumes_bytes 4).bind fun _ => .pure _
    · exact .fail _

theorem consumes_readOperands (encoding : Encoding) (opcode : Nat) :
    Consumes (readOperands encoding opcode) := by
  unfold readOperands
  split
  case h_11 => exact consumes_register.bind fun _ => .pure _
  case h_12 => exact consumes_offset.bind fun _ => .pure _
  case h_13 => exact consumes_register.bind fun _ => consumes_offset.bind fun _ => .pure _
  case h_14 => exact consumes_block.bind fun _ => .pure _
  case h_15 => exact .pure _
  case h_18 => exact consumes_readWasmPlace
  case h_19 =>
    split
    · exact (consumes_skipAll _ _).bind fun _ => .pure _
    · exact .fail _
  case h_9 => exact consumes_unsigned.bind fun _ => .pure _
  case h_10 => exact consumes_signed.bind fun _ => .pure _
  case h_16 => exact consumes_register.bind fun _ => consumes_unsigned.bind fun _ => .pure _
  case h_17 => exact consumes_register.bind fun _ => consumes_unsigned.bind fun _ => .pure _
  all_goals first
    | exact (consumes_fixed _).bind fun _ => .pure _
    | exact (consumes_fixedSigned _).bind fun _ => .pure _

theorem consumes_read (encoding : Encoding) (opcode : UInt8) : Consumes (read encoding opcode) := by
  unfold read
  dsimp only
  split
  · exact .pure _
  · split
    · exact .pure _
    · split
      · exact consumes_offset.bind fun _ => .pure _
      · exact consumes_readOperands _ _

/-- All operations in the bytes. The first that cannot be read makes the whole unreadable. -/
def readAll (encoding : Encoding) (bytes : List UInt8) :
    Except DecodeError (List Operation) :=
  match bytes with
  | [] => .ok []
  | opcode :: rest =>
    match step : read encoding opcode rest with
    | .error e => .error e
    | .ok (operation, left) =>
      have _shorter := consumes_read encoding opcode rest operation left step
      match readAll encoding left with
      | .error e => .error e
      | .ok operations => .ok (operation :: operations)
termination_by bytes.length
decreasing_by simp only [List.length_cons]; omega

end Operation
end FrameLens
