import FrameLens.Variable.Resolved

/-!
What a snapshot over captured memory gives for a location. Storage that was not captured makes a
value unavailable; the one failure left is a request for more bytes than a buffer can have.
-/
namespace FrameLens

theorem MemoryMap.read_eq_tooLong_iff (m : MemoryMap) (a length : UInt64) :
    m.read a length = .error .tooLong ↔
      lengthLimit ≤ length.toNat ∧ a.toNat + length.toNat ≤ lastAddress := by
  unfold MemoryMap.read
  by_cases hend : a.toNat + length.toNat > lastAddress
  · rw [if_pos hend]
    simp only [Except.error.injEq, reduceCtorEq, false_iff]
    omega
  · rw [if_neg hend]
    by_cases hlen : length.toNat ≥ lengthLimit
    · rw [if_pos hlen]
      exact iff_of_true rfl ⟨hlen, by omega⟩
    · rw [if_neg hlen]
      cases m.collect a (a + length) <;> simp [hlen]

namespace Location

/-- A request that is longer than any buffer and yet ends inside the address space. -/
def Overlong (registers : Registers) (size : UInt64) : Location → Prop
  | stack base offset => ∃ word, registers.get? base = some word ∧
      MemoryMap.lengthLimit ≤ size.toNat ∧
      (word + offset.toUInt64).toNat + size.toNat ≤ lastAddress
  | _ => False

theorem Overlong.lengthLimit_le {registers : Registers} {size : UInt64} {location : Location}
    (h : location.Overlong registers size) : MemoryMap.lengthLimit ≤ size.toNat := by
  cases location with
  | stack base offset =>
    obtain ⟨word, -, hlen, -⟩ := h
    exact hlen
  | _ => exact h.elim

/-- Whether everything that the value needs was captured. -/
def Recoverable (registers : Registers) (map : MemoryMap) (size : UInt64) : Location → Prop
  | register r => ∃ word, registers.get? r = some word
  | stack base offset => ∃ word, registers.get? base = some word ∧
      ∃ bytes, map.read (word + offset.toUInt64) size = .ok bytes
  | constant _ => True
  | unavailable => False

variable (registers : Registers) (map : MemoryMap) (size : UInt64)

theorem evaluate_eq_error_iff (location : Location) (e : ReadError) :
    location.evaluate ⟨registers, .captured map⟩ size = .error e ↔
      e = .tooLong ∧ location.Overlong registers size := by
  cases location with
  | register r => cases h : registers.get? r <;> simp [evaluate, Snapshot.register?, h, Overlong]
  | stack base offset =>
    cases hw : registers.get? base with
    | none => simp [evaluate, Snapshot.register?, hw, Overlong]
    | some word =>
      have hr := map.read_eq_tooLong_iff (word + offset.toUInt64) size
      simp only [evaluate, Snapshot.register?, hw, Snapshot.read, MemoryReader.captured, Overlong,
        Option.some.injEq, exists_eq_left', ← hr]
      cases map.read (word + offset.toUInt64) size with
      | ok bytes => simp
      | error cause => cases cause <;> simp [eq_comm]
  | constant bytes => simp [evaluate, Overlong]
  | unavailable => simp [evaluate, Overlong]

/-- What captured registers and memory give for a location. -/
inductive Finds (registers : Registers) (map : MemoryMap) (size : UInt64) :
    Location → RawValue → Prop
  | register {r : Register} {word : UInt64} (h : registers.get? r = some word) :
      Finds registers map size (register r) (.bytes (Bytes.ofWord size.toNat word) none)
  | memory {base : Register} {offset : Int64} {word : UInt64} {bytes : List UInt8}
      (h : registers.get? base = some word)
      (hread : map.read (word + offset.toUInt64) size = .ok bytes) :
      Finds registers map size (stack base offset) (.bytes bytes (some (word + offset.toUInt64)))
  | constant (bytes : List UInt8) : Finds registers map size (constant bytes) (.bytes bytes none)
  | noRegister {r : Register} (h : registers.get? r = none) :
      Finds registers map size (register r) .unavailable
  | noBase {base : Register} {offset : Int64} (h : registers.get? base = none) :
      Finds registers map size (stack base offset) .unavailable
  | noMemory {base : Register} {offset : Int64} {word a length : UInt64}
      (h : registers.get? base = some word)
      (hread : map.read (word + offset.toUInt64) size = .error (.unreadable a length)) :
      Finds registers map size (stack base offset) .unavailable
  | nowhere : Finds registers map size unavailable .unavailable

section
variable {registers map size}

theorem evaluate_eq_ok_iff {location : Location} {raw : RawValue} :
    location.evaluate ⟨registers, .captured map⟩ size = .ok raw ↔
      location.Finds registers map size raw := by
  constructor
  · intro h
    cases location with
    | register r =>
      cases hw : registers.get? r with
      | none =>
        simp only [evaluate, Snapshot.register?, hw, Except.ok.injEq] at h
        exact h ▸ .noRegister hw
      | some word =>
        simp only [evaluate, Snapshot.register?, hw, Except.ok.injEq] at h
        exact h ▸ .register hw
    | stack base offset =>
      cases hw : registers.get? base with
      | none =>
        simp only [evaluate, Snapshot.register?, hw, Except.ok.injEq] at h
        exact h ▸ .noBase hw
      | some word =>
        simp only [evaluate, Snapshot.register?, hw, Snapshot.read, MemoryReader.captured] at h
        cases hr : map.read (word + offset.toUInt64) size with
        | ok bytes =>
          simp only [hr, Except.ok.injEq] at h
          exact h ▸ .memory hw hr
        | error cause =>
          cases cause with
          | tooLong => simp [hr] at h
          | unreadable a length =>
            simp only [hr, Except.ok.injEq] at h
            exact h ▸ .noMemory hw hr
    | constant bytes =>
      cases h
      exact .constant bytes
    | unavailable =>
      cases h
      exact .nowhere
  · intro h
    cases h with
    | register h | noRegister h | noBase h => simp only [evaluate, Snapshot.register?, h]
    | memory h hread | noMemory h hread =>
      simp only [evaluate, Snapshot.register?, h, Snapshot.read, MemoryReader.captured, hread]
    | constant | nowhere => rfl

end

theorem eq_unavailable_iff {location : Location} {raw : RawValue}
    (h : location.evaluate ⟨registers, .captured map⟩ size = .ok raw) :
    raw = .unavailable ↔ ¬ location.Recoverable registers map size := by
  cases evaluate_eq_ok_iff.mp h with
  | register hw | noRegister hw | noBase hw => simp [Recoverable, hw]
  | memory hw hread | noMemory hw hread => simp [Recoverable, hw, hread]
  | constant | nowhere => simp [Recoverable]

end Location

/-- Bytes are always read as some value. -/
theorem Value.isUnavailable_decode_iff (type : CType) (raw : RawValue) :
    (Value.decode type raw).isUnavailable ↔ raw = .unavailable := by
  have hbytes (bytes : List UInt8) : (Value.ofBytes type bytes).isUnavailable = false := by
    cases type with
    | integer signed width => cases signed <;> rfl
    | _ => rfl
  cases raw with
  | unavailable => simp [decode, isUnavailable]
  | bytes raw address =>
    simp only [decode]
    split
    · simp [isUnavailable]
    · simp [hbytes]

end FrameLens
