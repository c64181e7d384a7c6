import FrameLens.Proofs.Bytes.LittleEndian
import FrameLens.Proofs.Location.Grammar

/-!
How the operations that a location is made of are spelled, each with its opcodes: a number on the
stack, a register, an offset to a register or to the frame base, a typed read, a block of bytes.
-/
namespace FrameLens

namespace Operation

/-- One operation that puts a number on the stack. -/
inductive Pushes : Int → List UInt8 → Prop
  | literal {n : Nat} (hn : n < 32) : Pushes n [UInt8.ofNat (0x30 + n)]
  | fixedUnsigned {opcode : Nat} {data : List UInt8}
      (h : (opcode, data.length) ∈ [(0x08, 1), (0x0a, 2), (0x0c, 4), (0x0e, 8)]) :
      Pushes (Bytes.toNat data) (UInt8.ofNat opcode :: data)
  | fixedSigned {opcode : Nat} {data : List UInt8}
      (h : (opcode, data.length) ∈ [(0x09, 1), (0x0b, 2), (0x0d, 4), (0x0f, 8)]) :
      Pushes (Bytes.toInt data) (UInt8.ofNat opcode :: data)
  | unsigned {n : Nat} {bs : List UInt8} (h : Leb128.Unsigned n bs) : Pushes n (0x10 :: bs)
  | signed {v : Int} {bs : List UInt8} (h : Leb128.Signed v bs) : Pushes v (0x11 :: bs)

/-- One operation that names a register, in the opcode or behind it. -/
inductive NamesRegister (r : Register) : List UInt8 → Prop
  | short (h : r.number.toNat < 32) : NamesRegister r [UInt8.ofNat (0x50 + r.number.toNat)]
  | long {bs : List UInt8} (h : Leb128.Unsigned r.number.toNat bs) : NamesRegister r (0x90 :: bs)

/-- One operation that adds an offset to a register. -/
inductive AddsOffset (base : Register) (offset : Int64) : List UInt8 → Prop
  | short (hbase : base.number.toNat < 32) {bs : List UInt8} (h : Leb128.Signed offset.toInt bs) :
      AddsOffset base offset (UInt8.ofNat (0x70 + base.number.toNat) :: bs)
  | long {front back : List UInt8} (hbase : Leb128.Unsigned base.number.toNat front)
      (h : Leb128.Signed offset.toInt back) : AddsOffset base offset (0x92 :: (front ++ back))

/-- One operation that reads a register as a value of a type. -/
inductive ReadsTyped (base : Register) (type : Nat) : List UInt8 → Prop
  | mk {opcode : Nat} (h : opcode ∈ [0xa5, 0xf5]) {front back : List UInt8}
      (hbase : Leb128.Unsigned base.number.toNat front) (htype : Leb128.Unsigned type back) :
      ReadsTyped base type (UInt8.ofNat opcode :: (front ++ back))

section
variable {encoding : Encoding} {bs : List UInt8}

theorem spelled_iff {op : Operation} :
    Spelled encoding op bs ↔
      ∃ code operands, code < 256 ∧ Row encoding code op operands ∧
        bs = UInt8.ofNat code :: operands := by
  constructor
  · rintro ⟨opcode, operands, hrow, rfl⟩
    exact ⟨opcode.toNat, operands, opcode.toNat_lt, hrow, by rw [UInt8.ofNat_toNat]⟩
  · rintro ⟨code, operands, hcode, hrow, rfl⟩
    refine ⟨UInt8.ofNat code, operands, ?_, rfl⟩
    rwa [UInt8.toNat_ofNat_of_lt' hcode]

theorem spelled_push_iff {word : UInt64} :
    Spelled encoding (push word) bs ↔ ∃ v, Pushes v bs ∧ word = UInt64.ofInt v := by
  rw [spelled_iff]
  constructor
  · rintro ⟨code, operands, hcode, hrow, rfl⟩
    cases hrow with
    | literal hn => exact ⟨_, .literal hn, (Bytes.ofInt_natCast _).symm⟩
    | fixedUnsigned h hlen =>
      subst hlen
      exact ⟨_, .fixedUnsigned h, (Bytes.ofInt_natCast _).symm⟩
    | fixedSigned h hlen =>
      subst hlen
      exact ⟨_, .fixedSigned h, rfl⟩
    | unsigned h => exact ⟨_, .unsigned h, (Bytes.ofInt_natCast _).symm⟩
    | signed h => exact ⟨_, .signed h, rfl⟩
  · rintro ⟨v, hpush, rfl⟩
    cases hpush with
    | literal hn =>
      rw [Bytes.ofInt_natCast]
      exact ⟨_, [], by omega, .literal hn, rfl⟩
    | @fixedUnsigned opcode data h =>
      have hcode : opcode < 256 := by
        simp only [List.mem_cons, Prod.mk.injEq, List.not_mem_nil, or_false] at h
        omega
      rw [Bytes.ofInt_natCast]
      exact ⟨opcode, data, hcode, .fixedUnsigned h rfl, rfl⟩
    | @fixedSigned opcode data h =>
      have hcode : opcode < 256 := by
        simp only [List.mem_cons, Prod.mk.injEq, List.not_mem_nil, or_false] at h
        omega
      exact ⟨opcode, data, hcode, .fixedSigned h rfl, rfl⟩
    | @unsigned n bs h =>
      rw [Bytes.ofInt_natCast]
      exact ⟨0x10, bs, by omega, .unsigned h, rfl⟩
    | @signed v bs h => exact ⟨0x11, bs, by omega, .signed h, rfl⟩

theorem number_mk {n : Nat} (hn : n < 32) : (Register.mk (UInt16.ofNat n)).number.toNat = n :=
  UInt16.toNat_ofNat_of_lt' (show n < 65536 by omega)

theorem spelled_register_iff {r : Register} :
    Spelled encoding (register r) bs ↔ NamesRegister r bs := by
  rw [spelled_iff]
  constructor
  · rintro ⟨code, operands, hcode, hrow, rfl⟩
    cases hrow with
    | @shortRegister n hn =>
      have hshort := NamesRegister.short ((number_mk hn).symm ▸ hn)
      rwa [number_mk hn] at hshort
    | register h => exact .long h
  · intro h
    cases h with
    | short h =>
      have hrow : Row encoding _ _ [] := .shortRegister h
      rw [UInt16.ofNat_toNat] at hrow
      exact ⟨_, [], by omega, hrow, rfl⟩
    | @long bs h => exact ⟨0x90, bs, by omega, .register h, rfl⟩

theorem spelled_registerOffset_iff {base : Register} {offset : Int64} {type : Nat} :
    Spelled encoding (registerOffset base offset type) bs ↔
      (type = 0 ∧ AddsOffset base offset bs) ∨ (offset = 0 ∧ ReadsTyped base type bs) := by
  rw [spelled_iff]
  constructor
  · rintro ⟨code, operands, hcode, hrow, rfl⟩
    cases hrow with
    | @shortOffset n hn _ _ h =>
      have hshort := AddsOffset.short ((number_mk hn).symm ▸ hn) h
      rw [number_mk hn] at hshort
      exact .inl ⟨rfl, hshort⟩
    | registerOffset hr ho => exact .inl ⟨rfl, .long hr ho⟩
    | typedRegister h hr ht => exact .inr ⟨rfl, .mk h hr ht⟩
  · rintro (⟨rfl, h⟩ | ⟨rfl, h⟩)
    · cases h with
      | @short hbase bs h =>
        have hrow : Row encoding _ _ bs := .shortOffset hbase h
        rw [UInt16.ofNat_toNat] at hrow
        exact ⟨_, bs, by omega, hrow, rfl⟩
      | @long front back hbase h => exact ⟨0x92, _, by omega, .registerOffset hbase h, rfl⟩
    · cases h with
      | @mk opcode h front back hbase htype =>
        have hcode : opcode < 256 := by
          simp only [List.mem_cons, List.not_mem_nil, or_false] at h
          omega
        exact ⟨opcode, _, hcode, .typedRegister h hbase htype, rfl⟩

theorem spelled_frameOffset_iff {offset : Int64} :
    Spelled encoding (frameOffset offset) bs ↔
      ∃ back, Leb128.Signed offset.toInt back ∧ bs = 0x91 :: back := by
  rw [spelled_iff]
  constructor
  · rintro ⟨code, operands, hcode, hrow, rfl⟩
    cases hrow with
    | frameOffset h => exact ⟨_, h, rfl⟩
  · rintro ⟨back, h, rfl⟩
    exact ⟨0x91, back, by omega, .frameOffset h, rfl⟩

theorem spelled_implicitValue_iff {data : List UInt8} :
    Spelled encoding (implicitValue data) bs ↔
      ∃ front, Leb128.Unsigned data.length front ∧ bs = 0x9e :: (front ++ data) := by
  rw [spelled_iff]
  constructor
  · rintro ⟨code, operands, hcode, hrow, rfl⟩
    cases hrow with
    | implicitValue h => exact ⟨_, h, rfl⟩
  · rintro ⟨front, h, rfl⟩
    exact ⟨0x9e, _, by omega, .implicitValue h, rfl⟩

theorem spelled_stackValue_iff : Spelled encoding stackValue bs ↔ bs = [0x9f] := by
  rw [spelled_iff]
  constructor
  · rintro ⟨code, operands, hcode, hrow, rfl⟩
    cases hrow with
    | stackValue => rfl
  · rintro rfl
    exact ⟨0x9f, [], by omega, .stackValue, rfl⟩

end

/-- No row of the table fits the opcode and what comes behind it. -/
def Unreadable (encoding : Encoding) (opcode : UInt8) (rest : List UInt8) : Prop :=
  ∀ op operands back, Row encoding opcode.toNat op operands → rest ≠ operands ++ back

theorem unreadable_iff {encoding : Encoding} {opcode : UInt8} {rest : List UInt8} :
    Unreadable encoding opcode rest ↔ ∃ e, read encoding opcode rest = .error e := by
  constructor
  · intro h
    cases hread : read encoding opcode rest with
    | error e => exact ⟨e, rfl⟩
    | ok result =>
      obtain ⟨operands, hrow, hrest⟩ := (reads_read encoding opcode rest result.1 result.2).mp hread
      exact absurd hrest (h result.1 operands result.2 hrow)
  · rintro ⟨e, hread⟩ op operands back hrow hrest
    rw [(reads_read encoding opcode rest op back).mpr ⟨operands, hrow, hrest⟩] at hread
    contradiction

end Operation

end FrameLens
