import FrameLens.Location.Basic
import FrameLens.Proofs.Location.Spelling

/-!
The byte strings that describe a register, a constant or a place in memory, one by one. What is
accepted for a register or a constant is exactly its form, bytes with an operation that cannot be
read are refused whatever stands before it, and a typed read of a register passes for memory only if
its type is zero.
-/
namespace FrameLens

namespace Location
open Operation

/-- The operations that tell where a value is. -/
inductive Gives (encoding : Encoding) (frameBase : Option Register) :
    List Operation → Location → Prop
  | nothing : Gives encoding frameBase [] unavailable
  | register (r : Register) : Gives encoding frameBase [.register r] (register r)
  | memory (base : Register) (offset : Int64) :
      Gives encoding frameBase [.registerOffset base offset 0] (stack base offset)
  | frame {base : Register} (h : frameBase = some base) (offset : Int64) :
      Gives encoding frameBase [.frameOffset offset] (stack base offset)
  | value (word : UInt64) :
      Gives encoding frameBase [.push word, .stackValue]
        (constant (Bytes.ofWord encoding.addressSize word))
  | block (data : List UInt8) : Gives encoding frameBase [.implicitValue data] (constant data)

section
variable {encoding : Encoding} {frameBase : Option Register} {ops : List Operation}
  {bytes : List UInt8} {location : Location}

theorem ofOperations_eq_ok_iff :
    ofOperations encoding frameBase ops = .ok location ↔ Gives encoding frameBase ops location := by
  constructor
  · intro h
    unfold ofOperations at h
    split at h
    · cases h
      exact .nothing
    · cases h
      exact .register _
    · cases h
      exact .memory _ _
    · cases hbase : frameBase with
      | some base =>
        rw [hbase] at h
        cases h
        exact .frame rfl _
      | none =>
        rw [hbase] at h
        contradiction
    · cases h
      exact .value _
    · cases h
      exact .block _
    · contradiction
  · intro h
    cases h with
    | frame hbase offset => simp only [ofOperations, hbase]
    | nothing | register | memory | value | block => rfl

theorem ofBytes_of_gives (hops : AllSpelled encoding ops bytes)
    (h : Gives encoding frameBase ops location) :
    ofBytes encoding frameBase bytes = .ok location := by
  have hread := (readAll_eq_ok_iff encoding bytes ops).mpr hops
  simp only [ofBytes, hread, ofOperations_eq_ok_iff.mpr h]

theorem ofBytes_of_unusable {cause : Unusable} (hops : AllSpelled encoding ops bytes)
    (h : ofOperations encoding frameBase ops = .error cause) :
    ofBytes encoding frameBase bytes = .ok unavailable := by
  have hread := (readAll_eq_ok_iff encoding bytes ops).mpr hops
  simp only [ofBytes, hread, h]

theorem ofBytes_eq_error_iff {e : DecodeError} :
    ofBytes encoding frameBase bytes = .error e ↔ readAll encoding bytes = .error e := by
  unfold ofBytes
  cases readAll encoding bytes with
  | error cause => simp
  | ok ops => cases h : ofOperations encoding frameBase ops <;> simp [h]

/-- What is found at all is found by reading operations to the end of the bytes. -/
theorem ofBytes_eq_ok_iff (hfound : location ≠ unavailable) :
    ofBytes encoding frameBase bytes = .ok location ↔
      ∃ ops, AllSpelled encoding ops bytes ∧ Gives encoding frameBase ops location := by
  constructor
  · intro h
    cases hread : readAll encoding bytes with
    | error e =>
      rw [ofBytes_eq_error_iff.mpr hread] at h
      contradiction
    | ok ops =>
      have hops := (readAll_eq_ok_iff encoding bytes ops).mp hread
      cases hgives : ofOperations encoding frameBase ops with
      | error cause =>
        rw [ofBytes_of_unusable hops hgives] at h
        cases h
        contradiction
      | ok found =>
        rw [ofBytes_of_gives hops (ofOperations_eq_ok_iff.mp hgives)] at h
        cases h
        exact ⟨ops, hops, ofOperations_eq_ok_iff.mp hgives⟩
  · rintro ⟨ops, hops, hgives⟩
    exact ofBytes_of_gives hops hgives

end

/-- The bytes of a constant: a counted block, or a number on the stack that is cut to an address. -/
inductive IsConstant (encoding : Encoding) (c : List UInt8) : List UInt8 → Prop
  | block {front : List UInt8} (h : Leb128.Unsigned c.length front) :
      IsConstant encoding c (0x9e :: (front ++ c))
  | value {v : Int} {bs : List UInt8} (h : Pushes v bs)
      (hlen : c.length = min encoding.addressSize 8)
      (hc : (Bytes.toNat c : Int) = v % 2 ^ 64 % 256 ^ c.length) :
      IsConstant encoding c (bs ++ [0x9f])

/-- The bytes of a place in memory: a register or the frame base, and an offset from it. -/
inductive IsMemory (frameBase : Option Register) (base : Register) (offset : Int64) :
    List UInt8 → Prop
  | register {bs : List UInt8} (h : AddsOffset base offset bs) : IsMemory frameBase base offset bs
  | frame {bs : List UInt8} (hbase : frameBase = some base) (h : Leb128.Signed offset.toInt bs) :
      IsMemory frameBase base offset (0x91 :: bs)

section
variable {encoding : Encoding} {frameBase : Option Register} {bytes : List UInt8}

theorem ofBytes_eq_register_iff {r : Register} :
    ofBytes encoding frameBase bytes = .ok (register r) ↔ NamesRegister r bytes := by
  rw [ofBytes_eq_ok_iff (by simp), ← spelled_register_iff, ← allSpelled_singleton]
  constructor
  · rintro ⟨ops, hops, hgives⟩
    cases hgives
    exact hops
  · intro hops
    exact ⟨_, hops, .register r⟩

theorem allSpelled_value_iff {word : UInt64} :
    AllSpelled encoding [push word, stackValue] bytes ↔
      ∃ v bs, Pushes v bs ∧ word = UInt64.ofInt v ∧ bytes = bs ++ [0x9f] := by
  rw [allSpelled_cons]
  simp only [allSpelled_singleton, spelled_push_iff, spelled_stackValue_iff]
  constructor
  · rintro ⟨bs, _, ⟨v, hpush, hword⟩, rfl, hbytes⟩
    exact ⟨v, bs, hpush, hword, hbytes⟩
  · rintro ⟨v, bs, hpush, hword, hbytes⟩
    exact ⟨bs, [0x9f], ⟨v, hpush, hword⟩, rfl, hbytes⟩

theorem ofBytes_eq_constant_iff {c : List UInt8} :
    ofBytes encoding frameBase bytes = .ok (constant c) ↔ IsConstant encoding c bytes := by
  rw [ofBytes_eq_ok_iff (by simp)]
  constructor
  · rintro ⟨ops, hops, hgives⟩
    cases hgives with
    | value word =>
      obtain ⟨v, bs, hpush, rfl, rfl⟩ := allSpelled_value_iff.mp hops
      obtain ⟨hlen, hc⟩ := (Bytes.eq_ofWord_iff encoding.addressSize v _).mp rfl
      exact .value hpush hlen hc
    | block =>
      obtain ⟨front, h, rfl⟩ := spelled_implicitValue_iff.mp (allSpelled_singleton.mp hops)
      exact .block h
  · intro h
    cases h with
    | @block front h =>
      exact ⟨_, allSpelled_singleton.mpr (spelled_implicitValue_iff.mpr ⟨front, h, rfl⟩), .block c⟩
    | @value v bs h hlen hc =>
      rw [(Bytes.eq_ofWord_iff encoding.addressSize v c).mpr ⟨hlen, hc⟩]
      exact ⟨_, allSpelled_value_iff.mpr ⟨v, bs, h, rfl, rfl⟩, .value _⟩

theorem ofBytes_eq_stack_iff {base : Register} {offset : Int64} :
    ofBytes encoding frameBase bytes = .ok (stack base offset) ↔
      IsMemory frameBase base offset bytes ∨ (offset = 0 ∧ ReadsTyped base 0 bytes) := by
  rw [ofBytes_eq_ok_iff (by simp)]
  constructor
  · rintro ⟨ops, hops, hgives⟩
    cases hgives with
    | memory =>
      rcases spelled_registerOffset_iff.mp (allSpelled_singleton.mp hops) with ⟨_, h⟩ | h
      · exact .inl (.register h)
      · exact .inr h
    | frame hbase =>
      obtain ⟨back, h, rfl⟩ := spelled_frameOffset_iff.mp (allSpelled_singleton.mp hops)
      exact .inl (.frame hbase h)
  · rintro (h | htyped)
    · cases h with
      | register h =>
        exact ⟨_, allSpelled_singleton.mpr (spelled_registerOffset_iff.mpr (.inl ⟨rfl, h⟩)),
          .memory base offset⟩
      | @frame bs hbase h =>
        exact ⟨_, allSpelled_singleton.mpr (spelled_frameOffset_iff.mpr ⟨bs, h, rfl⟩),
          .frame hbase offset⟩
    · exact ⟨_, allSpelled_singleton.mpr (spelled_registerOffset_iff.mpr (.inr htyped)),
        .memory base offset⟩

/-- Of two or more operations only a number that is the value itself can be used. -/
theorem ofBytes_eq_unavailable {ops : List Operation} (hops : AllSpelled encoding ops bytes)
    (hlen : 2 ≤ ops.length) (hconstant : ∀ c, ¬ IsConstant encoding c bytes) :
    ofBytes encoding frameBase bytes = .ok unavailable := by
  cases hgives : ofOperations encoding frameBase ops with
  | error cause => exact ofBytes_of_unusable hops hgives
  | ok location =>
    cases ofOperations_eq_ok_iff.mp hgives with
    | value word =>
      have hvalue : ofBytes encoding frameBase bytes = .ok (constant _) :=
        ofBytes_of_gives hops (.value word)
      exact absurd (ofBytes_eq_constant_iff.mp hvalue) (hconstant _)
    | nothing | register | memory | frame | block => simp at hlen

theorem ofBytes_typed {base : Register} {type : Nat} (h : ReadsTyped base type bytes) :
    ofBytes encoding frameBase bytes = .ok (if type = 0 then stack base 0 else unavailable) := by
  have hops : AllSpelled encoding [registerOffset base 0 type] bytes :=
    allSpelled_singleton.mpr (spelled_registerOffset_iff.mpr (.inr ⟨rfl, h⟩))
  cases type with
  | zero => exact ofBytes_of_gives hops (.memory base 0)
  | succ n => exact ofBytes_of_unusable hops rfl

/-- The opcodes of typed reads are none of those that stand before an offset. -/
theorem not_isMemory_of_typed {base r : Register} {type : Nat} {offset : Int64}
    (h : ReadsTyped base type bytes) : ¬ IsMemory frameBase r offset bytes := by
  intro hmemory
  cases h with
  | @mk opcode hcode front back =>
    have hopcode : (UInt8.ofNat opcode).toNat = 0xa5 ∨ (UInt8.ofNat opcode).toNat = 0xf5 := by
      simp only [List.mem_cons, List.not_mem_nil, or_false] at hcode
      rcases hcode with rfl | rfl
      · exact .inl rfl
      · exact .inr rfl
    generalize hbytes : UInt8.ofNat opcode :: (front ++ back) = bytes at hmemory
    generalize UInt8.ofNat opcode = head at hbytes hopcode
    cases hmemory with
    | register hadds =>
      cases hadds with
      | short hbase =>
        obtain ⟨rfl, -⟩ := List.cons.inj hbytes
        rw [UInt8.toNat_ofNat'] at hopcode
        omega
      | long =>
        obtain ⟨rfl, -⟩ := List.cons.inj hbytes
        contradiction
    | frame =>
      obtain ⟨rfl, -⟩ := List.cons.inj hbytes
      contradiction

end

/-- Registers and constants are told from every byte string that has one of their forms and from no
other. An operation that cannot be read makes the whole unreadable, also behind a usable one. -/
theorem ofBytes_register_constant_exact (encoding : Encoding) (frameBase : Option Register)
    (bytes : List UInt8) :
    ((∃ e, ofBytes encoding frameBase bytes = .error e) ↔
      ∃ ops front opcode rest, AllSpelled encoding ops front ∧ bytes = front ++ opcode :: rest ∧
        Unreadable encoding opcode rest) ∧
    (∀ r, ofBytes encoding frameBase bytes = .ok (register r) ↔ NamesRegister r bytes) ∧
    (∀ c, ofBytes encoding frameBase bytes = .ok (constant c) ↔ IsConstant encoding c bytes) ∧
    ofBytes encoding frameBase [] = .ok unavailable ∧
    ∀ ops, AllSpelled encoding ops bytes → 2 ≤ ops.length →
      (∀ c, ¬ IsConstant encoding c bytes) →
      ofBytes encoding frameBase bytes = .ok unavailable := by
  refine ⟨?_, fun r => ofBytes_eq_register_iff, fun c => ofBytes_eq_constant_iff, ?_,
    fun ops => ofBytes_eq_unavailable⟩
  · simp only [ofBytes_eq_error_iff, readAll_eq_error_iff, unreadable_iff]
    constructor
    · rintro ⟨e, ops, front, opcode, rest, hfront, hbytes, hread⟩
      exact ⟨ops, front, opcode, rest, hfront, hbytes, e, hread⟩
    · rintro ⟨ops, front, opcode, rest, hfront, hbytes, e, hread⟩
      exact ⟨e, ops, front, opcode, rest, hfront, hbytes, hread⟩
  · exact ofBytes_of_gives ⟨[], List.Forall₂.nil, rfl⟩ .nothing

/-- A register of which four bytes are used: the register alone would be a location. -/
theorem register_piece_unavailable :
    AllSpelled ⟨5, 8, .dwarf32⟩ [.register ⟨3⟩, .other] [0x53, 0x93, 0x04] ∧
    (∀ c, ¬ IsConstant ⟨5, 8, .dwarf32⟩ c [0x53, 0x93, 0x04]) ∧
    ofBytes ⟨5, 8, .dwarf32⟩ none [0x53, 0x93, 0x04] = .ok unavailable := by
  have hops : AllSpelled ⟨5, 8, .dwarf32⟩ [.register ⟨3⟩, .other] [0x53, 0x93, 0x04] :=
    (readAll_eq_ok_iff _ _ _).mp (by cbv)
  have hconstant (c : List UInt8) : ¬ IsConstant ⟨5, 8, .dwarf32⟩ c [0x53, 0x93, 0x04] := by
    intro h
    generalize hbytes : ([0x53, 0x93, 0x04] : List UInt8) = bytes at h
    cases h with
    | block => simp at hbytes
    | value =>
      have hlast := congrArg List.getLast? hbytes
      simp at hlast
  exact ⟨hops, hconstant, (ofBytes_register_constant_exact _ none _).2.2.2.2 _ hops (by decide)
    hconstant⟩

/-- Memory is told from an offset to a register or to the frame base, and from a typed read of a
register whose type is zero. Every other typed read has no location. -/
theorem ofBytes_stack_exact (encoding : Encoding) (frameBase : Option Register)
    (bytes : List UInt8) :
    (∀ base offset, ofBytes encoding frameBase bytes = .ok (stack base offset) ↔
      IsMemory frameBase base offset bytes ∨ (offset = 0 ∧ ReadsTyped base 0 bytes)) ∧
    ∀ base type, ReadsTyped base type bytes →
      (∀ r offset, ¬ IsMemory frameBase r offset bytes) ∧
      ofBytes encoding frameBase bytes =
        .ok (if type = 0 then stack base 0 else unavailable) := by
  constructor
  · intro base offset
    exact ofBytes_eq_stack_iff
  · intro base type h
    exact ⟨fun _ _ => not_isMemory_of_typed h, ofBytes_typed h⟩

theorem readsTyped_three (type : Nat) (byte : UInt8) (hlt : byte.toNat < 128)
    (htype : byte.toNat = type) : ReadsTyped ⟨3⟩ type [0xa5, 0x03, byte] := by
  have hbase : Leb128.Unsigned (Register.mk 3).number.toNat [0x03] :=
    ⟨.last (by decide), by decide, rfl, by decide⟩
  have hback : Leb128.Unsigned type [byte] :=
    ⟨.last hlt, by simp, (Leb128.value_singleton hlt).trans htype, by omega⟩
  exact ReadsTyped.mk (List.mem_cons_self : 0xa5 ∈ [0xa5, 0xf5]) hbase hback

/-- With a type other than zero. -/
theorem typed_read_unavailable : ReadsTyped ⟨3⟩ 0x10 [0xa5, 0x03, 0x10] ∧
    ofBytes ⟨5, 8, .dwarf32⟩ none [0xa5, 0x03, 0x10] = .ok unavailable := by
  have h := readsTyped_three 0x10 0x10 (by decide) rfl
  exact ⟨h, ((ofBytes_stack_exact ⟨5, 8, .dwarf32⟩ none _).2 _ _ h).2⟩

/-- A typed read of a register that is taken for the memory at its content. -/
theorem typed_read_taken_for_memory : ReadsTyped ⟨3⟩ 0 [0xa5, 0x03, 0x00] ∧
    (∀ r offset, ¬ IsMemory none r offset [0xa5, 0x03, 0x00]) ∧
    ofBytes ⟨5, 8, .dwarf32⟩ none [0xa5, 0x03, 0x00] = .ok (stack ⟨3⟩ 0) := by
  have h := readsTyped_three 0 0x00 (by decide) rfl
  exact ⟨h, fun _ _ => not_isMemory_of_typed h, ofBytes_typed h⟩

end Location

end FrameLens
