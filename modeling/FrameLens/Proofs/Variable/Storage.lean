import FrameLens.Proofs.Location.Concatenation
import FrameLens.Proofs.Location.Evaluation
import FrameLens.Proofs.Memory.Coverage
import FrameLens.Proofs.Variable.Decoding

/-!
Values do not depend on where they are kept. A register is cut to the size of the type when it is
looked up, memory is read for as many bytes as the type has, and a number on the stack of a location
keeps its eight bytes until it is read as a value. Each leaves the same low bytes of the word.
-/
namespace FrameLens

namespace Location

/-- The value of a type that a snapshot gives for a location. -/
def Yields (location : Location) (snapshot : Snapshot) (type : CType) (value : Value) : Prop :=
  ∃ raw, location.evaluate snapshot type.size = .ok raw ∧ Value.decode type raw = value

section
variable {type : CType} (hlow : 1 ≤ type.size.toNat) (hhigh : type.size.toNat ≤ 8) {word : UInt64}
include hlow hhigh

theorem yields_register {snapshot : Snapshot} {r : Register}
    (h : snapshot.register? r = some word) :
    (register r).Yields snapshot type (.ofWord type word) := by
  refine ⟨.bytes (Bytes.ofWord type.size.toNat word) none, by simp only [evaluate, h], ?_⟩
  rw [Bytes.ofWord, Nat.min_eq_left hhigh]
  exact Value.decode_word hlow hhigh List.prefix_rfl none

theorem yields_region {registers : Registers} {base : Register} {content : UInt64}
    (h : registers.get? base = some content) {offset : Int64} {r : Region}
    (hbase : r.base = content + offset.toUInt64) (hdata : Bytes.ofNat 8 word.toNat <+: r.data)
    (hend : r.base.toNat + type.size.toNat ≤ lastAddress) :
    (stack base offset).Yields ⟨registers, .captured ⟨[r]⟩⟩ type (.ofWord type word) := by
  have hsize : 8 ≤ r.size := by
    have hlen := hdata.length_le
    rwa [Bytes.length_ofNat] at hlen
  have hshort : type.size.toNat < MemoryMap.lengthLimit := by
    unfold MemoryMap.lengthLimit
    omega
  have hread := MemoryMap.read_region hlow (hhigh.trans hsize) hend hshort
  have hlowBytes : Bytes.ofNat type.size.toNat word.toNat <+: r.data.take type.size.toNat := by
    rw [← Bytes.take_ofNat hhigh]
    exact hdata.take _
  rw [hbase] at hread
  exact ⟨_, evaluate_eq_ok_iff.mpr (.memory h hread), Value.decode_word hlow hhigh hlowBytes _⟩

theorem yields_pushed {encoding : Encoding} (haddress : encoding.addressSize = 8)
    (frameBase : Option Register) {bs : List UInt8} (h : Leb128.Unsigned word.toNat bs)
    (snapshot : Snapshot) :
    ∃ location, ofBytes encoding frameBase (0x10 :: (bs ++ [0x9f])) = .ok location ∧
      location.Yields snapshot type (.ofWord type word) := by
  have hread := ofBytes_pushed encoding frameBase (.unsigned h)
  rw [haddress, Bytes.ofInt_natCast, UInt64.ofNat_toNat] at hread
  refine ⟨_, hread, _, rfl, Value.decode_word hlow hhigh ?_ none⟩
  rw [← Bytes.take_ofNat hhigh]
  exact List.take_prefix _ _

end

/-- A word gives the same value of a type from a register, from memory at any base and offset, and
as a number in a location. For an integer type it is the number of the type that the low bytes of
the word spell, and no other. -/
theorem value_same_in_every_storage (type : CType) (hlow : 1 ≤ type.size.toNat)
    (hhigh : type.size.toNat ≤ 8) (word : UInt64) :
    let bits := 8 * type.size.toNat
    ∃ value : Value,
      (∀ (snapshot : Snapshot) (r : Register), snapshot.register? r = some word →
        (register r).Yields snapshot type value) ∧
      (∀ (registers : Registers) (base : Register) (content : UInt64) (offset : Int64) (r : Region),
        registers.get? base = some content →
        (r.base.toNat : Int) = (content.toNat + offset.toInt) % 2 ^ 64 →
        r.base.toNat + type.size.toNat ≤ lastAddress → Bytes.ofNat 8 word.toNat <+: r.data →
        (stack base offset).Yields ⟨registers, .captured ⟨[r]⟩⟩ type value) ∧
      (∀ (encoding : Encoding) (frameBase : Option Register) (bs : List UInt8)
        (snapshot : Snapshot), encoding.addressSize = 8 → Leb128.Unsigned word.toNat bs →
        ∃ location, ofBytes encoding frameBase (0x10 :: (bs ++ [0x9f])) = .ok location ∧
          location.Yields snapshot type value) ∧
      (∀ width, type = .integer true width →
        ∃ i : Int64, value = .integer i ∧
          (∀ n : Int, i.toInt = n ↔
            n ≡ word.toNat [ZMOD 2 ^ bits] ∧ -2 ^ (bits - 1) ≤ n ∧ n < 2 ^ (bits - 1)) ∧
          ∃ u : UInt64, value.asUnsigned? = some u ∧ (u.toNat : Int) = i.toInt % 2 ^ 64) ∧
      (∀ width, type = .integer false width →
        ∃ u : UInt64, value = .unsigned u ∧ u.toNat = word.toNat % 2 ^ bits ∧
          (∀ n : Nat, u.toNat = n ↔ n ≡ word.toNat [MOD 2 ^ bits] ∧ n < 2 ^ bits) ∧
          value.asUnsigned? = some u) := by
  intro bits
  refine ⟨.ofWord type word, ?_, ?_, ?_, ?_, ?_⟩
  · intro snapshot r h
    exact yields_register hlow hhigh h
  · intro registers base content offset r h hbase hend hdata
    have haddress : r.base = content + offset.toUInt64 := by
      apply UInt64.toNat_inj.mp
      have hsum := Bytes.toNat_add_toUInt64 content offset
      omega
    exact yields_region hlow hhigh h haddress hdata hend
  · intro encoding frameBase bs snapshot haddress h
    exact yields_pushed hlow hhigh haddress frameBase h snapshot
  · intro width htype
    subst htype
    obtain ⟨i, hvalue, hnumber⟩ := Value.exists_ofWord_signed width word
    rw [hvalue]
    exact ⟨i, rfl, hnumber, i.toUInt64, rfl, Bytes.toNat_toUInt64 i⟩
  · intro width htype
    subst htype
    obtain ⟨u, hvalue, hnumber⟩ := Value.exists_ofWord_unsigned width word
    rw [hvalue]
    refine ⟨u, rfl, hnumber, ?_, rfl⟩
    intro n
    rw [hnumber]
    constructor
    · intro h
      have hmod := Nat.mod_lt word.toNat (Nat.two_pow_pos bits)
      subst h
      exact ⟨Nat.mod_modEq _ _, hmod⟩
    · rintro ⟨hmod, hlt⟩
      rw [← Nat.mod_eq_of_lt hlt]
      exact hmod.symm

/-- A word of which two bytes are -2: in a register, at an address below zero whose region goes on
past the last address, and as a number. -/
theorem two_bytes_of_word_yield :
    ∃ value,
      (register ⟨3⟩).Yields ⟨Registers.empty.set ⟨3⟩ 0x1fffe, .fixed none⟩
        (.integer true .w16) value ∧
      (stack ⟨6⟩ (-8)).Yields ⟨Registers.empty.set ⟨6⟩ 4,
        .captured ⟨[⟨0xfffffffffffffffc, [0xfe, 0xff, 1, 0, 0, 0, 0, 0], none⟩]⟩⟩
        (.integer true .w16) value ∧
      (∃ location, ofBytes ⟨5, 8, .dwarf32⟩ none [0x10, 0xfe, 0xff, 0x07, 0x9f] = .ok location ∧
        location.Yields ⟨.empty, .fixed none⟩ (.integer true .w16) value) ∧
      ∃ i : Int64, value = .integer i ∧ i.toInt = -2 := by
  have hspelled : Leb128.Unsigned (0x1fffe : UInt64).toNat [0xfe, 0xff, 0x07] :=
    ⟨.more (by decide) (.more (by decide) (.last (by decide))), by decide, by decide, by decide⟩
  obtain ⟨value, hregister, hmemory, hpushed, hsigned, -⟩ :=
    value_same_in_every_storage (.integer true .w16) (by decide) (by decide) 0x1fffe
  obtain ⟨i, hvalue, hnumber, -⟩ := hsigned .w16 rfl
  refine ⟨value, hregister _ ⟨3⟩ rfl, ?_, ?_, i, hvalue, (hnumber (-2)).mpr (by decide)⟩
  · exact hmemory _ ⟨6⟩ 4 (-8) _ rfl (by decide) (by decide) (by decide)
  · exact hpushed ⟨5, 8, .dwarf32⟩ none _ _ rfl hspelled

end Location

end FrameLens
