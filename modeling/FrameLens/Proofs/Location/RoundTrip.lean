import FrameLens.Proofs.Location.Forms

/-!
Locations written as bytes. Numbers are written in as few groups as they need, which is a spelling
that the readers take; so a location that was written is read as it was, whatever the unit and the
frame base. The short spellings of small registers and of the frame base are read like the long one.
-/
namespace FrameLens

namespace Leb128

/-- The shortest spelling of a number. -/
def writeUnsigned (n : Nat) : List UInt8 :=
  if n < 128 then [UInt8.ofNat n]
  else UInt8.ofNat (n % 128 + 128) :: writeUnsigned (n / 128)

/-- The shortest spelling in two's complement, where the last group has to show the sign. -/
def writeSigned (v : Int) : List UInt8 :=
  if -64 ≤ v ∧ v < 64 then [UInt8.ofNat (v % 128).toNat]
  else UInt8.ofNat ((v % 128).toNat + 128) :: writeSigned (v / 128)
termination_by v.natAbs
decreasing_by omega

theorem toNat_last {n : Nat} (h : n < 128) : (UInt8.ofNat n).toNat = n :=
  UInt8.toNat_ofNat_of_lt' (show n < 256 by omega)

theorem toNat_more {n : Nat} (h : n < 128) : (UInt8.ofNat (n + 128)).toNat = n + 128 :=
  UInt8.toNat_ofNat_of_lt' (show n + 128 < 256 by omega)

theorem delimited_writeUnsigned (n : Nat) : Delimited (writeUnsigned n) := by
  fun_induction writeUnsigned n with
  | case1 n h =>
    apply Delimited.last
    rw [toNat_last h]
    exact h
  | case2 n h ih =>
    have hgroup : n % 128 < 128 := Nat.mod_lt n (by omega)
    apply Delimited.more _ ih
    rw [toNat_more hgroup]
    omega

theorem value_writeUnsigned (n : Nat) : value (writeUnsigned n) = n := by
  fun_induction writeUnsigned n with
  | case1 n h => rw [value_singleton (by rwa [toNat_last h]), toNat_last h]
  | case2 n h ih =>
    have hgroup : n % 128 < 128 := Nat.mod_lt n (by omega)
    have hbyte := toNat_more hgroup
    rw [value_more (by omega), ih, hbyte]
    omega

theorem length_writeUnsigned_le {n k : Nat} (h : n < 128 ^ (k + 1)) :
    (writeUnsigned n).length ≤ k + 1 := by
  induction k generalizing n with
  | zero =>
    have hlast : n < 128 := by simpa using h
    rw [writeUnsigned, if_pos hlast]
    simp
  | succ k ih =>
    rw [writeUnsigned]
    split
    · simp
    · rw [pow_succ] at h
      have hrest := ih (n := n / 128) (by omega)
      simpa using hrest

theorem unsigned_writeUnsigned {n : Nat} (h : n < 2 ^ 64) : Unsigned n (writeUnsigned n) := by
  have hten : n < 128 ^ (9 + 1) := by omega
  exact ⟨delimited_writeUnsigned n, length_writeUnsigned_le hten, value_writeUnsigned n, h⟩

example : writeUnsigned 624485 = [0xe5, 0x8e, 0x26] := by decide +kernel

theorem delimited_writeSigned (v : Int) : Delimited (writeSigned v) := by
  fun_induction writeSigned v with
  | case1 v h =>
    have hgroup : (v % 128).toNat < 128 := by omega
    apply Delimited.last
    rw [toNat_last hgroup]
    exact hgroup
  | case2 v h ih =>
    have hgroup : (v % 128).toNat < 128 := by omega
    apply Delimited.more _ ih
    rw [toNat_more hgroup]
    omega

theorem signedValue_writeSigned (v : Int) : signedValue (writeSigned v) = v := by
  fun_induction writeSigned v with
  | case1 v h =>
    have hgroup : (v % 128).toNat < 128 := by omega
    have hbyte := toNat_last hgroup
    rw [signedValue_singleton (by omega)]
    unfold signedGroup
    split <;> omega
  | case2 v h ih =>
    have hgroup : (v % 128).toNat < 128 := by omega
    have hbyte := toNat_more hgroup
    rw [signedValue_more (by omega) (delimited_writeSigned _), ih]
    omega

theorem length_writeSigned_le {v : Int} {k : Nat} (hle : -(64 * 128 ^ k) ≤ v)
    (hlt : v < 64 * 128 ^ k) : (writeSigned v).length ≤ k + 1 := by
  induction k generalizing v with
  | zero =>
    have hlast : -64 ≤ v ∧ v < 64 := by omega
    rw [writeSigned, if_pos hlast]
    simp
  | succ k ih =>
    rw [writeSigned]
    split
    · simp
    · rw [pow_succ] at hle hlt
      have hrest := ih (v := v / 128) (by omega) (by omega)
      simpa using hrest

theorem signed_writeSigned {v : Int} (hle : -2 ^ 63 ≤ v) (hlt : v < 2 ^ 63) :
    Signed v (writeSigned v) := by
  have hten : (writeSigned v).length ≤ 9 + 1 :=
    length_writeSigned_le (by omega) (by omega)
  exact ⟨delimited_writeSigned v, hten, signedValue_writeSigned v, hle, hlt⟩

example : writeSigned (-123456) = [0xc0, 0xbb, 0x78] := by decide +kernel

end Leb128

theorem Register.unsigned_number (r : Register) :
    Leb128.Unsigned r.number.toNat (Leb128.writeUnsigned r.number.toNat) := by
  have hword := r.number.toNat_lt
  exact Leb128.unsigned_writeUnsigned (by omega)

theorem signed_offset (offset : Int64) :
    Leb128.Signed offset.toInt (Leb128.writeSigned offset.toInt) :=
  Leb128.signed_writeSigned offset.le_toInt offset.toInt_lt

namespace Location
open Operation

/-- The bytes of a location: one operation, and none for a value that is nowhere. -/
def encode : Location → List UInt8
  | register r => 0x90 :: Leb128.writeUnsigned r.number.toNat
  | stack base offset =>
    0x92 :: (Leb128.writeUnsigned base.number.toNat ++ Leb128.writeSigned offset.toInt)
  | constant data => 0x9e :: (Leb128.writeUnsigned data.length ++ data)
  | unavailable => []

/-- A length in front of the data is a word, and a number on the stack makes eight bytes at most. -/
theorem IsConstant.length_lt {encoding : Encoding} {data bytes : List UInt8}
    (h : IsConstant encoding data bytes) : data.length < 2 ^ 64 := by
  cases h with
  | block h => exact h.lt
  | value h hlen => omega

section
variable (encoding : Encoding) (frameBase : Option Register)

theorem ofBytes_encode_register (r : Register) :
    ofBytes encoding frameBase (register r).encode = .ok (register r) :=
  ofBytes_eq_register_iff.mpr (.long r.unsigned_number)

theorem ofBytes_encode_stack (base : Register) (offset : Int64) :
    ofBytes encoding frameBase (stack base offset).encode = .ok (stack base offset) :=
  ofBytes_eq_stack_iff.mpr
    (.inl (.register (.long base.unsigned_number (signed_offset offset))))

theorem ofBytes_encode_constant_iff (data : List UInt8) :
    ofBytes encoding frameBase (constant data).encode = .ok (constant data) ↔
      data.length < 2 ^ 64 := by
  rw [ofBytes_eq_constant_iff]
  constructor
  · exact IsConstant.length_lt
  · intro h
    exact .block (Leb128.unsigned_writeUnsigned h)

theorem ofBytes_encode_iff (location : Location) :
    ofBytes encoding frameBase location.encode = .ok location ↔
      ∀ data, location = constant data → data.length < 2 ^ 64 := by
  cases location with
  | register r => simp [ofBytes_encode_register]
  | stack base offset => simp [ofBytes_encode_stack]
  | constant data => simp [ofBytes_encode_constant_iff]
  | unavailable =>
    have hnothing : ofBytes encoding frameBase unavailable.encode = .ok unavailable :=
      ofBytes_of_gives ⟨[], List.Forall₂.nil, rfl⟩ .nothing
    simp [hnothing]

end

/-- Every location is read back from its bytes, in any unit and with any frame base; for a constant,
exactly if a word can hold the length of its data. An opcode that holds the register, and one that
stands for the frame base, are read like the one with the register behind it. -/
theorem ofBytes_encode_exact (encoding : Encoding) (frameBase : Option Register) :
    (∀ location : Location, ofBytes encoding frameBase location.encode = .ok location ↔
      ∀ data, location = constant data → data.length < 2 ^ 64) ∧
    (∀ r : Register, r.number.toNat < 32 →
      ofBytes encoding frameBase [UInt8.ofNat (0x50 + r.number.toNat)] =
        ofBytes encoding frameBase (0x90 :: Leb128.writeUnsigned r.number.toNat)) ∧
    (∀ (r : Register) (offset : Int64), r.number.toNat < 32 →
      ofBytes encoding frameBase
          (UInt8.ofNat (0x70 + r.number.toNat) :: Leb128.writeSigned offset.toInt) =
        ofBytes encoding frameBase
          (0x92 :: (Leb128.writeUnsigned r.number.toNat ++ Leb128.writeSigned offset.toInt))) ∧
    ∀ (r : Register) (offset : Int64),
      ofBytes encoding (some r) (0x91 :: Leb128.writeSigned offset.toInt) =
        ofBytes encoding frameBase
          (0x92 :: (Leb128.writeUnsigned r.number.toNat ++ Leb128.writeSigned offset.toInt)) := by
  refine ⟨ofBytes_encode_iff encoding frameBase, ?_, ?_, ?_⟩
  · intro r hr
    have hshort : ofBytes encoding frameBase _ = .ok (register r) :=
      ofBytes_eq_register_iff.mpr (.short hr)
    exact hshort.trans (ofBytes_encode_register encoding frameBase r).symm
  · intro r offset hr
    have hshort : ofBytes encoding frameBase _ = .ok (stack r offset) :=
      ofBytes_eq_stack_iff.mpr (.inl (.register (.short hr (signed_offset offset))))
    exact hshort.trans (ofBytes_encode_stack encoding frameBase r offset).symm
  · intro r offset
    have hframe : ofBytes encoding (some r) _ = .ok (stack r offset) :=
      ofBytes_eq_stack_iff.mpr (.inl (.frame rfl (signed_offset offset)))
    exact hframe.trans (ofBytes_encode_stack encoding frameBase r offset).symm

/-- The lowest offset, which takes ten groups, from the last register and from one that has a short
spelling. -/
theorem lowest_offset_read_back :
    (stack ⟨0xffff⟩ Int64.minValue).encode = [0x92, 0xff, 0xff, 0x03, 0x80, 0x80, 0x80, 0x80, 0x80,
      0x80, 0x80, 0x80, 0x80, 0x7f] ∧
    ofBytes ⟨5, 8, .dwarf32⟩ none (stack ⟨0xffff⟩ Int64.minValue).encode =
      .ok (stack ⟨0xffff⟩ Int64.minValue) ∧
    ofBytes ⟨5, 8, .dwarf32⟩ none [0x6f] =
      ofBytes ⟨5, 8, .dwarf32⟩ none (0x90 :: Leb128.writeUnsigned 31) ∧
    ofBytes ⟨5, 8, .dwarf32⟩ none (0x8f :: Leb128.writeSigned Int64.minValue.toInt) =
      ofBytes ⟨5, 8, .dwarf32⟩ none
        (0x92 :: (Leb128.writeUnsigned 31 ++ Leb128.writeSigned Int64.minValue.toInt)) := by
  obtain ⟨hback, hregister, hoffset, -⟩ := ofBytes_encode_exact ⟨5, 8, .dwarf32⟩ none
  refine ⟨by decide +kernel, (hback _).mpr (by simp), hregister ⟨31⟩ (by decide), ?_⟩
  exact hoffset ⟨31⟩ Int64.minValue (by decide)

end Location

end FrameLens
