import FrameLens.Proofs.Bytes.LittleEndian
import FrameLens.Variable.Value

/-!
Bytes read as values. A built-in type with a reading of its own has one to eight bytes, and as many
bytes always make a value of it; for an integer type, the number that they spell.
-/
namespace FrameLens

theorem Width.size_bounds (width : Width) : 1 ≤ width.size.toNat ∧ width.size.toNat ≤ 8 := by
  cases width <;> decide

namespace CType

/-- The types that have a reading of their own. -/
def isScalar : CType → Bool
  | void | named _ _ => false
  | _ => true

theorem size_of_isScalar {type : CType} (h : type.isScalar) :
    1 ≤ type.size.toNat ∧ type.size.toNat ≤ 8 := by
  cases type with
  | void | named => contradiction
  | integer signed width => exact width.size_bounds
  | single | double | bool | char => decide
  | pointer target =>
    show 1 ≤ (8 : UInt64).toNat ∧ (8 : UInt64).toNat ≤ 8
    decide

end CType

namespace Value

/-- The values that belong to a type. -/
inductive OfType : CType → Value → Prop
  | signed (width : Width) (value : Int64) : OfType (.integer true width) (integer value)
  | unsigned (width : Width) (value : UInt64) : OfType (.integer false width) (unsigned value)
  | single (value : Binary64) : OfType .single (float value)
  | double (value : Binary64) : OfType .double (float value)
  | bool (value : Bool) : OfType .bool (bool value)
  | char (value : Char) : OfType .char (char value)
  | pointer (target : CType) (address : UInt64) : OfType (.pointer target) (pointer address)

theorem ofType_ofBytes {type : CType} (h : type.isScalar) (raw : List UInt8) :
    OfType type (ofBytes type raw) := by
  cases type with
  | void | named => contradiction
  | integer signed width =>
    cases signed with
    | true => exact .signed width _
    | false => exact .unsigned width _
  | single => exact .single _
  | double => exact .double _
  | bool => exact .bool _
  | char => exact .char _
  | pointer target => exact .pointer target _

/-- The value of a type in the low bytes of a word. -/
def ofWord (type : CType) (word : UInt64) : Value :=
  ofBytes type (Bytes.ofNat type.size.toNat word.toNat)

section
variable {type : CType} (hlow : 1 ≤ type.size.toNat) (hhigh : type.size.toNat ≤ 8)
include hlow hhigh

theorem decode_bytes {raw : List UInt8} (hraw : type.size.toNat ≤ raw.length)
    (address : Option UInt64) :
    decode type (.bytes raw address) = ofBytes type (raw.take type.size.toNat) := by
  have hread : ¬ (type.size.toNat = 0 ∨ 8 < type.size.toNat ∨ raw.length < type.size.toNat) := by
    omega
  rw [decode, if_neg hread]

/-- Bytes behind those of the type make no difference. -/
theorem decode_word {word : UInt64} {raw : List UInt8}
    (h : Bytes.ofNat type.size.toNat word.toNat <+: raw) (address : Option UInt64) :
    decode type (.bytes raw address) = ofWord type word := by
  have hlen := h.length_le
  have htake := List.prefix_iff_eq_take.mp h
  rw [Bytes.length_ofNat] at hlen htake
  rw [decode_bytes hlow hhigh hlen, ← htake]
  rfl

end

/-- As a signed integer, the one number of the type that leaves the residue of the word. -/
theorem exists_ofWord_signed (width : Width) (word : UInt64) :
    ∃ i : Int64, ofWord (.integer true width) word = integer i ∧
      ∀ n : Int, i.toInt = n ↔ n ≡ word.toNat [ZMOD 2 ^ (8 * width.size.toNat)] ∧
        -2 ^ (8 * width.size.toNat - 1) ≤ n ∧ n < 2 ^ (8 * width.size.toNat - 1) := by
  obtain ⟨hlow, hhigh⟩ := width.size_bounds
  have hlen : (Bytes.ofNat width.size.toNat word.toNat).length ≤ 8 := by
    rwa [Bytes.length_ofNat]
  refine ⟨_, rfl, ?_⟩
  intro n
  show (Int64.ofInt (Bytes.toInt (Bytes.ofNat width.size.toNat word.toNat))).toInt = n ↔ _
  rw [Bytes.toInt_ofInt_toInt hlen, Bytes.toInt_ofNat_eq_iff hlow]

theorem exists_ofWord_unsigned (width : Width) (word : UInt64) :
    ∃ u : UInt64, ofWord (.integer false width) word = unsigned u ∧
      u.toNat = word.toNat % 2 ^ (8 * width.size.toNat) := by
  refine ⟨_, rfl, ?_⟩
  have hlt := Nat.lt_of_le_of_lt (Nat.mod_le word.toNat (2 ^ (8 * width.size.toNat))) word.toNat_lt
  show (UInt64.ofNat (Bytes.toNat (Bytes.ofNat width.size.toNat word.toNat))).toNat = _
  rw [Bytes.toNat_ofNat, Bytes.pow_eq, UInt64.toNat_ofNat_of_lt' hlt]

theorem text_signed {bytes : List UInt8} (h : bytes.length ≤ 8) (width : Width) :
    (ofBytes (.integer true width) bytes).text = toString (Bytes.toInt bytes) := by
  show toString (Int64.ofInt (Bytes.toInt bytes)).toInt = _
  rw [Bytes.toInt_ofInt_toInt h]

theorem text_pointer (target : CType) (word : UInt64) :
    (ofWord (.pointer target) word).text = "0x" ++ Text.hexPadded 16 word.toNat := by
  have hword : UInt64.ofNat (Bytes.toNat (Bytes.ofNat 8 word.toNat)) = word := by
    rw [Bytes.toNat_ofNat, Nat.mod_eq_of_lt word.toNat_lt, UInt64.ofNat_toNat]
  show "0x" ++ Text.hexPadded 16
    (UInt64.ofNat (Bytes.toNat (Bytes.ofNat 8 word.toNat))).toNat = _
  rw [hword]

end Value

end FrameLens
