import FrameLens.Bytes.LittleEndian
import Mathlib.Data.Int.ModEq

/-!
Byte strings as numbers, lowest byte first. Bytes that are cut off a number leave its residue; read
in two's complement they are the one number of that residue between the two halves of the range.
-/
namespace FrameLens.Bytes

theorem eq_of_toNat_eq {a b : List UInt8} (hlen : a.length = b.length) (h : toNat a = toNat b) :
    a = b := by
  induction a generalizing b with
  | nil => exact (List.length_eq_zero_iff.mp hlen.symm).symm
  | cons x a ih =>
    cases b with
    | nil => contradiction
    | cons y b =>
      have hx := x.toNat_lt
      have hy := y.toNat_lt
      simp only [toNat] at h
      have hhead : x = y := UInt8.toNat_inj.mp (by omega)
      have htail : a = b := ih (Nat.succ.inj hlen) (by omega)
      rw [hhead, htail]

theorem toNat_ofInt (v : Int) : ((UInt64.ofInt v).toNat : Int) = v % 2 ^ 64 := by
  have hnonneg := Int.emod_nonneg v (show (2 ^ 64 : Int) ≠ 0 by decide)
  have hlt := Int.emod_lt_of_pos v (show (0 : Int) < 2 ^ 64 by decide)
  have hword : (v % 2 ^ 64).toNat < UInt64.size := by
    show (v % 2 ^ 64).toNat < 2 ^ 64
    omega
  rw [UInt64.ofInt, UInt64.toNat_ofNat_of_lt' hword, Int.toNat_of_nonneg hnonneg]

theorem ofInt_natCast (n : Nat) : UInt64.ofInt n = UInt64.ofNat n := by
  apply UInt64.toNat_inj.mp
  have h := toNat_ofInt n
  rw [UInt64.toNat_ofNat']
  omega

/-- The low bytes of a word are fixed by their number and by what they leave of its value. -/
theorem eq_ofWord_iff (count : Nat) (v : Int) (c : List UInt8) :
    c = ofWord count (UInt64.ofInt v) ↔
      c.length = min count 8 ∧ (toNat c : Int) = v % 2 ^ 64 % 256 ^ c.length := by
  have hvalue : (toNat (ofWord count (UInt64.ofInt v)) : Int) = v % 2 ^ 64 % 256 ^ min count 8 := by
    rw [ofWord, toNat_ofNat, Nat.pow_eq, Int.natCast_emod, toNat_ofInt]
    norm_cast
  have hlength : (ofWord count (UInt64.ofInt v)).length = min count 8 := length_ofNat _ _
  constructor
  · rintro rfl
    rw [hlength]
    exact ⟨rfl, hvalue⟩
  · rintro ⟨hlen, hc⟩
    rw [hlen, ← hvalue] at hc
    exact eq_of_toNat_eq (hlen.trans hlength.symm) (Int.ofNat_inj.mp hc)

theorem toNat_toUInt64 (v : Int64) : (v.toUInt64.toNat : Int) = v.toInt % 2 ^ 64 := by
  have hresidue : v.toInt % 2 ^ 64 = (v.toUInt64.toNat : Int) % 2 ^ 64 := by
    show v.toBitVec.toInt % 2 ^ 64 = _
    rw [BitVec.toInt_eq_toNat_bmod]
    exact Int.bmod_emod
  have hlt := v.toUInt64.toNat_lt
  omega

/-- An offset is added to an address modulo the size of the address space. -/
theorem toNat_add_toUInt64 (word : UInt64) (offset : Int64) :
    ((word + offset.toUInt64).toNat : Int) = (word.toNat + offset.toInt) % 2 ^ 64 := by
  have hoffset := toNat_toUInt64 offset
  rw [UInt64.toNat_add]
  omega

theorem take_ofNat {k count : Nat} (h : k ≤ count) (n : Nat) :
    (ofNat count n).take k = ofNat k n := by
  induction k generalizing count n with
  | zero => simp [ofNat]
  | succ k ih =>
    cases count with
    | zero => omega
    | succ count => simp only [ofNat, List.take_succ_cons, ih (Nat.le_of_succ_le_succ h)]

theorem pow_eq (count : Nat) : Nat.pow 256 count = 2 ^ (8 * count) := by
  rw [pow_mul]
  rfl

theorem toInt_ofNat (count n : Nat) : toInt (ofNat count n) = Int.bmod n (2 ^ (8 * count)) := by
  rw [toInt, length_ofNat, toNat_ofNat, pow_eq, Int.natCast_emod, Int.emod_bmod]

/-- The one number with the residue of `n` that has its sign in the highest of the bytes. -/
theorem toInt_ofNat_eq_iff {count : Nat} (hpos : 0 < count) (n : Nat) (v : Int) :
    toInt (ofNat count n) = v ↔
      v ≡ n [ZMOD 2 ^ (8 * count)] ∧ -2 ^ (8 * count - 1) ≤ v ∧ v < 2 ^ (8 * count - 1) := by
  have heven : 2 ^ (8 * count) = 2 * 2 ^ (8 * count - 1) := by
    rw [← pow_succ']
    congr 1
    omega
  have hhalf : 0 < 2 ^ (8 * count - 1) := Nat.two_pow_pos _
  have hcast : ((2 ^ (8 * count - 1) : Nat) : Int) = 2 ^ (8 * count - 1) := by norm_cast
  have hmodulus : (2 : Int) ^ (8 * count) = ((2 * 2 ^ (8 * count - 1) : Nat) : Int) := by
    rw [← heven]
    norm_cast
  rw [toInt_ofNat, heven, Int.bmod_eq_iff (by omega), Int.modEq_comm, Int.modEq_iff_dvd, hmodulus,
    ← hcast]
  constructor
  · rintro ⟨hlow, hhigh, hdvd⟩
    exact ⟨hdvd, by omega, by omega⟩
  · rintro ⟨hdvd, hlow, hhigh⟩
    exact ⟨by omega, by omega, hdvd⟩

/-- Up to eight bytes spell a number that fits into a word. -/
theorem toInt_ofInt_toInt {bytes : List UInt8} (h : bytes.length ≤ 8) :
    (Int64.ofInt (toInt bytes)).toInt = toInt bytes := by
  have hpos : 0 < Nat.pow 256 bytes.length := Nat.pow_pos (by decide)
  have hle : Nat.pow 256 bytes.length ≤ 2 ^ 64 :=
    Nat.pow_le_pow_right (n := 256) (by decide) h
  have hmin := Int.le_bmod (x := toNat bytes) hpos
  have hmax := Int.bmod_lt (x := toNat bytes) hpos
  unfold toInt
  apply Int64.toInt_ofInt_of_le <;> omega

/-- The number that four bytes spell in two's complement, lowest first. -/
def signed32 (a b c d : UInt8) : Int :=
  let n : Nat := a.toNat + 2 ^ 8 * b.toNat + 2 ^ 16 * c.toNat + 2 ^ 24 * d.toNat
  if n < 2 ^ 31 then n else n - 2 ^ 32

theorem toInt_four (a b c d : UInt8) : toInt [a, b, c, d] = signed32 a b c d := by
  have ha := a.toNat_lt
  have hb := b.toNat_lt
  have hc := c.toNat_lt
  have hd := d.toNat_lt
  have hmodulus : Nat.pow 256 [a, b, c, d].length = 2 ^ 32 := pow_eq 4
  rw [toInt, hmodulus, Int.bmod]
  simp only [toNat, signed32]
  push_cast
  split <;> split <;> omega

/-- The number in the four bytes from an index on. -/
def numberAt (bytes : List UInt8) (index : Nat) : Int :=
  let byte (i : Nat) : UInt8 := (bytes[index + i]?).getD 0
  signed32 (byte 0) (byte 1) (byte 2) (byte 3)

theorem toInt_eq_numberAt {bytes : List UInt8} {index : Nat} (h : index + 4 ≤ bytes.length) :
    toInt ((bytes.drop index).take 4) = numberAt bytes index := by
  have hbytes : (bytes.drop index).take 4 =
      [bytes[index + 0], bytes[index + 1], bytes[index + 2], bytes[index + 3]] := by
    rw [List.drop_eq_getElem_cons (by omega), List.drop_eq_getElem_cons (by omega),
      List.drop_eq_getElem_cons (by omega), List.drop_eq_getElem_cons (by omega)]
    rfl
  have hget (i : Nat) (hi : i < 4) : bytes[index + i] = (bytes[index + i]?).getD 0 := by
    rw [List.getElem?_eq_getElem (by omega), Option.getD_some]
  rw [hbytes, toInt_four, hget 0 (by decide), hget 1 (by decide), hget 2 (by decide),
    hget 3 (by decide)]
  rfl

end FrameLens.Bytes
