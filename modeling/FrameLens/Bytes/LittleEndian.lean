/-!
Numbers as byte strings with the least significant byte first.
-/
namespace FrameLens.Bytes

/-- The number that a byte string spells, however long. -/
def toNat : List UInt8 → Nat
  | [] => 0
  | b :: rest => b.toNat + 256 * toNat rest

/-- The low `count` bytes of a number. -/
def ofNat : (count n : Nat) → List UInt8
  | 0, _ => []
  | count + 1, n => UInt8.ofNat n :: ofNat count (n / 256)

@[simp] theorem length_ofNat (count n : Nat) : (ofNat count n).length = count := by
  induction count generalizing n with
  | zero => rfl
  | succ count ih => simp [ofNat, ih]

/-- Bytes that are cut off take their part of the number with them, and nothing else. -/
theorem toNat_ofNat (count n : Nat) : toNat (ofNat count n) = n % Nat.pow 256 count := by
  induction count generalizing n with
  | zero => simp [ofNat, toNat, Nat.mod_one]
  | succ count ih =>
    have split : Nat.pow 256 (count + 1) = 256 * Nat.pow 256 count := by
      rw [Nat.mul_comm]; rfl
    have byte : (UInt8.ofNat n).toNat = n % 256 := by simp
    simp only [ofNat, toNat, ih, split, byte, Nat.mod_mul]

/-- The number in two's complement, its sign in the highest bit of the last byte. -/
def toInt (bytes : List UInt8) : Int := Int.bmod (toNat bytes) (Nat.pow 256 bytes.length)

/-- The low bytes of a word, all eight at most. -/
def ofWord (count : Nat) (word : UInt64) : List UInt8 := ofNat (min count 8) word.toNat

end FrameLens.Bytes
