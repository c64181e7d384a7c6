/-!
Numbers in groups of seven bits, lowest group first, where every byte but the last has its high bit
set. A number has 64 bits at most, so a tenth byte can only complete it.
-/
namespace FrameLens.Leb128

/-- Why no number could be read. -/
inductive Error where
  | endOfInput
  | tooLarge
  deriving DecidableEq, Repr

/-- Groups that may come before the one that completes 64 bits. -/
def fullGroups : Nat := 9

/-- Reads an unsigned number of which `groups` full groups may come before the last possible one;
that one holds a single bit. -/
def unsignedWithin : (groups : Nat) → List UInt8 → Except Error (Nat × List UInt8)
  | _, [] => .error .endOfInput
  | 0, b :: rest => if b.toNat < 2 then .ok (b.toNat, rest) else .error .tooLarge
  | groups + 1, b :: rest =>
    if b.toNat < 128 then .ok (b.toNat, rest)
    else
      match unsignedWithin groups rest with
      | .ok (high, left) => .ok (b.toNat - 128 + 128 * high, left)
      | .error e => .error e

/-- The unsigned number at the start of the bytes, and the bytes after it. -/
def readUnsigned (bytes : List UInt8) : Except Error (Nat × List UInt8) :=
  unsignedWithin fullGroups bytes

/-- A last group, whose highest bit is the sign. -/
def signedGroup (b : UInt8) : Int := if b.toNat < 64 then b.toNat else b.toNat - 128

/-- Reads a signed number; a group that completes 64 bits has all bits equal to the sign. -/
def signedWithin : (groups : Nat) → List UInt8 → Except Error (Int × List UInt8)
  | _, [] => .error .endOfInput
  | 0, b :: rest =>
    if b.toNat = 0 ∨ b.toNat = 127 then .ok (signedGroup b, rest) else .error .tooLarge
  | groups + 1, b :: rest =>
    if b.toNat < 128 then .ok (signedGroup b, rest)
    else
      match signedWithin groups rest with
      | .ok (high, left) => .ok (b.toNat - 128 + 128 * high, left)
      | .error e => .error e

/-- The signed number at the start of the bytes, and the bytes after it. -/
def readSigned (bytes : List UInt8) : Except Error (Int × List UInt8) :=
  signedWithin fullGroups bytes

theorem unsignedWithin_length {groups : Nat} {bytes rest : List UInt8} {n : Nat}
    (read : unsignedWithin groups bytes = .ok (n, rest)) : rest.length < bytes.length := by
  induction bytes generalizing groups n with
  | nil => cases groups <;> simp [unsignedWithin] at read
  | cons b tail ih =>
    cases groups with
    | zero =>
      simp only [unsignedWithin] at read
      split at read
      · cases read; simp
      · cases read
    | succ groups =>
      simp only [unsignedWithin] at read
      split at read
      · cases read; simp
      · split at read
        · next high left more =>
          cases read
          exact Nat.lt_succ_of_lt (ih more)
        · cases read

theorem signedWithin_length {groups : Nat} {bytes rest : List UInt8} {n : Int}
    (read : signedWithin groups bytes = .ok (n, rest)) : rest.length < bytes.length := by
  induction bytes generalizing groups n with
  | nil => cases groups <;> simp [signedWithin] at read
  | cons b tail ih =>
    cases groups with
    | zero =>
      simp only [signedWithin] at read
      split at read
      · cases read; simp
      · cases read
    | succ groups =>
      simp only [signedWithin] at read
      split at read
      · cases read; simp
      · split at read
        · next high left more =>
          cases read
          exact Nat.lt_succ_of_lt (ih more)
        · cases read

end FrameLens.Leb128
