import FrameLens.Bytes.Leb128
import Mathlib.Tactic.Positivity
import Mathlib.Tactic.Ring

/-!
Numbers in groups of seven bits, without their readers: which byte strings spell a number, and which
number it is. The readers take exactly such a byte string from the front of their input. A number
may have several spellings, as groups of zeros or of the sign can be added up to the tenth byte.
-/
namespace FrameLens.Leb128

/-- All bytes but the last have their high bit set. -/
inductive Delimited : List UInt8 → Prop
  | last {b : UInt8} (h : b.toNat < 128) : Delimited [b]
  | more {b : UInt8} {bs : List UInt8} (h : 128 ≤ b.toNat) (hs : Delimited bs) : Delimited (b :: bs)

/-- The number that the groups make, lowest first. -/
def value : List UInt8 → Nat
  | [] => 0
  | b :: rest => b.toNat % 128 + 128 * value rest

/-- The same groups in two's complement. -/
def signedValue (bs : List UInt8) : Int :=
  if 2 * value bs < 128 ^ bs.length then value bs else value bs - 128 ^ bs.length

structure Unsigned (n : Nat) (bs : List UInt8) : Prop where
  delimited : Delimited bs
  length_le : bs.length ≤ 10
  value_eq : value bs = n
  lt : n < 2 ^ 64

structure Signed (v : Int) (bs : List UInt8) : Prop where
  delimited : Delimited bs
  length_le : bs.length ≤ 10
  value_eq : signedValue bs = v
  le : -2 ^ 63 ≤ v
  lt : v < 2 ^ 63

theorem Delimited.length_pos {bs : List UInt8} (h : Delimited bs) : 0 < bs.length := by
  cases h <;> simp

theorem value_singleton {b : UInt8} (h : b.toNat < 128) : value [b] = b.toNat := by
  simp only [value]
  omega

theorem value_more {b : UInt8} (h : 128 ≤ b.toNat) (bs : List UInt8) :
    value (b :: bs) = b.toNat - 128 + 128 * value bs := by
  have hb := b.toNat_lt
  simp only [value]
  omega

/-- The limit on the last group is a limit on the number, whatever the number of groups. -/
theorem unsignedWithin_append {bs : List UInt8} (hd : Delimited bs) {groups : Nat}
    (hlen : bs.length ≤ groups + 1) (hlt : value bs < 2 * 128 ^ groups) (rest : List UInt8) :
    unsignedWithin groups (bs ++ rest) = .ok (value bs, rest) := by
  induction hd generalizing groups with
  | @last b h =>
    rw [value_singleton h] at hlt ⊢
    cases groups with
    | zero =>
      have hbit : b.toNat < 2 := by omega
      simp only [List.cons_append, List.nil_append, unsignedWithin, if_pos hbit]
    | succ groups => simp only [List.cons_append, List.nil_append, unsignedWithin, if_pos h]
  | @more b bs h hs ih =>
    have hpos := hs.length_pos
    rw [value_more h] at hlt ⊢
    cases groups with
    | zero =>
      simp only [List.length_cons] at hlen
      omega
    | succ groups =>
      rw [pow_succ] at hlt
      have hshort : bs.length ≤ groups + 1 := by simpa using hlen
      have hrest := ih hshort (by omega)
      have hmore : ¬ b.toNat < 128 := by omega
      simp only [List.cons_append, unsignedWithin, if_neg hmore, hrest]

theorem unsignedWithin_consumed {groups : Nat} {input rest : List UInt8} {n : Nat}
    (h : unsignedWithin groups input = .ok (n, rest)) :
    ∃ bs, input = bs ++ rest ∧ Delimited bs ∧ bs.length ≤ groups + 1 ∧ value bs = n ∧
      n < 2 * 128 ^ groups := by
  induction input generalizing groups n with
  | nil => cases groups <;> simp [unsignedWithin] at h
  | cons b tail ih =>
    cases groups with
    | zero =>
      simp only [unsignedWithin] at h
      split at h
      · next hb =>
        cases h
        have hlast : b.toNat < 128 := by omega
        exact ⟨[b], rfl, .last hlast, by simp, value_singleton hlast, by simpa using hb⟩
      · contradiction
    | succ groups =>
      have hpow : 0 < 128 ^ groups := by positivity
      simp only [unsignedWithin] at h
      split at h
      · next hb =>
        cases h
        refine ⟨[b], rfl, .last hb, by simp, value_singleton hb, ?_⟩
        rw [pow_succ]
        omega
      next hb =>
      split at h
      · next high left hread =>
        cases h
        obtain ⟨bs, rfl, hd, hlen, hvalue, hlt⟩ := ih hread
        have hmore : 128 ≤ b.toNat := by omega
        have hbyte := b.toNat_lt
        refine ⟨b :: bs, rfl, .more hmore hd, by simpa using hlen, ?_, ?_⟩
        · rw [value_more hmore, hvalue]
        · rw [pow_succ]
          omega
      · contradiction

theorem readUnsigned_eq_ok_iff (input rest : List UInt8) (n : Nat) :
    readUnsigned input = .ok (n, rest) ↔ ∃ bs, Unsigned n bs ∧ input = bs ++ rest := by
  have hlimit : 2 * 128 ^ fullGroups = 2 ^ 64 := by norm_num [fullGroups]
  constructor
  · intro h
    obtain ⟨bs, hinput, hd, hlen, hvalue, hlt⟩ := unsignedWithin_consumed h
    exact ⟨bs, ⟨hd, hlen, hvalue, hlimit ▸ hlt⟩, hinput⟩
  · rintro ⟨bs, ⟨hd, hlen, rfl, hlt⟩, rfl⟩
    exact unsignedWithin_append hd hlen (hlimit ▸ hlt) rest

theorem signedValue_singleton {b : UInt8} (h : b.toNat < 128) :
    signedValue [b] = signedGroup b := by
  unfold signedValue signedGroup
  rw [value_singleton h]
  simp only [List.length_singleton, pow_one]
  split_ifs <;> omega

/-- The sign is decided by the last group, so a group in front of it does not change it. -/
theorem signedValue_more {b : UInt8} (h : 128 ≤ b.toNat) {bs : List UInt8} (hs : Delimited bs) :
    signedValue (b :: bs) = b.toNat - 128 + 128 * signedValue bs := by
  have hbyte := b.toNat_lt
  obtain ⟨k, hk⟩ : ∃ k, bs.length = k + 1 := Nat.exists_eq_succ_of_ne_zero hs.length_pos.ne'
  have heven : (128 : Nat) ^ bs.length = 2 * (64 * 128 ^ k) := by
    rw [hk]
    ring
  have hcast : ((128 : Int) ^ bs.length) = ((128 ^ bs.length : Nat) : Int) := by push_cast; rfl
  unfold signedValue
  rw [value_more h, List.length_cons, pow_succ, pow_succ, hcast]
  split_ifs <;> omega

theorem signedWithin_append {bs : List UInt8} (hd : Delimited bs) {groups : Nat}
    (hlen : bs.length ≤ groups + 1) (hle : -128 ^ groups ≤ signedValue bs)
    (hlt : signedValue bs < 128 ^ groups) (rest : List UInt8) :
    signedWithin groups (bs ++ rest) = .ok (signedValue bs, rest) := by
  induction hd generalizing groups with
  | @last b h =>
    rw [signedValue_singleton h] at hle hlt ⊢
    cases groups with
    | zero =>
      have hsign : b.toNat = 0 ∨ b.toNat = 127 := by
        unfold signedGroup at hle hlt
        split at hle <;> omega
      simp only [List.cons_append, List.nil_append, signedWithin, if_pos hsign]
    | succ groups => simp only [List.cons_append, List.nil_append, signedWithin, if_pos h]
  | @more b bs h hs ih =>
    have hpos := hs.length_pos
    have hbyte := b.toNat_lt
    rw [signedValue_more h hs] at hle hlt ⊢
    cases groups with
    | zero =>
      simp only [List.length_cons] at hlen
      omega
    | succ groups =>
      rw [pow_succ] at hle hlt
      have hshort : bs.length ≤ groups + 1 := by simpa using hlen
      have hrest := ih hshort (by omega) (by omega)
      have hmore : ¬ b.toNat < 128 := by omega
      simp only [List.cons_append, signedWithin, if_neg hmore, hrest]

theorem signedWithin_consumed {groups : Nat} {input rest : List UInt8} {v : Int}
    (h : signedWithin groups input = .ok (v, rest)) :
    ∃ bs, input = bs ++ rest ∧ Delimited bs ∧ bs.length ≤ groups + 1 ∧ signedValue bs = v ∧
      -128 ^ groups ≤ v ∧ v < 128 ^ groups := by
  induction input generalizing groups v with
  | nil => cases groups <;> simp [signedWithin] at h
  | cons b tail ih =>
    cases groups with
    | zero =>
      simp only [signedWithin] at h
      split at h
      · next hb =>
        cases h
        have hlast : b.toNat < 128 := by omega
        refine ⟨[b], rfl, .last hlast, by simp, signedValue_singleton hlast, ?_⟩
        rw [pow_zero]
        unfold signedGroup
        split <;> omega
      · contradiction
    | succ groups =>
      have hpow : (0 : Int) < 128 ^ groups := by positivity
      simp only [signedWithin] at h
      split at h
      · next hb =>
        cases h
        refine ⟨[b], rfl, .last hb, by simp, signedValue_singleton hb, ?_⟩
        rw [pow_succ]
        unfold signedGroup
        split <;> omega
      next hb =>
      split at h
      · next high left hread =>
        cases h
        obtain ⟨bs, rfl, hd, hlen, hvalue, hle, hlt⟩ := ih hread
        have hmore : 128 ≤ b.toNat := by omega
        have hbyte := b.toNat_lt
        refine ⟨b :: bs, rfl, .more hmore hd, by simpa using hlen, ?_, ?_⟩
        · rw [signedValue_more hmore hd, hvalue]
        · rw [pow_succ]
          omega
      · contradiction

theorem readSigned_eq_ok_iff (input rest : List UInt8) (v : Int) :
    readSigned input = .ok (v, rest) ↔ ∃ bs, Signed v bs ∧ input = bs ++ rest := by
  have hlimit : (128 : Int) ^ fullGroups = 2 ^ 63 := by norm_num [fullGroups]
  constructor
  · intro h
    obtain ⟨bs, hinput, hd, hlen, hvalue, hle, hlt⟩ := signedWithin_consumed h
    rw [hlimit] at hle hlt
    exact ⟨bs, ⟨hd, hlen, hvalue, hle, hlt⟩, hinput⟩
  · rintro ⟨bs, ⟨hd, hlen, rfl, hle, hlt⟩, rfl⟩
    rw [← hlimit] at hle hlt
    exact signedWithin_append hd hlen hle hlt rest

end FrameLens.Leb128
