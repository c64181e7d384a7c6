import FrameLens.Location.Extent
import FrameLens.Proofs.Bytes.Leb128
import Mathlib.Data.List.Forall2

/-!
Readers and the byte strings that they stand for. A reader takes from the front of its input a byte
string that spells its result, and every such byte string whatever stands behind it; readers that
are put one after the other take the one spelling and then the other.
-/
namespace FrameLens

namespace Reader

/-- The reader takes a byte string that spells its result from the front, and any that does. -/
def Reads {α : Type} (reader : Reader α) (spells : α → List UInt8 → Prop) : Prop :=
  ∀ input a rest, reader input = .ok (a, rest) ↔ ∃ bs, spells a bs ∧ input = bs ++ rest

section
variable {α β : Type} {reader : Reader α} {spells : α → List UInt8 → Prop}

theorem Reads.congr (h : Reads reader spells) {others : α → List UInt8 → Prop}
    (hs : ∀ a bs, spells a bs ↔ others a bs) : Reads reader others := by
  intro input a rest
  simp only [h input a rest, hs]

theorem Reads.pure (a : α) : Reads (Pure.pure a) fun b bs => b = a ∧ bs = [] := by
  intro input b rest
  change (Except.ok (a, input) : Except DecodeError _) = .ok (b, rest) ↔ _
  constructor
  · rintro ⟨⟩
    exact ⟨[], ⟨rfl, rfl⟩, rfl⟩
  · rintro ⟨_, ⟨rfl, rfl⟩, rfl⟩
    rfl

theorem Reads.fail (e : DecodeError) : Reads (Reader.fail e : Reader α) fun _ _ => False := by
  intro input a rest
  constructor
  · rintro ⟨⟩
  · rintro ⟨_, h, -⟩
    exact h.elim

theorem Reads.bind (h : Reads reader spells) {next : α → Reader β}
    {after : α → β → List UInt8 → Prop} (hn : ∀ a, Reads (next a) (after a)) :
    Reads (reader >>= next) fun b bs =>
      ∃ a front back, spells a front ∧ after a b back ∧ bs = front ++ back := by
  intro input b rest
  change (reader input >>= fun r => next r.1 r.2) = .ok (b, rest) ↔ _
  constructor
  · intro hread
    cases hfirst : reader input with
    | error e => rw [hfirst] at hread; cases hread
    | ok r =>
      rw [hfirst] at hread
      obtain ⟨front, hfront, rfl⟩ := (h _ r.1 r.2).mp hfirst
      obtain ⟨back, hback, hrest⟩ := (hn r.1 _ b rest).mp hread
      exact ⟨front ++ back, ⟨r.1, front, back, hfront, hback, rfl⟩, by
        rw [hrest, List.append_assoc]⟩
  · rintro ⟨_, ⟨a, front, back, hfront, hback, rfl⟩, rfl⟩
    have hfirst := (h (front ++ (back ++ rest)) a (back ++ rest)).mpr ⟨front, hfront, rfl⟩
    rw [List.append_assoc, hfirst]
    exact (hn a (back ++ rest) b rest).mpr ⟨back, hback, rfl⟩

theorem Reads.map (h : Reads reader spells) (f : α → β) :
    Reads (do return f (← reader)) fun b bs => ∃ a, spells a bs ∧ b = f a := by
  apply (h.bind fun a => Reads.pure (f a)).congr
  intro b bs
  constructor
  · rintro ⟨a, front, back, hfront, ⟨rfl, rfl⟩, rfl⟩
    exact ⟨a, by rwa [List.append_nil], rfl⟩
  · rintro ⟨a, hs, rfl⟩
    exact ⟨a, bs, [], hs, ⟨rfl, rfl⟩, (List.append_nil bs).symm⟩

end

theorem reads_bytes (count : Nat) :
    Reads (bytes count) fun data bs => bs.length = count ∧ data = bs := by
  intro input data rest
  unfold bytes
  constructor
  · intro h
    split at h
    · next hcount =>
      cases h
      exact ⟨input.take count, ⟨by simpa using hcount, rfl⟩, (List.take_append_drop _ _).symm⟩
    · contradiction
  · rintro ⟨bs, ⟨rfl, rfl⟩, rfl⟩
    simp

theorem reads_map_bytes {α : Type} (f : List UInt8 → α) (count : Nat) :
    Reads (f <$> bytes count) fun a bs => bs.length = count ∧ a = f bs := by
  apply ((reads_bytes count).map f).congr
  intro a bs
  constructor
  · rintro ⟨_, ⟨hlen, rfl⟩, rfl⟩
    exact ⟨hlen, rfl⟩
  · rintro ⟨hlen, rfl⟩
    exact ⟨bs, ⟨hlen, rfl⟩, rfl⟩

theorem reads_fixed (count : Nat) :
    Reads (fixed count) fun n bs => bs.length = count ∧ n = Bytes.toNat bs :=
  reads_map_bytes Bytes.toNat count

theorem reads_fixedSigned (count : Nat) :
    Reads (fixedSigned count) fun v bs => bs.length = count ∧ v = Bytes.toInt bs :=
  reads_map_bytes Bytes.toInt count

theorem reads_unsigned : Reads unsigned Leb128.Unsigned := by
  intro input n rest
  rw [← Leb128.readUnsigned_eq_ok_iff, unsigned]
  cases Leb128.readUnsigned input with
  | ok result => simp
  | error e => cases e <;> simp

theorem reads_signed : Reads signed Leb128.Signed := by
  intro input v rest
  rw [← Leb128.readSigned_eq_ok_iff, signed]
  cases Leb128.readSigned input with
  | ok result => simp
  | error e => cases e <;> simp

theorem reads_unsignedBelow (bound : Nat) (e : DecodeError) :
    Reads (unsignedBelow bound e) fun n bs => Leb128.Unsigned n bs ∧ n < bound := by
  have hcheck (n : Nat) : Reads (if n < bound then Pure.pure n else Reader.fail e : Reader Nat)
      fun m bs => (m = n ∧ bs = []) ∧ n < bound := by
    by_cases hn : n < bound
    · simpa [hn] using Reads.pure n
    · simpa [hn] using Reads.fail e
  apply (reads_unsigned.bind hcheck).congr
  intro n bs
  constructor
  · rintro ⟨m, front, back, hfront, ⟨⟨rfl, rfl⟩, hlt⟩, rfl⟩
    exact ⟨by rwa [List.append_nil], hlt⟩
  · rintro ⟨hs, hlt⟩
    exact ⟨n, bs, [], hs, ⟨⟨rfl, rfl⟩, hlt⟩, (List.append_nil bs).symm⟩

theorem reads_register : Reads register fun r bs => Leb128.Unsigned r.number.toNat bs := by
  apply ((reads_unsignedBelow UInt16.size .registerNumber).map
    fun n => (⟨UInt16.ofNat n⟩ : Register)).congr
  intro r bs
  constructor
  · rintro ⟨n, ⟨hs, hlt⟩, rfl⟩
    rwa [UInt16.toNat_ofNat_of_lt' hlt]
  · intro hs
    exact ⟨r.number.toNat, ⟨hs, r.number.toNat_lt⟩, by rw [UInt16.ofNat_toNat]⟩

theorem reads_offset : Reads offset fun o bs => Leb128.Signed o.toInt bs := by
  apply (reads_signed.map Int64.ofInt).congr
  intro o bs
  constructor
  · rintro ⟨v, hs, rfl⟩
    rwa [Int64.toInt_ofInt_of_le hs.le hs.lt]
  · intro hs
    exact ⟨o.toInt, hs, (Int64.ofInt_toInt o).symm⟩

theorem reads_address (encoding : Encoding) :
    Reads (address encoding) fun n bs => encoding.addressSize ∈ [1, 2, 4, 8] ∧
      bs.length = encoding.addressSize ∧ n = Bytes.toNat bs := by
  unfold address
  split
  · next hsize =>
    apply (reads_fixed encoding.addressSize).congr
    intro n bs
    rw [and_iff_right hsize]
  · next hsize =>
    apply (Reads.fail .addressSize).congr
    intro n bs
    exact (iff_of_false id fun h => hsize h.1)

theorem reads_block :
    Reads block fun data bs => ∃ front, Leb128.Unsigned data.length front ∧ bs = front ++ data := by
  apply (reads_unsigned.bind reads_bytes).congr
  intro data bs
  constructor
  · rintro ⟨_, front, back, hs, ⟨rfl, rfl⟩, rfl⟩
    exact ⟨front, hs, rfl⟩
  · rintro ⟨front, hs, rfl⟩
    exact ⟨data.length, front, data, hs, ⟨rfl, rfl⟩, rfl⟩

theorem reads_shortBlock :
    Reads shortBlock fun data bs => ∃ count : UInt8, count.toNat = data.length ∧
      bs = count :: data := by
  apply ((reads_fixed 1).bind reads_bytes).congr
  intro data bs
  constructor
  · rintro ⟨_, front, back, ⟨hlen, rfl⟩, ⟨hback, rfl⟩, rfl⟩
    obtain ⟨count, rfl⟩ := List.length_eq_one_iff.mp hlen
    exact ⟨count, by simpa [Bytes.toNat] using hback.symm, rfl⟩
  · rintro ⟨count, hcount, rfl⟩
    exact ⟨_, [count], data, ⟨rfl, rfl⟩, ⟨by simpa [Bytes.toNat] using hcount.symm, rfl⟩, rfl⟩

end Reader

open Reader

/-- The byte strings that an operand can be. -/
def Operand.Spelled (encoding : Encoding) : Operand → List UInt8 → Prop
  | fixed count, bs => bs.length = count
  | unsigned, bs => ∃ n, Leb128.Unsigned n bs
  | signed, bs => ∃ v, Leb128.Signed v bs
  | address, bs => encoding.addressSize ∈ [1, 2, 4, 8] ∧ bs.length = encoding.addressSize
  | sectionOffset, bs => bs.length = encoding.format.size
  | block, bs => ∃ front data, Leb128.Unsigned data.length front ∧ bs = front ++ data
  | shortBlock, bs => ∃ (count : UInt8) (data : List UInt8),
      count.toNat = data.length ∧ bs = count :: data

theorem Operand.reads_skip (encoding : Encoding) (operand : Operand) :
    Reads (operand.skip encoding) fun _ bs => operand.Spelled encoding bs := by
  have hdrop {α : Type} {reader : Reader α} {spells : α → List UInt8 → Prop}
      (h : Reads reader spells) :
      Reads (do let _ ← reader) fun _ bs => ∃ a, spells a bs := by
    apply (h.map fun _ => ()).congr
    simp
  cases operand with
  | fixed count =>
    apply (hdrop (reads_bytes count)).congr
    simp [Spelled]
  | unsigned => exact hdrop reads_unsigned
  | signed => exact hdrop reads_signed
  | address =>
    apply (hdrop (reads_address encoding)).congr
    simp [Spelled]
  | sectionOffset =>
    apply (hdrop (reads_bytes encoding.format.size)).congr
    simp [Spelled]
  | block =>
    apply (hdrop reads_block).congr
    intro _ bs
    exact exists_comm
  | shortBlock =>
    apply (hdrop reads_shortBlock).congr
    intro _ bs
    exact exists_comm

namespace Operation

theorem reads_skipAll (encoding : Encoding) (operands : List Operand) :
    Reads (skipAll encoding operands) fun _ bs =>
      ∃ parts, List.Forall₂ (Operand.Spelled encoding) operands parts ∧ bs = parts.flatten := by
  induction operands with
  | nil =>
    apply (Reads.pure ()).congr
    simp
  | cons operand rest ih =>
    apply ((operand.reads_skip encoding).bind fun _ => ih).congr
    intro _ bs
    constructor
    · rintro ⟨_, front, _, hfront, ⟨parts, hparts, rfl⟩, rfl⟩
      exact ⟨front :: parts, List.Forall₂.cons hfront hparts, rfl⟩
    · rintro ⟨_, hparts, rfl⟩
      cases hparts with
      | @cons _ front _ parts hfront hrest =>
        exact ⟨(), front, parts.flatten, hfront, ⟨parts, hrest, rfl⟩, rfl⟩

end Operation

end FrameLens
