import FrameLens.Proofs.Location.Reading

/-!
The byte strings that spell operations, as a table of opcodes and what may follow them. Reading
takes exactly a row of the table from the front of its input, so bytes can be read to their end just
when they are spellings put one after the other.
-/
namespace FrameLens
open Reader

namespace Operation

/-- The table of operands: what may follow an opcode, and the operation that the two make. -/
inductive Row (encoding : Encoding) : Nat → Operation → List UInt8 → Prop
  | literal {n : Nat} (hn : n < 32) : Row encoding (0x30 + n) (push (UInt64.ofNat n)) []
  | fixedUnsigned {opcode width : Nat} {data : List UInt8}
      (h : (opcode, width) ∈ [(0x08, 1), (0x0a, 2), (0x0c, 4), (0x0e, 8)])
      (hlen : data.length = width) :
      Row encoding opcode (push (UInt64.ofNat (Bytes.toNat data))) data
  | fixedSigned {opcode width : Nat} {data : List UInt8}
      (h : (opcode, width) ∈ [(0x09, 1), (0x0b, 2), (0x0d, 4), (0x0f, 8)])
      (hlen : data.length = width) :
      Row encoding opcode (push (UInt64.ofInt (Bytes.toInt data))) data
  | unsigned {n : Nat} {bs : List UInt8} (h : Leb128.Unsigned n bs) :
      Row encoding 0x10 (push (UInt64.ofNat n)) bs
  | signed {v : Int} {bs : List UInt8} (h : Leb128.Signed v bs) :
      Row encoding 0x11 (push (UInt64.ofInt v)) bs
  | shortRegister {n : Nat} (hn : n < 32) :
      Row encoding (0x50 + n) (register ⟨UInt16.ofNat n⟩) []
  | register {r : Register} {bs : List UInt8} (h : Leb128.Unsigned r.number.toNat bs) :
      Row encoding 0x90 (register r) bs
  | shortOffset {n : Nat} (hn : n < 32) {o : Int64} {bs : List UInt8}
      (h : Leb128.Signed o.toInt bs) :
      Row encoding (0x70 + n) (registerOffset ⟨UInt16.ofNat n⟩ o 0) bs
  | registerOffset {r : Register} {o : Int64} {front back : List UInt8}
      (hr : Leb128.Unsigned r.number.toNat front) (ho : Leb128.Signed o.toInt back) :
      Row encoding 0x92 (registerOffset r o 0) (front ++ back)
  | frameOffset {o : Int64} {bs : List UInt8} (h : Leb128.Signed o.toInt bs) :
      Row encoding 0x91 (frameOffset o) bs
  | typedRegister {opcode : Nat} (h : opcode ∈ [0xa5, 0xf5]) {r : Register} {type : Nat}
      {front back : List UInt8} (hr : Leb128.Unsigned r.number.toNat front)
      (ht : Leb128.Unsigned type back) :
      Row encoding opcode (registerOffset r 0 type) (front ++ back)
  | implicitValue {data front : List UInt8} (h : Leb128.Unsigned data.length front) :
      Row encoding 0x9e (implicitValue data) (front ++ data)
  | stackValue : Row encoding 0x9f stackValue []
  | wasmIndex {kind : UInt8} (hk : kind.toNat < 3) {n : Nat} {bs : List UInt8}
      (h : Leb128.Unsigned n bs) (hn : n < 2 ^ 32) : Row encoding 0xed other (kind :: bs)
  | wasmGlobal {data : List UInt8} (hlen : data.length = 4) : Row encoding 0xed other (3 :: data)
  | other {opcode : Nat} {operands : List Operand} {parts : List (List UInt8)}
      (h : otherOperands? encoding opcode = some operands)
      (hp : List.Forall₂ (Operand.Spelled encoding) operands parts) :
      Row encoding opcode other parts.flatten

theorem reads_registerOffset :
    Reads (do let base ← Reader.register; return registerOffset base (← offset) 0) fun op bs =>
      ∃ r o front back, Leb128.Unsigned r.number.toNat front ∧ Leb128.Signed o.toInt back ∧
        op = registerOffset r o 0 ∧ bs = front ++ back := by
  apply (reads_register.bind fun base => reads_offset.map (registerOffset base · 0)).congr
  intro op bs
  constructor
  · rintro ⟨r, front, back, hr, ⟨o, ho, hop⟩, hbs⟩
    exact ⟨r, o, front, back, hr, ho, hop, hbs⟩
  · rintro ⟨r, o, front, back, hr, ho, hop, hbs⟩
    exact ⟨r, front, back, hr, ⟨o, ho, hop⟩, hbs⟩

theorem reads_typedRegister :
    Reads (do let base ← Reader.register; return registerOffset base 0 (← Reader.unsigned))
      fun op bs => ∃ r type front back, Leb128.Unsigned r.number.toNat front ∧
        Leb128.Unsigned type back ∧ op = registerOffset r 0 type ∧ bs = front ++ back := by
  apply (reads_register.bind fun base => reads_unsigned.map (registerOffset base 0 ·)).congr
  intro op bs
  constructor
  · rintro ⟨r, front, back, hr, ⟨type, ht, hop⟩, hbs⟩
    exact ⟨r, type, front, back, hr, ht, hop, hbs⟩
  · rintro ⟨r, type, front, back, hr, ht, hop, hbs⟩
    exact ⟨r, front, back, hr, ⟨type, ht, hop⟩, hbs⟩

theorem reads_readWasmPlace :
    Reads readWasmPlace fun op bs => op = other ∧
      ((∃ (kind : UInt8) (n : Nat) (back : List UInt8), kind.toNat < 3 ∧ Leb128.Unsigned n back ∧
        n < 2 ^ 32 ∧ bs = kind :: back) ∨
      ∃ data : List UInt8, data.length = 4 ∧ bs = 3 :: data) := by
  have hplace (kind : Nat) : Reads (if kind < 3 then do
        let _ ← unsignedBelow UInt32.size .unsignedNumber
        pure other
      else if kind = 3 then do
        let _ ← bytes 4
        pure other
      else Reader.fail .invalidOpcode : Reader Operation) fun op back => op = other ∧
        ((kind < 3 ∧ ∃ n, Leb128.Unsigned n back ∧ n < 2 ^ 32) ∨ kind = 3 ∧ back.length = 4) := by
    split
    · next hk =>
      have hne : kind ≠ 3 := by omega
      apply ((reads_unsignedBelow UInt32.size .unsignedNumber).map fun _ => other).congr
      simp [hk, hne, UInt32.size, and_comm]
    · next hk =>
      split
      · next he =>
        apply ((reads_bytes 4).map fun _ => other).congr
        simp [he, and_comm]
      · next he =>
        apply (Reads.fail .invalidOpcode).congr
        simp [hk, he]
  apply ((reads_fixed 1).bind hplace).congr
  intro op bs
  constructor
  · rintro ⟨_, front, back, ⟨hlen, rfl⟩, ⟨rfl, hback⟩, rfl⟩
    obtain ⟨kind, rfl⟩ := List.length_eq_one_iff.mp hlen
    have hkind : Bytes.toNat [kind] = kind.toNat := by simp [Bytes.toNat]
    rw [hkind] at hback
    rcases hback with ⟨hk, n, hs, hn⟩ | ⟨hk, hdata⟩
    · exact ⟨rfl, .inl ⟨kind, n, back, hk, hs, hn, rfl⟩⟩
    · obtain rfl : kind = 3 := UInt8.toNat_inj.mp hk
      exact ⟨rfl, .inr ⟨back, hdata, rfl⟩⟩
  · rintro ⟨rfl, ⟨kind, n, back, hk, hs, hn, rfl⟩ | ⟨data, hlen, rfl⟩⟩
    · have hkind : Bytes.toNat [kind] < 3 := by simpa [Bytes.toNat] using hk
      exact ⟨_, [kind], back, ⟨rfl, rfl⟩, ⟨rfl, .inl ⟨hkind, n, hs, hn⟩⟩, rfl⟩
    · exact ⟨_, [3], data, ⟨rfl, rfl⟩, ⟨rfl, .inr ⟨rfl, hlen⟩⟩, rfl⟩

theorem row_of_readOperands {encoding : Encoding} {opcode : Nat} {input rest : List UInt8}
    {op : Operation} (h : readOperands encoding opcode input = .ok (op, rest)) :
    ∃ bs, Row encoding opcode op bs ∧ input = bs ++ rest := by
  have hunsigned (width code : Nat)
      (hcode : (code, width) ∈ [(0x08, 1), (0x0a, 2), (0x0c, 4), (0x0e, 8)])
      (hread : (do return push (UInt64.ofNat (← fixed width)) : Reader Operation) input =
        .ok (op, rest)) : ∃ bs, Row encoding code op bs ∧ input = bs ++ rest := by
    obtain ⟨bs, ⟨_, ⟨hlen, rfl⟩, rfl⟩, rfl⟩ := ((reads_fixed width).map _ _ _ _).mp hread
    exact ⟨bs, .fixedUnsigned hcode hlen, rfl⟩
  have hsigned (width code : Nat)
      (hcode : (code, width) ∈ [(0x09, 1), (0x0b, 2), (0x0d, 4), (0x0f, 8)])
      (hread : (do return push (UInt64.ofInt (← fixedSigned width)) : Reader Operation) input =
        .ok (op, rest)) : ∃ bs, Row encoding code op bs ∧ input = bs ++ rest := by
    obtain ⟨bs, ⟨_, ⟨hlen, rfl⟩, rfl⟩, rfl⟩ := ((reads_fixedSigned width).map _ _ _ _).mp hread
    exact ⟨bs, .fixedSigned hcode hlen, rfl⟩
  have htyped (code : Nat) (hcode : code ∈ [0xa5, 0xf5])
      (hread : (do let base ← Reader.register; return registerOffset base 0 (← Reader.unsigned) :
        Reader Operation) input = .ok (op, rest)) :
      ∃ bs, Row encoding code op bs ∧ input = bs ++ rest := by
    obtain ⟨_, ⟨r, type, front, back, hr, ht, rfl, rfl⟩, rfl⟩ :=
      (reads_typedRegister _ _ _).mp hread
    exact ⟨_, .typedRegister hcode hr ht, rfl⟩
  unfold readOperands at h
  split at h
  · exact hunsigned 1 _ (by decide) h
  · exact hsigned 1 _ (by decide) h
  · exact hunsigned 2 _ (by decide) h
  · exact hsigned 2 _ (by decide) h
  · exact hunsigned 4 _ (by decide) h
  · exact hsigned 4 _ (by decide) h
  · exact hunsigned 8 _ (by decide) h
  · exact hsigned 8 _ (by decide) h
  · obtain ⟨bs, ⟨n, hs, rfl⟩, rfl⟩ := (reads_unsigned.map _ _ _ _).mp h
    exact ⟨bs, .unsigned hs, rfl⟩
  · obtain ⟨bs, ⟨v, hs, rfl⟩, rfl⟩ := (reads_signed.map _ _ _ _).mp h
    exact ⟨bs, .signed hs, rfl⟩
  · obtain ⟨bs, ⟨r, hs, rfl⟩, rfl⟩ := (reads_register.map _ _ _ _).mp h
    exact ⟨bs, .register hs, rfl⟩
  · obtain ⟨bs, ⟨o, hs, rfl⟩, rfl⟩ := (reads_offset.map _ _ _ _).mp h
    exact ⟨bs, .frameOffset hs, rfl⟩
  · obtain ⟨_, ⟨r, o, front, back, hr, ho, rfl, rfl⟩, rfl⟩ := (reads_registerOffset _ _ _).mp h
    exact ⟨_, .registerOffset hr ho, rfl⟩
  · obtain ⟨_, ⟨data, ⟨front, hs, rfl⟩, rfl⟩, rfl⟩ := (reads_block.map _ _ _ _).mp h
    exact ⟨_, .implicitValue hs, rfl⟩
  · obtain ⟨_, ⟨rfl, rfl⟩, rfl⟩ := (Reads.pure _ _ _ _).mp h
    exact ⟨[], .stackValue, rfl⟩
  · exact htyped _ (by decide) h
  · exact htyped _ (by decide) h
  · obtain ⟨_, ⟨rfl, hplace⟩, rfl⟩ := (reads_readWasmPlace _ _ _).mp h
    rcases hplace with ⟨kind, n, back, hk, hs, hn, rfl⟩ | ⟨data, hlen, rfl⟩
    · exact ⟨_, .wasmIndex hk hs hn, rfl⟩
    · exact ⟨_, .wasmGlobal hlen, rfl⟩
  · cases hother : otherOperands? encoding opcode with
    | some operands =>
      rw [hother] at h
      obtain ⟨_, ⟨_, ⟨parts, hparts, rfl⟩, rfl⟩, rfl⟩ :=
        ((reads_skipAll encoding operands).map _ _ _ _).mp h
      exact ⟨_, .other hother hparts, rfl⟩
    | none =>
      rw [hother] at h
      contradiction

theorem row_of_read {encoding : Encoding} {opcode : UInt8} {input rest : List UInt8}
    {op : Operation} (h : read encoding opcode input = .ok (op, rest)) :
    ∃ bs, Row encoding opcode.toNat op bs ∧ input = bs ++ rest := by
  unfold read at h
  generalize opcode.toNat = n at h ⊢
  split at h
  · next hn =>
    obtain ⟨k, rfl⟩ := Nat.exists_eq_add_of_le hn.1
    obtain ⟨_, ⟨rfl, rfl⟩, rfl⟩ := (Reads.pure _ _ _ _).mp h
    rw [Nat.add_sub_cancel_left]
    exact ⟨[], .literal (by omega), rfl⟩
  split at h
  · next hn =>
    obtain ⟨k, rfl⟩ := Nat.exists_eq_add_of_le hn.1
    obtain ⟨_, ⟨rfl, rfl⟩, rfl⟩ := (Reads.pure _ _ _ _).mp h
    rw [Nat.add_sub_cancel_left]
    exact ⟨[], .shortRegister (by omega), rfl⟩
  split at h
  · next hn =>
    obtain ⟨k, rfl⟩ := Nat.exists_eq_add_of_le hn.1
    obtain ⟨bs, ⟨o, hs, rfl⟩, rfl⟩ := (reads_offset.map _ _ _ _).mp h
    rw [Nat.add_sub_cancel_left]
    exact ⟨bs, .shortOffset (by omega) hs, rfl⟩
  · exact row_of_readOperands h

/-- The runs of opcodes that hold a number themselves are in no other row. -/
theorem otherOperands?_eq_none (encoding : Encoding) {opcode : Nat} (hlow : 0x30 ≤ opcode)
    (hhigh : opcode < 0x90) : otherOperands? encoding opcode = none := by
  simp only [otherOperands?, plainOpcodes, numberOpcodes, List.mem_cons, List.not_mem_nil, or_false]
  repeat rw [if_neg (by omega)]

theorem readOperands_of_other {encoding : Encoding} {opcode : Nat} {operands : List Operand}
    (h : otherOperands? encoding opcode = some operands) :
    readOperands encoding opcode = (do skipAll encoding operands; return other) := by
  unfold readOperands
  split
  case h_19 => rw [h]
  all_goals exact absurd (show none = some operands from h) (Option.some_ne_none operands).symm

theorem read_of_row {encoding : Encoding} {opcode : UInt8} {op : Operation} {bs : List UInt8}
    (h : Row encoding opcode.toNat op bs) (rest : List UInt8) :
    read encoding opcode (bs ++ rest) = .ok (op, rest) := by
  unfold read
  generalize opcode.toNat = n at h ⊢
  cases h with
  | @literal n hn =>
    rw [if_pos (by omega), Nat.add_sub_cancel_left]
    rfl
  | fixedUnsigned h hlen =>
    have hread := ((reads_fixed _).map (fun n => push (UInt64.ofNat n)) _ _ rest).mpr
      ⟨_, ⟨_, ⟨hlen, rfl⟩, rfl⟩, rfl⟩
    simp only [List.mem_cons, Prod.mk.injEq, List.not_mem_nil, or_false] at h
    rcases h with ⟨rfl, rfl⟩ | ⟨rfl, rfl⟩ | ⟨rfl, rfl⟩ | ⟨rfl, rfl⟩ <;> exact hread
  | fixedSigned h hlen =>
    have hread := ((reads_fixedSigned _).map (fun v => push (UInt64.ofInt v)) _ _ rest).mpr
      ⟨_, ⟨_, ⟨hlen, rfl⟩, rfl⟩, rfl⟩
    simp only [List.mem_cons, Prod.mk.injEq, List.not_mem_nil, or_false] at h
    rcases h with ⟨rfl, rfl⟩ | ⟨rfl, rfl⟩ | ⟨rfl, rfl⟩ | ⟨rfl, rfl⟩ <;> exact hread
  | unsigned h => exact (reads_unsigned.map _ _ _ _).mpr ⟨_, ⟨_, h, rfl⟩, rfl⟩
  | signed h => exact (reads_signed.map _ _ _ _).mpr ⟨_, ⟨_, h, rfl⟩, rfl⟩
  | @shortRegister n hn =>
    rw [if_neg (by omega), if_pos (by omega), Nat.add_sub_cancel_left]
    rfl
  | register h => exact (reads_register.map _ _ _ _).mpr ⟨_, ⟨_, h, rfl⟩, rfl⟩
  | @shortOffset n hn o bs h =>
    rw [if_neg (by omega), if_neg (by omega), if_pos (by omega), Nat.add_sub_cancel_left]
    exact (reads_offset.map _ _ _ _).mpr ⟨_, ⟨_, h, rfl⟩, rfl⟩
  | registerOffset hr ho =>
    exact (reads_registerOffset _ _ _).mpr ⟨_, ⟨_, _, _, _, hr, ho, rfl, rfl⟩, rfl⟩
  | frameOffset h => exact (reads_offset.map _ _ _ _).mpr ⟨_, ⟨_, h, rfl⟩, rfl⟩
  | typedRegister h hr ht =>
    have hread := (reads_typedRegister _ _ rest).mpr ⟨_, ⟨_, _, _, _, hr, ht, rfl, rfl⟩, rfl⟩
    simp only [List.mem_cons, List.not_mem_nil, or_false] at h
    rcases h with rfl | rfl <;> exact hread
  | implicitValue h => exact (reads_block.map _ _ _ _).mpr ⟨_, ⟨_, ⟨_, h, rfl⟩, rfl⟩, rfl⟩
  | stackValue => rfl
  | wasmIndex hk h hn =>
    exact (reads_readWasmPlace _ _ _).mpr ⟨_, ⟨rfl, .inl ⟨_, _, _, hk, h, hn, rfl⟩⟩, rfl⟩
  | wasmGlobal hlen => exact (reads_readWasmPlace _ _ _).mpr ⟨_, ⟨rfl, .inr ⟨_, hlen, rfl⟩⟩, rfl⟩
  | other h hp =>
    have hout : ¬ (0x30 ≤ n ∧ n < 0x90) := by
      rintro ⟨hlow, hhigh⟩
      rw [otherOperands?_eq_none encoding hlow hhigh] at h
      contradiction
    rw [if_neg (by omega), if_neg (by omega), if_neg (by omega), readOperands_of_other h]
    exact ((reads_skipAll _ _).map _ _ _ _).mpr ⟨_, ⟨(), ⟨_, hp, rfl⟩, rfl⟩, rfl⟩

theorem reads_read (encoding : Encoding) (opcode : UInt8) :
    Reads (read encoding opcode) (Row encoding opcode.toNat) := by
  intro input op rest
  constructor
  · exact row_of_read
  · rintro ⟨bs, hrow, rfl⟩
    exact read_of_row hrow rest

/-- The byte string is one operation: an opcode and what belongs to it. -/
def Spelled (encoding : Encoding) (op : Operation) (bs : List UInt8) : Prop :=
  ∃ opcode operands, Row encoding opcode.toNat op operands ∧ bs = opcode :: operands

/-- The byte string is one operation after the other. -/
def AllSpelled (encoding : Encoding) (ops : List Operation) (bytes : List UInt8) : Prop :=
  ∃ parts, List.Forall₂ (Spelled encoding) ops parts ∧ bytes = parts.flatten

theorem allSpelled_singleton {encoding : Encoding} {op : Operation} {bytes : List UInt8} :
    AllSpelled encoding [op] bytes ↔ Spelled encoding op bytes := by
  constructor
  · rintro ⟨parts, hparts, rfl⟩
    cases hparts with
    | cons h hrest =>
      cases hrest
      simpa using h
  · intro h
    exact ⟨[bytes], List.Forall₂.cons h List.Forall₂.nil, by simp⟩

theorem allSpelled_cons {encoding : Encoding} {op : Operation} {ops : List Operation}
    {bytes : List UInt8} :
    AllSpelled encoding (op :: ops) bytes ↔
      ∃ front back, Spelled encoding op front ∧ AllSpelled encoding ops back ∧
        bytes = front ++ back := by
  constructor
  · rintro ⟨parts, hparts, rfl⟩
    cases hparts with
    | @cons _ front _ parts h hrest => exact ⟨front, parts.flatten, h, ⟨parts, hrest, rfl⟩, rfl⟩
  · rintro ⟨front, _, h, ⟨parts, hparts, rfl⟩, rfl⟩
    exact ⟨front :: parts, List.Forall₂.cons h hparts, rfl⟩

theorem readAll_cons (encoding : Encoding) (opcode : UInt8) (rest : List UInt8) :
    readAll encoding (opcode :: rest) =
      (read encoding opcode rest).bind fun r => (readAll encoding r.2).map (r.1 :: ·) := by
  rw [readAll]
  split
  · next e hread =>
    rw [hread]
    rfl
  · next op left hread =>
    simp only [hread, Except.bind]
    cases readAll encoding left <;> rfl

/-- What stands behind an operation is read as if it stood alone. -/
theorem readAll_spelled {encoding : Encoding} {op : Operation} {front : List UInt8}
    (h : Spelled encoding op front) (back : List UInt8) :
    readAll encoding (front ++ back) = (readAll encoding back).map (op :: ·) := by
  obtain ⟨opcode, operands, hrow, rfl⟩ := h
  rw [List.cons_append, readAll_cons, read_of_row hrow, Except.bind]

theorem readAll_allSpelled {encoding : Encoding} {ops : List Operation} {front : List UInt8}
    (h : AllSpelled encoding ops front) (back : List UInt8) :
    readAll encoding (front ++ back) = (readAll encoding back).map (ops ++ ·) := by
  induction ops generalizing front with
  | nil =>
    obtain ⟨parts, hparts, rfl⟩ := h
    cases hparts
    rw [List.flatten_nil, List.nil_append]
    cases readAll encoding back <;> rfl
  | cons op ops ih =>
    obtain ⟨first, rest, hfirst, hrest, rfl⟩ := allSpelled_cons.mp h
    rw [List.append_assoc, readAll_spelled hfirst, ih hrest]
    cases readAll encoding back <;> rfl

theorem readAll_eq_ok_iff (encoding : Encoding) (bytes : List UInt8) (ops : List Operation) :
    readAll encoding bytes = .ok ops ↔ AllSpelled encoding ops bytes := by
  constructor
  · intro h
    fun_induction readAll encoding bytes generalizing ops with
    | case1 =>
      cases h
      exact ⟨[], List.Forall₂.nil, rfl⟩
    | case2 => contradiction
    | case3 => contradiction
    | case4 opcode rest op left hread _ ops hrest ih =>
      cases h
      obtain ⟨operands, hrow, rfl⟩ := row_of_read hread
      exact allSpelled_cons.mpr ⟨opcode :: operands, left, ⟨opcode, operands, hrow, rfl⟩,
        ih ops hrest, rfl⟩
  · intro h
    have hread := readAll_allSpelled h []
    rwa [List.append_nil, readAll, Except.map, List.append_nil] at hread

/-- Bytes cannot be read just when, after some operations, there is one that cannot. -/
theorem readAll_eq_error_iff (encoding : Encoding) (bytes : List UInt8) (e : DecodeError) :
    readAll encoding bytes = .error e ↔
      ∃ ops front opcode rest, AllSpelled encoding ops front ∧ bytes = front ++ opcode :: rest ∧
        read encoding opcode rest = .error e := by
  constructor
  · intro h
    fun_induction readAll encoding bytes with
    | case1 => contradiction
    | case2 opcode rest cause hread =>
      cases h
      exact ⟨[], [], opcode, rest, ⟨[], List.Forall₂.nil, rfl⟩, rfl, hread⟩
    | case3 opcode rest op left hread _ cause hrest ih =>
      cases h
      obtain ⟨operands, hrow, rfl⟩ := row_of_read hread
      obtain ⟨ops, front, next, more, hfront, rfl, hfails⟩ := ih hrest
      refine ⟨op :: ops, opcode :: operands ++ front, next, more, ?_, by simp, hfails⟩
      exact allSpelled_cons.mpr ⟨_, front, ⟨opcode, operands, hrow, rfl⟩, hfront, rfl⟩
    | case4 => contradiction
  · rintro ⟨ops, front, opcode, rest, hfront, rfl, hfails⟩
    rw [readAll_allSpelled hfront, readAll_cons, hfails]
    rfl

end Operation

end FrameLens
