import FrameLens.Proofs.Location.Evaluation
import FrameLens.Proofs.Memory.Splitting

/-!
The types that base type entries stand for. An entry becomes the built-in type of its encoding that
has its size, or keeps its name and size where there is none, so that as many bytes are looked up as
the entry says. Boolean entries are the exception: they become the one boolean type whatever their
size.
-/
namespace FrameLens

namespace CType

/-- The built-in types of each encoding. -/
inductive BuiltIn : Nat → CType → Prop
  | address : BuiltIn 1 (pointer void)
  | boolean : BuiltIn 2 bool
  | single : BuiltIn 4 single
  | double : BuiltIn 4 double
  | signed (width : Width) : BuiltIn 5 (integer true width)
  | signedCharacter : BuiltIn 6 char
  | unsigned (width : Width) : BuiltIn 7 (integer false width)
  | unsignedCharacter : BuiltIn 8 char

theorem width?_eq_some_iff {size : UInt64} {width : Width} :
    width? size = some width ↔ width.size = size := by
  cases width <;> grind [width?, Width.size]

theorem BuiltIn.of_size {encoding : Nat} {built type : CType} {size : UInt64}
    (hbuilt : BuiltIn encoding built)
    (h : (if size = built.size then some built else none) = some type) :
    BuiltIn encoding type ∧ type.size = size := by
  obtain ⟨hsize, htype⟩ := Option.ite_none_right_eq_some.mp h
  cases htype
  exact ⟨hbuilt, hsize.symm⟩

theorem BuiltIn.of_width {encoding : Nat} {signed : Bool} {type : CType} {size : UInt64}
    (hbuilt : ∀ width, BuiltIn encoding (integer signed width))
    (h : (width? size).map (integer signed) = some type) :
    BuiltIn encoding type ∧ type.size = size := by
  obtain ⟨width, hwidth, htype⟩ := Option.map_eq_some_iff.mp h
  cases htype
  exact ⟨hbuilt width, width?_eq_some_iff.mp hwidth⟩

theorem builtin?_eq_some_iff {encoding : Nat} (h : encoding ≠ 2) {size : UInt64} {type : CType} :
    builtin? encoding size = some type ↔ BuiltIn encoding type ∧ type.size = size := by
  constructor
  · intro hsome
    unfold builtin? at hsome
    split at hsome
    · exact BuiltIn.address.of_size hsome
    · exact absurd rfl h
    · by_cases hsize : size = 4
      · rw [if_pos hsize] at hsome
        cases hsome
        exact ⟨.single, hsize.symm⟩
      · rw [if_neg hsize] at hsome
        exact BuiltIn.double.of_size hsome
    · exact BuiltIn.of_width .signed hsome
    · exact BuiltIn.of_width .unsigned hsome
    · exact BuiltIn.signedCharacter.of_size hsome
    · exact BuiltIn.unsignedCharacter.of_size hsome
    · contradiction
  · rintro ⟨hbuilt, hsize⟩
    subst hsize
    cases hbuilt with
    | boolean => exact absurd rfl h
    | signed width | unsigned width =>
      show (width? width.size).map _ = _
      rw [width?_eq_some_iff.mpr rfl, Option.map_some]
    | _ => rfl

variable {name : String} {encoding : Nat} {size : UInt64}

theorem ofBase_of_builtIn {type : CType} (h : BuiltIn encoding type) (hsize : type.size = size) :
    ofBase name encoding size = type := by
  by_cases hboolean : encoding = 2
  · subst hboolean
    cases h
    rfl
  · rw [ofBase, (builtin?_eq_some_iff hboolean).mpr ⟨h, hsize⟩, Option.getD_some]

theorem ofBase_of_no_builtIn (hboolean : encoding ≠ 2)
    (h : ∀ type, BuiltIn encoding type → type.size ≠ size) :
    ofBase name encoding size = named name size := by
  cases hsome : builtin? encoding size with
  | none => rw [ofBase, hsome, Option.getD_none]
  | some type =>
    obtain ⟨hbuilt, hsize⟩ := (builtin?_eq_some_iff hboolean).mp hsome
    exact absurd hsize (h type hbuilt)

theorem ofBase_boolean : ofBase name 2 size = bool := rfl

theorem size_ofBase_iff : (ofBase name encoding size).size = size ↔ (encoding = 2 → size = 1) := by
  constructor
  · intro hsize hboolean
    subst hboolean
    exact hsize.symm
  · intro h
    by_cases hbuilt : ∃ type, BuiltIn encoding type ∧ type.size = size
    · obtain ⟨type, hbuilt, hsize⟩ := hbuilt
      rw [ofBase_of_builtIn hbuilt hsize, hsize]
    · have hboolean : encoding ≠ 2 := by
        intro hboolean
        subst hboolean
        exact hbuilt ⟨bool, .boolean, (h rfl).symm⟩
      rw [ofBase_of_no_builtIn hboolean (fun type h hsize => hbuilt ⟨type, h, hsize⟩)]
      rfl

theorem evaluate_boolean {registers : Registers} {map : MemoryMap} {bytes : List UInt8}
    (base : Register) (offset : Int64) (word : UInt64) (hword : registers.get? base = some word)
    (hread : map.read (word + offset.toUInt64) size = .ok bytes) (hpos : 1 ≤ size.toNat) :
    (Location.stack base offset).evaluate ⟨registers, .captured map⟩ (ofBase name 2 size).size =
      .ok (.bytes (bytes.take 1) (some (word + offset.toUInt64))) := by
  have hfirst : map.read (word + offset.toUInt64) 1 = .ok (bytes.take 1) :=
    MemoryMap.read_take hread hpos
  exact Location.evaluate_eq_ok_iff.mpr (.memory hword hfirst)

/-- A base type entry keeps its size unless it is a boolean of a size other than one. It becomes the
built-in type of its encoding and size; without one it keeps its name, if it is not a boolean. What
is readable at an offset from a register is then taken for as many bytes as the entry says. Of a
boolean only the first byte is taken. -/
theorem ofBase_exact_unless_boolean (name : String) (encoding : Nat) (size : UInt64) :
    ((ofBase name encoding size).size = size ↔ (encoding = 2 → size = 1)) ∧
    (∀ type, BuiltIn encoding type → type.size = size → ofBase name encoding size = type) ∧
    ((∀ type, BuiltIn encoding type → type.size ≠ size) →
      (ofBase name encoding size = named name size ↔ encoding ≠ 2)) ∧
    ∀ (registers : Registers) (map : MemoryMap) (base : Register) (offset : Int64) (word : UInt64)
      (bytes : List UInt8), registers.get? base = some word →
      map.read (word + offset.toUInt64) size = .ok bytes →
      bytes.length = size.toNat ∧
      ((encoding = 2 → size = 1) →
        (Location.stack base offset).evaluate ⟨registers, .captured map⟩
            (ofBase name encoding size).size =
          .ok (.bytes bytes (some (word + offset.toUInt64)))) ∧
      (encoding = 2 → 1 ≤ size.toNat →
        (Location.stack base offset).evaluate ⟨registers, .captured map⟩
            (ofBase name encoding size).size =
          .ok (.bytes (bytes.take 1) (some (word + offset.toUInt64)))) := by
  refine ⟨size_ofBase_iff, fun type => ofBase_of_builtIn, ?_, ?_⟩
  · intro hnone
    refine ⟨?_, fun hboolean => ofBase_of_no_builtIn hboolean hnone⟩
    intro hnamed hboolean
    subst hboolean
    exact CType.noConfusion (ofBase_boolean.symm.trans hnamed)
  · intro registers map base offset word bytes hword hread
    refine ⟨MemoryMap.length_read hread, ?_, ?_⟩
    · intro h
      rw [size_ofBase_iff.mpr h]
      exact Location.evaluate_eq_ok_iff.mpr (.memory hword hread)
    · intro hboolean hpos
      subst hboolean
      exact evaluate_boolean base offset word hword hread hpos

/-- Floating point numbers of ten bytes are not built in: they stay named and are taken whole. -/
theorem ten_byte_float_taken_whole :
    ofBase "long double" 4 10 = named "long double" 10 ∧
    (Location.stack ⟨6⟩ (-8)).evaluate
        ⟨Registers.empty.set ⟨6⟩ 0x1008,
          .captured ⟨[⟨0x1000, [0, 0, 0, 0, 0, 0, 0, 0x80, 0xff, 0x3f, 0xcc], none⟩]⟩⟩
        (ofBase "long double" 4 10).size =
      .ok (.bytes [0, 0, 0, 0, 0, 0, 0, 0x80, 0xff, 0x3f] (some 0x1000)) := by
  obtain ⟨-, -, hnamed, htaken⟩ := ofBase_exact_unless_boolean "long double" 4 10
  constructor
  · apply (hnamed ?_).mpr (by decide)
    intro type hbuilt
    cases hbuilt <;> decide
  · apply (htaken _ _ ⟨6⟩ (-8) 0x1008 _ rfl ?_).2.1 (by decide)
    exact MemoryMap.read_region (by decide) (by decide) (by decide) (by decide)

/-- A boolean of four bytes that is true by its second byte. The type that it becomes has one byte,
so that only the first is taken. -/
theorem four_byte_boolean_cut :
    (∀ type, BuiltIn 2 type → type.size ≠ 4) ∧
    (ofBase "bool32" 2 4).size ≠ 4 ∧ ofBase "bool32" 2 4 ≠ named "bool32" 4 ∧
    MemoryMap.read ⟨[⟨0x1000, [0, 1, 0, 0], none⟩]⟩ 0x1000 4 = .ok [0, 1, 0, 0] ∧
    (Location.stack ⟨6⟩ 0).evaluate
        ⟨Registers.empty.set ⟨6⟩ 0x1000, .captured ⟨[⟨0x1000, [0, 1, 0, 0], none⟩]⟩⟩
        (ofBase "bool32" 2 4).size =
      .ok (.bytes [0] (some 0x1000)) := by
  have hread : MemoryMap.read ⟨[⟨0x1000, [0, 1, 0, 0], none⟩]⟩ 0x1000 4 = .ok [0, 1, 0, 0] :=
    MemoryMap.read_region (by decide) (by decide) (by decide) (by decide)
  refine ⟨?_, by decide, by decide, hread, ?_⟩
  · intro type hbuilt
    cases hbuilt
    decide
  · exact evaluate_boolean ⟨6⟩ 0 0x1000 rfl hread (by decide)

end CType

end FrameLens
