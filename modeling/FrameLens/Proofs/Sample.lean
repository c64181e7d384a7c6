import FrameLens.Proofs.Frame.Listing
import FrameLens.Proofs.Memory.Coverage
import FrameLens.Proofs.Scope.Frames
import FrameLens.Proofs.Variable.Decoding

/-!
The sample at every stop: which frames there are at a counter, and what the variables of each frame
look like for any content of the registers.
-/
namespace FrameLens

namespace Shows

variable {pc : UInt64} {registers : Registers} {map : MemoryMap} {d : Declaration}
  {v : ResolvedVariable} (h : Shows pc ⟨registers, .captured map⟩ d v)
include h

theorem description_eq {front : String}
    (hfront : "(" ++ d.type.text ++ ") " ++ d.name ++ " = " = front) :
    v.description = front ++ v.value.text := by
  rw [← hfront, ResolvedVariable.description, h.type_eq, h.name_eq]

theorem exists_finds : ∃ raw, (d.locationAt pc).Finds registers map d.type.size raw ∧
    v.value = Value.decode d.type raw := by
  obtain ⟨raw, he, hvalue, -⟩ := h.found
  exact ⟨raw, Location.evaluate_eq_ok_iff.mp he, hvalue⟩

theorem value_of_register (htype : d.type.isScalar) {r : Register}
    (hd : d.locationAt pc = .register r) :
    v.value = ((registers.get? r).map (Value.ofWord d.type)).getD .unavailable := by
  obtain ⟨hlow, hhigh⟩ := CType.size_of_isScalar htype
  obtain ⟨raw, hfinds, hvalue⟩ := h.exists_finds
  rw [hvalue]
  rw [hd] at hfinds
  cases hfinds with
  | @register _ word hword =>
    rw [hword, Bytes.ofWord, Nat.min_eq_left hhigh]
    exact Value.decode_word hlow hhigh List.prefix_rfl none
  | noRegister hnone =>
    rw [hnone]
    rfl

theorem value_of_nowhere (hd : d.locationAt pc = .unavailable) : v.value = .unavailable := by
  obtain ⟨raw, hfinds, hvalue⟩ := h.exists_finds
  rw [hd] at hfinds
  cases hfinds
  exact hvalue

end Shows

namespace Sample

def mainScope : Scope := tree.root

def callScope : Scope := tree.scopes.getLast tree.nonempty

/-- The number in the four bytes at an address, as far as the stack has them. -/
def stackText (a : Nat) : String :=
  if 0xf00 ≤ a ∧ a + 4 ≤ 0x1100 then toString (Bytes.numberAt stack.data (a - 0xf00))
  else "<unavailable>"

/-- What `used` looks like, which is eight bytes below the frame base. -/
def usedText (base : UInt64) : String := stackText ((2 ^ 64 + base.toNat - 8) % 2 ^ 64)

def pointerText : Option UInt64 → String
  | some word => "0x" ++ Text.hexPadded 16 word.toNat
  | none => "<unavailable>"

/-- The lines of the call, by what is in the register of `unused1` and in the frame pointer. -/
def callLines (first : Option UInt64) (base : UInt64) : List String :=
  ["(void *) unused1 = " ++ pointerText first, "(int) used = " ++ usedText base,
    "(int) unused2 = <unavailable>"]

def mainLines (argc argv : UInt64) : List String :=
  ["(int) argc = " ++ toString (Int.bmod argc.toNat (2 ^ 32)),
    "(char **) argv = " ++ pointerText (some argv)]

theorem stack_base : stack.base.toNat = 0xf00 := rfl

theorem stack_size : stack.size = 0x200 := by
  rw [Region.size, stack, List.length_append, List.length_append, List.length_replicate,
    List.length_replicate, Bytes.length_ofNat]

theorem stack_read_iff {a : UInt64} {bytes : List UInt8} : memory.read a 4 = .ok bytes ↔
    0xf00 ≤ a.toNat ∧ a.toNat + 4 ≤ 0x1100 ∧
      bytes = (stack.data.drop (a.toNat - 0xf00)).take 4 := by
  have hfour : (4 : UInt64).toNat = 4 := rfl
  have hpos : 0 < (4 : UInt64).toNat := by decide
  have hshort : (4 : UInt64).toNat < MemoryMap.lengthLimit := by decide
  have hinside := MemoryMap.exists_read_within_iff (r := stack) (a := a) hpos hshort
  have hread := MemoryMap.read_within (r := stack) (a := a) hpos hshort
  rw [stack_base, stack_size, hfour] at hinside hread
  have hlast : 0x1100 ≤ lastAddress := by decide
  constructor
  · intro h
    obtain ⟨hlow, hhigh, hend⟩ := hinside.mp ⟨bytes, h⟩
    exact ⟨hlow, by omega, Except.ok.inj (h.symm.trans (hread hlow hhigh hend))⟩
  · rintro ⟨hlow, hhigh, hbytes⟩
    rw [hbytes]
    exact hread hlow (by omega) (by omega)

theorem text_of_stack_read {a : UInt64} {bytes : List UInt8} (h : memory.read a 4 = .ok bytes)
    (address : Option UInt64) :
    (Value.decode int (.bytes bytes address)).text = stackText a.toNat := by
  obtain ⟨hlow, hhigh, hbytes⟩ := stack_read_iff.mp h
  have hlen : bytes.length = 4 := MemoryMap.length_read h
  have hinside : a.toNat - 0xf00 + 4 ≤ stack.data.length := by
    have hsize : stack.data.length = 0x200 := stack_size
    omega
  have hsize : 1 ≤ int.size.toNat ∧ int.size.toNat ≤ 8 := Width.size_bounds .w32
  have hdecode : Value.decode int (.bytes bytes address) = Value.ofBytes int (bytes.take 4) :=
    Value.decode_bytes hsize.1 hsize.2 hlen.ge address
  rw [hdecode, List.take_of_length_le hlen.le, int, Value.text_signed (by omega), hbytes,
    Bytes.toInt_eq_numberAt hinside, stackText, if_pos ⟨hlow, hhigh⟩]

theorem stackText_of_unread {a : UInt64} {e : ReadError} (h : memory.read a 4 = .error e) :
    stackText a.toNat = "<unavailable>" := by
  apply if_neg
  rintro ⟨hlow, hhigh⟩
  have hread := stack_read_iff.mpr ⟨hlow, hhigh, rfl⟩
  simp [hread] at h

section
variable {pc : UInt64} {registers : Registers} {vs : List ResolvedVariable}

theorem text_of_pointer {d : Declaration} {v : ResolvedVariable} {target : CType} {r : Register}
    (h : Shows pc ⟨registers, .captured memory⟩ d v) (htype : d.type = .pointer target)
    (hd : d.locationAt pc = .register r) : v.value.text = pointerText (registers.get? r) := by
  have hvalue := h.value_of_register (by rw [htype]; rfl) hd
  rw [hvalue, htype]
  cases registers.get? r with
  | none => rfl
  | some word => exact Value.text_pointer target word

theorem text_of_int {d : Declaration} {v : ResolvedVariable} {r : Register} {word : UInt64}
    (h : Shows pc ⟨registers, .captured memory⟩ d v) (htype : d.type = int)
    (hd : d.locationAt pc = .register r) (hr : registers.get? r = some word) :
    v.value.text = toString (Int.bmod word.toNat (2 ^ 32)) := by
  have hvalue := h.value_of_register (by rw [htype]; rfl) hd
  have hlen : (Bytes.ofNat 4 word.toNat).length ≤ 8 := by rw [Bytes.length_ofNat]; decide
  rw [hvalue, htype, hr, ← Bytes.toInt_ofNat 4]
  exact Value.text_signed hlen .w32

theorem text_of_used {d : Declaration} {v : ResolvedVariable}
    (h : Shows pc ⟨registers, .captured memory⟩ d v) (htype : d.type = int)
    (hd : d.locationAt pc = .stack ⟨6⟩ (-8)) {base : UInt64}
    (hbase : registers.get? ⟨6⟩ = some base) : v.value.text = usedText base := by
  have haddress : (base + (-8 : Int64).toUInt64).toNat = (2 ^ 64 + base.toNat - 8) % 2 ^ 64 := by
    have hsum := Bytes.toNat_add_toUInt64 base (-8)
    have hoffset : (-8 : Int64).toInt = -8 := by decide
    omega
  obtain ⟨raw, hfinds, hvalue⟩ := h.exists_finds
  rw [hvalue, htype, usedText, ← haddress]
  rw [hd, htype] at hfinds
  cases hfinds with
  | @memory _ _ word bytes hword hread =>
    obtain rfl : base = word := Option.some.inj (hbase.symm.trans hword)
    exact text_of_stack_read hread _
  -- the frame pointer is known, so only its stack can be missing
  | noBase hnone => simp [hbase] at hnone
  | @noMemory _ _ word _ _ hword hread =>
    obtain rfl : base = word := Option.some.inj (hbase.symm.trans hword)
    exact (stackText_of_unread hread).symm

theorem lines_of_call {base : UInt64} (hbase : registers.get? ⟨6⟩ = some base)
    (h : List.Forall₂ (Shows pc ⟨registers, .captured memory⟩) callScope.declarations vs) :
    vs.map ResolvedVariable.description = callLines (registers.get? ⟨3⟩) base := by
  obtain _ | ⟨hfirst, _ | ⟨hused, _ | ⟨hlast, _ | _⟩⟩⟩ := h
  have hpointer := text_of_pointer hfirst rfl rfl
  have hnumber := text_of_used hused rfl rfl hbase
  have hgone := hlast.value_of_nowhere rfl
  rw [List.map_cons, List.map_cons, List.map_cons, List.map_nil, hfirst.description_eq rfl,
    hused.description_eq rfl, hlast.description_eq rfl, hpointer, hnumber, hgone]
  rfl

theorem lines_of_main {argc argv : UInt64} (hargc : registers.get? ⟨5⟩ = some argc)
    (hargv : registers.get? ⟨4⟩ = some argv)
    (h : List.Forall₂ (Shows pc ⟨registers, .captured memory⟩) mainScope.declarations vs) :
    vs.map ResolvedVariable.description = mainLines argc argv := by
  obtain _ | ⟨hfirst, _ | ⟨hlast, _ | _⟩⟩ := h
  have hnumber := text_of_int hfirst rfl rfl hargc
  have hpointer := text_of_pointer hlast rfl rfl
  rw [hargv] at hpointer
  rw [List.map_cons, List.map_cons, List.map_nil, hfirst.description_eq rfl,
    hlast.description_eq rfl, hnumber, hpointer]
  rfl

end

theorem sound : tree.Sound :=
  ScopeTree.sound_of_build (b := ScopeTree.sampleBuilder) ⟨_, _, _, rfl⟩ rfl

def mainFrame : InlineFrame := ⟨"main", none, [mainScope]⟩

def callFrame : InlineFrame := ⟨"f", some call, [callScope]⟩

def InCall (pc : UInt64) : Prop := 0x140 ≤ pc.toNat ∧ pc.toNat < 0x160

instance (pc : UInt64) : Decidable (InCall pc) := inferInstanceAs (Decidable (_ ∧ _))

theorem callScope_contains_iff {pc : UInt64} : callScope.contains pc ↔ InCall pc :=
  AddressRange.contains_iff

/-- The frames at a counter in the function. Neither name begins like a mangled symbol. -/
def framesAt (pc : UInt64) : List InlineFrame :=
  if InCall pc then [callFrame, mainFrame] else [mainFrame]

section
variable {pc : UInt64} (h : mainRange.contains pc)
include h

theorem chain_eq : tree.chain pc = .ok ((framesAt pc).flatMap InlineFrame.scopes) := by
  have hmain : mainScope.contains pc = true := h
  have hscopes : tree.scopes = [mainScope, callScope] := rfl
  rw [(sound.chain_eq_holding h).1, ScopeTree.holding, hscopes, framesAt]
  by_cases hin : InCall pc
  · have hcall : callScope.contains pc = true := callScope_contains_iff.mpr hin
    simp only [List.filter_cons, hmain, hcall, if_pos hin]
    rfl
  · have hcall : callScope.contains pc = false :=
      Bool.eq_false_iff.mpr (callScope_contains_iff.not.mpr hin)
    simp only [List.filter_cons, hmain, hcall, if_neg hin]
    rfl

theorem frames_eq_framesAt (demangler : Demangler) :
    tree.frames demangler pc = .ok (framesAt pc) := by
  rw [ScopeTree.frames_of_chain demangler (chain_eq h), framesAt]
  split <;> rfl

end

end Sample

end FrameLens
