import FrameLens.Proofs.Frame.PerFrame
import FrameLens.Proofs.Memory.Coverage
import FrameLens.Proofs.Variable.Decoding

/-!
The parts of a listed variable fit together. Storage class, register, address and value are worked
out one by one from the location and from what was found there; each of them tells about the others,
whatever the location, the type and the captured state.
-/
namespace FrameLens

/-- How the parts of a listed variable hang together, given the place where the variable is. -/
structure Coherent (registers : Registers) (location : Location) (v : ResolvedVariable) : Prop where
  register_iff : ∀ r, v.register = some r ↔ location = .register r
  in_register_iff : v.storage = .register ↔ ∃ r, v.register = some r
  has_address_iff : (∃ a, v.address = some a) ↔ v.storage = .stack ∧ ¬ v.isUnavailable
  address_eq : ∀ a, v.address = some a → ∃ base offset word, location = .stack base offset ∧
    registers.get? base = some word ∧ (a.toNat : Int) = (word.toNat + offset.toInt) % 2 ^ 64
  constant : v.storage = .constant → ¬ v.isUnavailable ∧ v.address = none ∧ v.register = none
  optimizedOut : v.storage = .optimizedOut →
    v.isUnavailable ∧ v.address = none ∧ v.register = none
  typed : v.storage = .register ∨ v.storage = .stack → v.type.isScalar →
    (v.value = .unavailable ∨ Value.OfType v.type v.value) ∧ ∀ raw, v.value ≠ .bytes raw

theorem Value.OfType.ne_bytes {type : CType} {value : Value} (h : OfType type value)
    (raw : List UInt8) : value ≠ .bytes raw := by
  cases h <;> simp

/-- A type with a reading of its own is read as such from a register and from memory, which give all
the bytes that it has. -/
theorem Location.Finds.typed {registers : Registers} {map : MemoryMap} {type : CType}
    {location : Location} {raw : RawValue} (h : location.Finds registers map type.size raw)
    (hscalar : type.isScalar) (hstored : ∀ bytes, location ≠ .constant bytes) :
    Value.decode type raw = .unavailable ∨ Value.OfType type (Value.decode type raw) := by
  obtain ⟨hlow, hhigh⟩ := CType.size_of_isScalar hscalar
  have hbytes {bytes : List UInt8} (hlen : bytes.length = type.size.toNat)
      (address : Option UInt64) : Value.OfType type (Value.decode type (.bytes bytes address)) := by
    rw [Value.decode_bytes hlow hhigh (Nat.le_of_eq hlen.symm)]
    exact Value.ofType_ofBytes hscalar _
  cases h with
  | @register r word hw =>
    have hlen : (Bytes.ofWord type.size.toNat word).length = type.size.toNat := by
      rw [Bytes.ofWord, Bytes.length_ofNat, Nat.min_eq_left hhigh]
    exact .inr (hbytes hlen none)
  | memory hw hread => exact .inr (hbytes (MemoryMap.length_read hread) _)
  | constant bytes => exact absurd rfl (hstored bytes)
  | noRegister | noBase | noMemory | nowhere => exact .inl rfl

theorem Shows.eq_ofRaw {pc : UInt64} {snapshot : Snapshot} {d : Declaration} {v : ResolvedVariable}
    (h : Shows pc snapshot d v) :
    ∃ raw, (d.locationAt pc).evaluate snapshot d.type.size = .ok raw ∧
      v = .ofRaw d (d.locationAt pc) raw := by
  have hresolved := (Declaration.resolve_eq_ok_iff pc snapshot d v).mpr h
  unfold Declaration.resolve at hresolved
  cases hraw : (d.locationAt pc).evaluate snapshot d.type.size with
  | error e => simp [hraw, Except.map] at hresolved
  | ok raw =>
    simp only [hraw, Except.map, Except.ok.injEq] at hresolved
    exact ⟨raw, rfl, hresolved.symm⟩

theorem Shows.coherent {pc : UInt64} {registers : Registers} {map : MemoryMap} {d : Declaration}
    {v : ResolvedVariable} (h : Shows pc ⟨registers, .captured map⟩ d v) :
    Coherent registers (d.locationAt pc) v := by
  obtain ⟨raw, hraw, rfl⟩ := h.eq_ofRaw
  have hfinds := Location.evaluate_eq_ok_iff.mp hraw
  have hunavailable : (ResolvedVariable.ofRaw d (d.locationAt pc) raw).isUnavailable ↔
      raw = .unavailable := Value.isUnavailable_decode_iff d.type raw
  generalize d.locationAt pc = location at hfinds hunavailable ⊢
  refine ⟨?_, ?_, ?_, ?_, ?_, ?_, ?_⟩
  · intro r
    cases location <;> simp [ResolvedVariable.ofRaw, Location.register?]
  · cases location <;> simp [ResolvedVariable.ofRaw, Location.register?, Location.storage]
  · rw [hunavailable]
    cases hfinds <;> simp [ResolvedVariable.ofRaw, RawValue.address?, Location.storage]
  · intro a ha
    cases hfinds with
    | @memory base offset word bytes hw hread =>
      obtain rfl : word + offset.toUInt64 = a := Option.some.inj ha
      exact ⟨base, offset, word, rfl, hw, Bytes.toNat_add_toUInt64 word offset⟩
    | register | constant | noRegister | noBase | noMemory | nowhere => contradiction
  · rw [hunavailable]
    cases hfinds <;>
      simp [ResolvedVariable.ofRaw, RawValue.address?, Location.storage, Location.register?]
  · rw [hunavailable]
    cases hfinds <;>
      simp [ResolvedVariable.ofRaw, RawValue.address?, Location.storage, Location.register?]
  · intro hstorage hscalar
    have hstored (bytes : List UInt8) : location ≠ .constant bytes := by
      rintro rfl
      simp [ResolvedVariable.ofRaw, Location.storage] at hstorage
    rcases hfinds.typed hscalar hstored with hnone | htyped
    · have hvalue : (ResolvedVariable.ofRaw d location raw).value = .unavailable := hnone
      simp [hvalue]
    · exact ⟨.inr htyped, htyped.ne_bytes⟩

namespace ScopeTree

theorem contains_of_variablesAt {t : ScopeTree} {pc : UInt64} {snapshot : Snapshot}
    {entries : List ResolvedVariable} (h : t.variablesAt pc snapshot = .ok entries) :
    t.root.contains pc := by
  by_contra hout
  unfold variablesAt chain at h
  simp [hout] at h

theorem contains_of_frames {t : ScopeTree} {demangler : Demangler} {pc : UInt64}
    {frames : List InlineFrame} (h : t.frames demangler pc = .ok frames) : t.root.contains pc := by
  by_contra hout
  unfold ScopeTree.frames chain at h
  simp [hout, Except.map] at h

theorem frameAt_eq_ok_iff {t : ScopeTree} {demangler : Demangler} {pc : UInt64} {index : Nat}
    {frame : InlineFrame} : t.frameAt demangler pc index = .ok frame ↔
      ∃ frames, t.frames demangler pc = .ok frames ∧ frames[index]? = some frame := by
  unfold frameAt
  cases t.frames demangler pc with
  | error e => simp
  | ok frames => cases h : frames[index]? <;> simp [h]

/-- The scopes of a frame are scopes of the tree. -/
theorem Sound.mem_of_frameAt {t : ScopeTree} (h : t.Sound) {demangler : Demangler} {pc : UInt64}
    {index : Nat} {frame : InlineFrame} (hframe : t.frameAt demangler pc index = .ok frame) :
    ∀ s ∈ frame.scopes, s ∈ t.scopes := by
  obtain ⟨frames, hframes, hindex⟩ := frameAt_eq_ok_iff.mp hframe
  obtain ⟨others, c, hothers, -, -, rfl, hmem⟩ :=
    h.frames_cover_chain demangler (contains_of_frames hframes)
  obtain rfl : frames = others := Except.ok.inj (hframes.symm.trans hothers)
  intro s hs
  exact hmem s (List.mem_flatMap.mpr ⟨frame, List.mem_of_getElem? hindex, hs⟩)

theorem Sound.exists_frameVariablesAt {t : ScopeTree} (h : t.Sound) {demangler : Demangler}
    {pc : UInt64} {index : Nat} {frame : InlineFrame}
    (hframe : t.frameAt demangler pc index = .ok frame)
    (hsize : ∀ s ∈ t.scopes, ∀ d ∈ s.declarations, d.type.size.toNat < MemoryMap.lengthLimit)
    (registers : Registers) (map : MemoryMap) :
    ∃ entries, t.frameVariablesAt demangler pc index ⟨registers, .captured map⟩ = .ok entries := by
  obtain ⟨entries, hshows⟩ := exists_listing pc registers map
    fun s hs => hsize s (h.mem_of_frameAt hframe s hs)
  refine ⟨entries, ?_⟩
  simp only [frameVariablesAt, hframe]
  exact (resolveScopes_eq_ok_iff _ _ _ _).mpr hshows

theorem shows_of_frameVariablesAt {t : ScopeTree} {demangler : Demangler} {pc : UInt64}
    {index : Nat} {snapshot : Snapshot} {entries : List ResolvedVariable}
    (h : t.frameVariablesAt demangler pc index snapshot = .ok entries) :
    ∃ frame, t.frameAt demangler pc index = .ok frame ∧
      List.Forall₂ (Shows pc snapshot) (visible frame.scopes) entries := by
  unfold frameVariablesAt at h
  cases hframe : t.frameAt demangler pc index with
  | error e => simp [hframe] at h
  | ok frame =>
    simp only [hframe] at h
    exact ⟨frame, rfl, (resolveScopes_eq_ok_iff _ _ _ _).mp h⟩

/-- The queries for a stop and for a frame answer with variables whose parts fit together, one for
each declaration that is seen. -/
theorem listed_variables_coherent (demangler : Demangler) {b : ScopeBuilder} (hb : b.Reachable)
    {t : ScopeTree} (ht : b.build = .ok t) (pc : UInt64) (registers : Registers) (map : MemoryMap)
    (hsize : ∀ s ∈ t.scopes, ∀ d ∈ s.declarations,
      d.type.size.toNat < MemoryMap.lengthLimit) :
    let snapshot : Snapshot := ⟨registers, .captured map⟩
    let fits (d : Declaration) (v : ResolvedVariable) : Prop :=
      Shows pc snapshot d v ∧ Coherent registers (d.locationAt pc) v
    (t.root.contains pc → ∃ entries, t.variablesAt pc snapshot = .ok entries) ∧
    (∀ entries, t.variablesAt pc snapshot = .ok entries →
      List.Forall₂ fits (t.seenAt pc) entries) ∧
    (∀ index frame, t.frameAt demangler pc index = .ok frame →
      ∃ entries, t.frameVariablesAt demangler pc index snapshot = .ok entries) ∧
    ∀ index entries, t.frameVariablesAt demangler pc index snapshot = .ok entries →
      ∃ frame, t.frameAt demangler pc index = .ok frame ∧
        List.Forall₂ fits (visible frame.scopes) entries := by
  intro snapshot fits
  have h := sound_of_build hb ht
  have hfits (d : Declaration) (v : ResolvedVariable) (hv : Shows pc snapshot d v) : fits d v :=
    ⟨hv, hv.coherent⟩
  refine ⟨?_, ?_, ?_, ?_⟩
  · intro hpc
    obtain ⟨entries, hentries, -⟩ := h.exists_variablesAt hpc hsize registers map
    exact ⟨entries, hentries⟩
  · intro entries hentries
    have hpc := contains_of_variablesAt hentries
    exact ((h.variablesAt_eq_ok_iff hpc snapshot entries).mp hentries).imp hfits
  · intro index frame hframe
    exact h.exists_frameVariablesAt hframe hsize registers map
  · intro index entries hentries
    obtain ⟨frame, hframe, hshows⟩ := shows_of_frameVariablesAt hentries
    exact ⟨frame, hframe, hshows.imp hfits⟩

/-- The sample program, where one value is on the stack, one was in a register that is lost, and one
is nowhere. -/
theorem sample_variables_coherent :
    ∃ entries innermost,
      Sample.tree.variablesAt Sample.stopPc ⟨Sample.registers, .captured Sample.memory⟩ =
        .ok entries ∧
      List.Forall₂ (fun d v => Coherent Sample.registers (d.locationAt Sample.stopPc) v)
        (Sample.tree.seenAt Sample.stopPc) entries ∧
      Sample.tree.frameVariablesAt .fewSymbols Sample.stopPc 0
          ⟨Sample.registers, .captured Sample.memory⟩ =
        .ok innermost ∧
      List.Forall₂ (fun d v => Coherent Sample.registers (d.locationAt Sample.stopPc) v)
        (visible [Sample.tree.scopes.get ⟨1, by decide⟩]) innermost := by
  have hbuild : sampleBuilder.build = .ok Sample.tree := rfl
  obtain ⟨hstop, hall, hframe, hinnermost⟩ := listed_variables_coherent .fewSymbols
    ⟨_, _, _, rfl⟩ hbuild Sample.stopPc Sample.registers Sample.memory (by decide)
  obtain ⟨entries, hentries⟩ := hstop (by decide)
  obtain ⟨innermost, hquery⟩ := hframe 0 _ rfl
  obtain ⟨frame, hfound, hshown⟩ := hinnermost 0 innermost hquery
  obtain rfl := Except.ok.inj hfound
  exact ⟨entries, innermost, hentries, (hall entries hentries).imp fun _ _ h => h.2, hquery,
    hshown.imp fun _ _ h => h.2⟩

end ScopeTree

end FrameLens
