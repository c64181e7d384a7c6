import FrameLens.Proofs.Frame.Listing
import FrameLens.Proofs.Memory.Coverage

/-!
Snapshots that hold more than others. Regions that are added come after those that were there, and
are found only where none was found before, so what could be read is read as before.
-/
namespace FrameLens

namespace MemoryMap

/-- The same regions with others behind them. -/
def followedBy (m : MemoryMap) (further : List Region) : MemoryMap := ⟨m.regions ++ further⟩

variable {m : MemoryMap} (further : List Region)

theorem find?_followedBy {a : UInt64} {r : Region} (h : m.find? a = some r) :
    (m.followedBy further).find? a = some r := by
  unfold find? at h ⊢
  rw [followedBy, List.find?_append, h, Option.some_or]

/-- The walk comes to the same regions and takes the same pieces from them. -/
theorem collect_followedBy {cursor stop : UInt64} {bytes : List UInt8}
    (h : m.collect cursor stop = some bytes) :
    (m.followedBy further).collect cursor stop = some bytes := by
  induction cursor using walk_induction m stop generalizing bytes with
  | arrived cursor hend =>
    rw [collect_of_le hend] at h ⊢
    exact h
  | lost cursor before hnone => simp [collect_of_find?_none before hnone] at h
  | step cursor r hstep ih =>
    rw [hstep.collect_eq] at h
    obtain ⟨rest, hrest, rfl⟩ := Option.map_eq_some_iff.mp h
    exact collect_of_find? hstep.before (find?_followedBy further hstep.found) (ih hrest)

theorem read_followedBy {a length : UInt64} {bytes : List UInt8}
    (h : m.read a length = .ok bytes) : (m.followedBy further).read a length = .ok bytes := by
  obtain ⟨hend, hlength, hcollect⟩ := read_eq_ok_iff.mp h
  exact read_eq_ok_iff.mpr ⟨hend, hlength, collect_followedBy further hcollect⟩

end MemoryMap

/-- Every register that the first holds is in the second, with the same value. -/
def Registers.Within (registers more : Registers) : Prop :=
  ∀ r word, registers.get? r = some word → more.get? r = some word

section
variable {registers more : Registers} (hmore : registers.Within more) {map : MemoryMap}
  (further : List Region)
include hmore

/-- What a location gives is given again. -/
theorem Location.evaluate_extended {location : Location} {size : UInt64} {bytes : List UInt8}
    {address : Option UInt64}
    (h : location.evaluate ⟨registers, .captured map⟩ size = .ok (.bytes bytes address)) :
    location.evaluate ⟨more, .captured (map.followedBy further)⟩ size =
      .ok (.bytes bytes address) := by
  rw [evaluate_eq_ok_iff] at h ⊢
  cases h with
  | register hw => exact .register (hmore _ _ hw)
  | memory hw hread => exact .memory (hmore _ _ hw) (MemoryMap.read_followedBy further hread)
  | constant => exact .constant bytes

end

/-- An entry of a later listing beside the entry of an earlier one: a value that was there stays. -/
structure Retains (v w : ResolvedVariable) : Prop where
  name_eq : w.name = v.name
  type_eq : w.type = v.type
  kind_eq : w.kind = v.kind
  storage_eq : w.storage = v.storage
  register_eq : w.register = v.register
  eq_of_available : ¬ v.isUnavailable → w = v

theorem Shows.retains {pc : UInt64} {registers more : Registers} (hmore : registers.Within more)
    {map : MemoryMap} {further : List Region} {d : Declaration} {v w : ResolvedVariable}
    (hv : Shows pc ⟨registers, .captured map⟩ d v)
    (hw : Shows pc ⟨more, .captured (map.followedBy further)⟩ d w) : Retains v w := by
  refine ⟨hw.name_eq.trans hv.name_eq.symm, hw.type_eq.trans hv.type_eq.symm,
    hw.kind_eq.trans hv.kind_eq.symm, hw.storage_eq.trans hv.storage_eq.symm,
    hw.register_eq.trans hv.register_eq.symm, ?_⟩
  intro havailable
  obtain ⟨raw, he, hvalue, haddress⟩ := hv.found
  cases raw with
  | unavailable =>
    rw [ResolvedVariable.isUnavailable, hvalue, Value.isUnavailable_decode_iff] at havailable
    exact absurd rfl havailable
  | bytes bytes address =>
    have hagain : Shows pc ⟨more, .captured (map.followedBy further)⟩ d v :=
      ⟨hv.name_eq, hv.type_eq, hv.kind_eq, hv.storage_eq, hv.register_eq, _,
        Location.evaluate_extended hmore further he, hvalue, haddress⟩
    rw [← Declaration.resolve_eq_ok_iff] at hw hagain
    rw [hw] at hagain
    exact Except.ok.inj hagain

/-- Two listings of the same declarations stand beside each other entry by entry. -/
theorem retains_of_shows {pc : UInt64} {registers more : Registers} (hmore : registers.Within more)
    {map : MemoryMap} {further : List Region} {ds : List Declaration}
    {vs ws : List ResolvedVariable}
    (hv : List.Forall₂ (Shows pc ⟨registers, .captured map⟩) ds vs)
    (hw : List.Forall₂ (Shows pc ⟨more, .captured (map.followedBy further)⟩) ds ws) :
    List.Forall₂ Retains vs ws := by
  induction hv generalizing ws with
  | nil =>
    cases hw
    exact List.Forall₂.nil
  | cons hd _ ih =>
    cases hw with
    | cons he hrest => exact List.Forall₂.cons (hd.retains hmore he) (ih hrest)

namespace ScopeTree

/-- Registers and regions that are captured in addition take no value away and change none. -/
theorem variablesAt_retained {b : ScopeBuilder} (hb : b.Reachable) {t : ScopeTree}
    (ht : b.build = .ok t) {pc : UInt64} (hpc : t.root.contains pc)
    (hsize : ∀ s ∈ t.scopes, ∀ d ∈ s.declarations, d.type.size.toNat < MemoryMap.lengthLimit)
    {registers more : Registers} (hmore : registers.Within more) (map : MemoryMap)
    (further : List Region) :
    ∃ entries later, t.variablesAt pc ⟨registers, .captured map⟩ = .ok entries ∧
      t.variablesAt pc ⟨more, .captured (map.followedBy further)⟩ = .ok later ∧
      entries.length = later.length ∧ List.Forall₂ Retains entries later := by
  have h := sound_of_build hb ht
  obtain ⟨entries, hv, hshows⟩ := h.exists_variablesAt hpc hsize registers map
  obtain ⟨later, hw, hlater⟩ := h.exists_variablesAt hpc hsize more (map.followedBy further)
  have hretains := retains_of_shows hmore hshows hlater
  exact ⟨entries, later, hv, hw, hretains.length_eq, hretains⟩

/-- The sample program with only its frame base captured, and then with all its registers and a
region over the stack. -/
theorem sample_variables_retained :
    (Registers.empty.set ⟨6⟩ Sample.frameBase).Within Sample.registers ∧
    ∃ entries later,
      Sample.tree.variablesAt Sample.stopPc
        ⟨Registers.empty.set ⟨6⟩ Sample.frameBase, .captured Sample.memory⟩ = .ok entries ∧
      Sample.tree.variablesAt Sample.stopPc ⟨Sample.registers,
        .captured (Sample.memory.followedBy [⟨0xff0, List.replicate 32 0xff, none⟩])⟩ = .ok later ∧
      entries.length = later.length ∧ List.Forall₂ Retains entries later := by
  have hmore : (Registers.empty.set ⟨6⟩ Sample.frameBase).Within Sample.registers := by
    intro r word h
    rw [Registers.get?_set] at h
    split at h
    · next hr =>
      subst hr
      exact h
    · simp [Registers.get?, Registers.empty] at h
  have hbuild : sampleBuilder.build = .ok Sample.tree := rfl
  exact ⟨hmore, variablesAt_retained ⟨_, _, _, rfl⟩ hbuild
    (show Sample.tree.root.contains Sample.stopPc by decide) (by decide) hmore Sample.memory _⟩

end ScopeTree

end FrameLens
