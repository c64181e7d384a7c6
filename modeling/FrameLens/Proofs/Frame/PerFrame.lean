import FrameLens.Proofs.Frame.Listing
import FrameLens.Proofs.Scope.Frames

/-!
The variables at a stop, frame by frame. A frame hides names within its own scopes only. Put one
after the other, without the names that came before, the listings of the frames are the listing of
the stop.
-/
namespace FrameLens

theorem shows_eraseDups {pc : UInt64} {snapshot : Snapshot} {ds : List Declaration}
    {vs : List ResolvedVariable} (h : List.Forall₂ (Shows pc snapshot) ds vs) :
    List.Forall₂ (Shows pc snapshot) (ds.eraseDupsBy fun d e => d.name == e.name)
      (vs.eraseDupsBy fun v w => v.name == w.name) := by
  -- what remains behind the first element is a filtered list, so the induction is on the length
  induction hn : ds.length using Nat.strong_induction_on generalizing ds vs with
  | _ n ih =>
    subst hn
    cases h with
    | nil => exact List.Forall₂.nil
    | @cons d v ds vs hd hrest =>
      rw [List.eraseDupsBy_cons, List.eraseDupsBy_cons]
      have hlen : (ds.filter fun e => (e.name == d.name) = false).length < (d :: ds).length :=
        Nat.lt_succ_of_le (List.length_filter_le _ ds)
      have hfilter : List.Forall₂ (Shows pc snapshot)
          (ds.filter fun e => (e.name == d.name) = false)
          (vs.filter fun w => (w.name == v.name) = false) := by
        apply List.rel_filter _ hrest
        intro e w hw
        simp only [hw.name_eq, hd.name_eq]
      exact List.Forall₂.cons hd (ih _ hlen hfilter rfl)

theorem prefix_eraseDups {vs : List ResolvedVariable} (hn : (vs.map ResolvedVariable.name).Nodup)
    (ws : List ResolvedVariable) :
    vs <+: (vs ++ ws).eraseDupsBy fun v w => v.name == w.name := by
  induction vs generalizing ws with
  | nil => exact List.nil_prefix
  | cons v vs ih =>
    rw [List.map_cons, List.nodup_cons] at hn
    have hkeep : (vs.filter fun w => (w.name == v.name) = false) = vs := by
      apply List.filter_eq_self.mpr
      intro w hw
      have hne : w.name ≠ v.name := fun he => hn.1 (he ▸ List.mem_map_of_mem hw)
      simpa using hne
    rw [List.cons_append, List.eraseDupsBy_cons, List.filter_append, hkeep, List.prefix_cons_inj]
    exact ih hn.2 _

theorem resolveScopes_eq_ok_iff (pc : UInt64) (snapshot : Snapshot) (scopes : List Scope)
    (vs : List ResolvedVariable) :
    ScopeTree.resolveScopes pc snapshot scopes = .ok vs ↔
      List.Forall₂ (Shows pc snapshot) (visible scopes) vs := by
  rw [ScopeTree.resolveScopes, ← Declaration.resolveAll_eq_ok_iff]
  cases Declaration.resolveAll pc snapshot (visible scopes) <;> simp

theorem exists_listings (pc : UInt64) (registers : Registers) (map : MemoryMap)
    {frames : List InlineFrame}
    (hsize : ∀ s ∈ frames.flatMap InlineFrame.scopes, ∀ d ∈ s.declarations,
      d.type.size.toNat < MemoryMap.lengthLimit) :
    ∃ listings, List.Forall₂ (fun frame listing =>
      List.Forall₂ (Shows pc ⟨registers, .captured map⟩) (visible frame.scopes) listing)
      frames listings := by
  induction frames with
  | nil => exact ⟨[], List.Forall₂.nil⟩
  | cons frame rest ih =>
    rw [List.flatMap_cons, List.forall_mem_append] at hsize
    obtain ⟨listing, hlisting⟩ := exists_listing pc registers map hsize.1
    obtain ⟨listings, hlistings⟩ := ih hsize.2
    exact ⟨listing :: listings, List.Forall₂.cons hlisting hlistings⟩

/-- Hiding names frame by frame and then across the frames is hiding them once. -/
theorem shows_merged {pc : UInt64} {snapshot : Snapshot} {frames : List InlineFrame}
    {listings : List (List ResolvedVariable)}
    (h : List.Forall₂ (fun frame listing =>
      List.Forall₂ (Shows pc snapshot) (visible frame.scopes) listing) frames listings) :
    List.Forall₂ (Shows pc snapshot) (visible (frames.flatMap InlineFrame.scopes))
      (listings.flatten.eraseDupsBy fun v w => v.name == w.name) := by
  rw [visible_flatMap]
  apply shows_eraseDups
  apply List.rel_flatten
  rwa [List.forall₂_map_left_iff]

namespace ScopeTree

section
variable {t : ScopeTree} {demangler : Demangler} {pc : UInt64} {frames : List InlineFrame}
  (hframes : t.frames demangler pc = .ok frames)
include hframes

theorem frameVariablesAt_eq (index : Nat) (snapshot : Snapshot) :
    t.frameVariablesAt demangler pc index snapshot =
      match frames[index]? with
      | some frame => resolveScopes pc snapshot frame.scopes
      | none => .error (.noSuchFrame index frames.length) := by
  simp only [frameVariablesAt, frameAt, hframes]
  cases frames[index]? <;> rfl

/-- Given the listings of all frames, the queries for single frames give these and no others. -/
theorem frameVariablesAt_eq_ok_iff {snapshot : Snapshot} {listings : List (List ResolvedVariable)}
    (h : List.Forall₂ (fun frame listing =>
      List.Forall₂ (Shows pc snapshot) (visible frame.scopes) listing) frames listings)
    (index : Nat) :
    (∀ listing, t.frameVariablesAt demangler pc index snapshot = .ok listing ↔
      listings[index]? = some listing) ∧
    (t.frameVariablesAt demangler pc index snapshot = .error (.noSuchFrame index frames.length) ↔
      frames.length ≤ index) := by
  rw [frameVariablesAt_eq hframes]
  have hlen := h.length_eq
  by_cases hi : index < frames.length
  · have hshown := (resolveScopes_eq_ok_iff _ _ _ _).mpr (h.get hi (hlen ▸ hi))
    rw [List.getElem?_eq_getElem hi, List.getElem?_eq_getElem (hlen ▸ hi)]
    simp only [List.get_eq_getElem] at hshown
    simp [hshown, hi]
  · have hout := Nat.le_of_not_lt hi
    rw [List.getElem?_eq_none hout, List.getElem?_eq_none (hlen ▸ hout)]
    simp [hout]

end

/-- Outside the function both queries are refused, and in the same way. -/
theorem out_of_range_iff (t : ScopeTree) (demangler : Demangler) (pc : UInt64) (index : Nat)
    (snapshot : Snapshot) (p : UInt64) (r : AddressRange) :
    (t.variablesAt pc snapshot = .error (.pcOutOfRange p r) ↔
      ¬ t.root.contains pc ∧ p = pc ∧ r = t.root.range) ∧
    (t.frameVariablesAt demangler pc index snapshot = .error (.pcOutOfRange p r) ↔
      ¬ t.root.contains pc ∧ p = pc ∧ r = t.root.range) := by
  have hscopes (scopes : List Scope) :
      resolveScopes pc snapshot scopes ≠ .error (.pcOutOfRange p r) := by
    unfold resolveScopes
    split <;> simp
  by_cases hpc : t.root.contains pc
  · have hframes : t.frames demangler pc =
        .ok (InlineFrame.split demangler [] (t.descend pc t.size t.root [t.root])) := by
      rw [frames, chain, if_pos hpc]
      rfl
    rw [frameVariablesAt_eq hframes, variablesAt, chain, if_pos hpc]
    refine ⟨by simp [hscopes, hpc], ?_⟩
    split <;> simp [hscopes, hpc]
  · simp [variablesAt, frameVariablesAt, frameAt, frames, chain, hpc, range, Except.map, eq_comm]

/-- The listing of a stop is made of the listings of its frames, which are there for the frames at
the stop and for no others; it starts with that of the innermost frame. -/
theorem variablesAt_merges_frames (demangler : Demangler) {b : ScopeBuilder} (hb : b.Reachable)
    {t : ScopeTree} (ht : b.build = .ok t) (pc : UInt64) (registers : Registers) (map : MemoryMap)
    (hsize : ∀ s ∈ t.scopes, ∀ d ∈ s.declarations,
      d.type.size.toNat < MemoryMap.lengthLimit) :
    let snapshot : Snapshot := ⟨registers, .captured map⟩
    (∀ index p r,
      (t.variablesAt pc snapshot = .error (.pcOutOfRange p r) ↔
        ¬ t.root.contains pc ∧ p = pc ∧ r = t.root.range) ∧
      (t.frameVariablesAt demangler pc index snapshot = .error (.pcOutOfRange p r) ↔
        ¬ t.root.contains pc ∧ p = pc ∧ r = t.root.range)) ∧
    (t.root.contains pc → ∃ frames, ∃ listings : List (List ResolvedVariable),
      t.frames demangler pc = .ok frames ∧
      (∀ frame ∈ frames, (frame.scopes.map Scope.id).filterMap t.get? = frame.scopes) ∧
      listings.length = frames.length ∧
      (∀ index, (∀ listing, t.frameVariablesAt demangler pc index snapshot = .ok listing ↔
          listings[index]? = some listing) ∧
        (t.frameVariablesAt demangler pc index snapshot =
            .error (.noSuchFrame index frames.length) ↔ frames.length ≤ index)) ∧
      t.variablesAt pc snapshot =
        .ok (listings.flatten.eraseDupsBy fun v w => v.name == w.name) ∧
      ∃ innermost, t.frameVariablesAt demangler pc 0 snapshot = .ok innermost ∧
        innermost <+: listings.flatten.eraseDupsBy fun v w => v.name == w.name) := by
  intro snapshot
  refine ⟨fun index p r => out_of_range_iff t demangler pc index snapshot p r, fun hpc => ?_⟩
  have h := sound_of_build hb ht
  obtain ⟨frames, c, hframes, hchain, hne, rfl, hmem⟩ := h.frames_cover_chain demangler hpc
  obtain ⟨listings, hlistings⟩ := exists_listings pc registers map
    fun s hs d hd => hsize s (hmem s hs) d hd
  have hquery := frameVariablesAt_eq_ok_iff hframes hlistings
  refine ⟨frames, listings, hframes, ?_, hlistings.length_eq.symm, hquery, ?_, ?_⟩
  · intro frame hframe
    apply h.filterMap_get?_ids
    intro s hs
    exact hmem s (List.mem_flatMap.mpr ⟨frame, hframe, hs⟩)
  · rw [variablesAt, hchain]
    exact (resolveScopes_eq_ok_iff _ _ _ _).mpr (shows_merged hlistings)
  · cases hlistings with
    | nil => exact absurd rfl hne
    | @cons frame listing _ rest hfirst _ =>
      refine ⟨listing, ((hquery 0).1 listing).mpr rfl, ?_⟩
      rw [List.flatten_cons]
      apply prefix_eraseDups
      rw [names_eq_of_shows hfirst]
      exact nodup_names_firstOfEachName _ _

/-- A function and a call inlined in it that both declare `x`; a block of the call declares `y`. -/
def nested : ScopeBuilder :=
  (ScopeBuilder.start "main" ⟨0x100, 0x200⟩).run [
    .declare 0 ⟨"x", .bool, .parameter, .constant [1], [], none, none⟩,
    .addInlined 0 ⟨0x140, 0x160⟩ ⟨"f", 7, none⟩,
    .declare 1 ⟨"x", .char, .parameter, .register ⟨5⟩, [], none, none⟩,
    .addBlock 1 ⟨0x148, 0x150⟩,
    .declare 2 ⟨"y", .bool, .local, .unavailable, [], none, none⟩]

def nestedTree : ScopeTree where
  scopes := nested.scopes
  nonempty := nested.nonempty

theorem nested_listed_by_frame :
    nested.build = .ok nestedTree ∧ nestedTree.root.contains 0x148 ∧
    ∃ frames, ∃ listings : List (List ResolvedVariable),
      nestedTree.frames .fewSymbols 0x148 = .ok frames ∧
      listings.length = frames.length ∧
      nestedTree.variablesAt 0x148 ⟨Sample.registers, .captured .empty⟩ =
        .ok (listings.flatten.eraseDupsBy fun v w => v.name == w.name) ∧
      nestedTree.frameVariablesAt .fewSymbols 0x148 2
          ⟨Sample.registers, .captured .empty⟩ =
        .error (.noSuchFrame 2 2) := by
  have hbuild : nested.build = .ok nestedTree := rfl
  have hpc : nestedTree.root.contains 0x148 := by decide
  obtain ⟨-, hinside⟩ := variablesAt_merges_frames .fewSymbols ⟨_, _, _, rfl⟩ hbuild 0x148
    Sample.registers .empty (by decide)
  obtain ⟨frames, listings, hframes, -, hlen, hquery, hall, -⟩ := hinside hpc
  have hdepth : frames.length = 2 := by
    have hsplit : (nestedTree.frames .fewSymbols 0x148).map List.length = .ok 2 := rfl
    rw [hframes] at hsplit
    exact Except.ok.inj hsplit
  have hout := (hquery 2).2
  rw [hdepth] at hout
  exact ⟨hbuild, hpc, frames, listings, hframes, hlen, hall, hout.mpr (Nat.le_refl 2)⟩

end ScopeTree

end FrameLens
