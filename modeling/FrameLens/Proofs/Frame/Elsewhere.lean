import FrameLens.Proofs.Frame.Renumbering
import FrameLens.Proofs.Scope.Record

/-!
Scopes and variables away from a program counter. Additions there may give the scopes at the counter
more children and move the others about among them; what is seen at the counter stays as it is.
-/
namespace FrameLens

/-- What is seen of a scope from a counter: everything but its children, and of a scope that does
not hold the counter nothing. -/
def Scope.seenFrom? (pc : UInt64) (s : Scope) : Option Scope :=
  if s.contains pc then some { s with children := [] } else none

def seenFrom (pc : UInt64) (scopes : List Scope) : List Scope :=
  scopes.filterMap (Scope.seenFrom? pc)

theorem seenFrom_eq_map (pc : UInt64) (scopes : List Scope) :
    seenFrom pc scopes =
      (scopes.filter (·.contains pc)).map fun s => { s with children := [] } := by
  rw [← List.filterMap_eq_map, List.filterMap_filter]
  rfl

theorem seenFrom_of_map_eq {pc : UInt64} {scopes next : List Scope}
    (h : next.map (Scope.seenFrom? pc) = scopes.map (Scope.seenFrom? pc)) :
    seenFrom pc next = seenFrom pc scopes := by
  have heq := congrArg (List.filterMap id) h
  rwa [List.filterMap_map, List.filterMap_map] at heq

/-- Scopes that look alike from a counter have the same numbers, kinds, ranges and declarations. -/
theorem counterparts_of_seenFrom_eq {pc : UInt64} {scopes others : List Scope}
    (h : seenFrom pc scopes = seenFrom pc others) :
    List.Forall₂ (Counterpart id) (scopes.filter (·.contains pc))
      (others.filter (·.contains pc)) := by
  rw [seenFrom_eq_map, seenFrom_eq_map, ← List.forall₂_eq_eq_eq, List.forall₂_map_left_iff,
    List.forall₂_map_right_iff] at h
  apply h.imp
  intro s r hsr
  simp only [Scope.mk.injEq] at hsr
  obtain ⟨hid, hparent, hkind, hrange, hdeclarations, -⟩ := hsr
  exact ⟨hid.symm, by rw [hparent, Option.map_id_fun, id], hkind.symm, hrange.symm,
    by rw [hdeclarations]⟩

namespace BuilderCall

/-- The call is for a scope that does not hold the counter, one to be added or to declare in. -/
def Elsewhere (pc : UInt64) (scopes : List Scope) : BuilderCall → Prop
  | addBlock _ range => ¬ range.contains pc
  | addInlined _ range _ => ¬ range.contains pc
  | declare scope _ => ∀ s ∈ scopes[scope]?, ¬ s.contains pc

instance (pc : UInt64) (scopes : List Scope) : DecidablePred (Elsewhere pc scopes)
  | addBlock _ range => inferInstanceAs (Decidable (¬ range.contains pc))
  | addInlined _ range _ => inferInstanceAs (Decidable (¬ range.contains pc))
  | declare scope _ => inferInstanceAs (Decidable (∀ s ∈ scopes[scope]?, ¬ s.contains pc))

end BuilderCall

namespace ScopeBuilder

/-- Each call is elsewhere when its turn comes. -/
def AllElsewhere (pc : UInt64) : ScopeBuilder → List BuilderCall → Prop
  | _, [] => True
  | b, call :: rest => call.Elsewhere pc b.scopes ∧ AllElsewhere pc (b.after call) rest

instance decidableAllElsewhere (pc : UInt64) :
    (b : ScopeBuilder) → (calls : List BuilderCall) → Decidable (AllElsewhere pc b calls)
  | _, [] => isTrue trivial
  | b, call :: rest =>
    have := decidableAllElsewhere pc (b.after call) rest
    inferInstanceAs (Decidable (call.Elsewhere pc b.scopes ∧ AllElsewhere pc (b.after call) rest))

theorem seenFrom_withScope {pc : UInt64} {range : AddressRange} (h : ¬ range.contains pc)
    (scopes : List Scope) (parent : ScopeId) (kind : ScopeKind) :
    seenFrom pc (withScope scopes parent kind range) = seenFrom pc scopes := by
  have hparent : seenFrom pc (scopes.modify parent (Scope.adopt scopes.length)) =
      seenFrom pc scopes :=
    seenFrom_of_map_eq (map_modify _ _ fun s _ => rfl)
  have hnew : (Scope.bare scopes.length (some parent) kind range).seenFrom? pc = none := if_neg h
  rw [withScope, seenFrom, List.filterMap_append, List.filterMap_cons_none hnew,
    List.filterMap_nil, List.append_nil]
  exact hparent

theorem seenFrom_declare {pc : UInt64} {scopes : List Scope} {scope : ScopeId}
    (h : ∀ s ∈ scopes[scope]?, ¬ s.contains pc) (d : Declaration) :
    seenFrom pc (scopes.modify scope (Scope.declare scope d)) = seenFrom pc scopes := by
  apply seenFrom_of_map_eq
  apply map_modify
  intro s hs
  have hout : ¬ (Scope.declare scope d s).contains pc := h s hs
  rw [Scope.seenFrom?, Scope.seenFrom?, if_neg hout, if_neg (h s hs)]

/-- A call elsewhere is not seen. -/
theorem seenFrom_after {pc : UInt64} {b : ScopeBuilder} {call : BuilderCall}
    (h : call.Elsewhere pc b.scopes) :
    seenFrom pc (b.after call).scopes = seenFrom pc b.scopes := by
  rw [b.scopes_after call]
  split
  · cases call with
    | addBlock parent range => exact seenFrom_withScope h b.scopes parent .block
    | addInlined parent range site => exact seenFrom_withScope h b.scopes parent (.inlined site)
    | declare scope d => exact seenFrom_declare h d
  · rfl

theorem seenFrom_run {pc : UInt64} {b : ScopeBuilder} {calls : List BuilderCall}
    (h : AllElsewhere pc b calls) : seenFrom pc (b.run calls).scopes = seenFrom pc b.scopes := by
  induction calls generalizing b with
  | nil => rfl
  | cons call rest ih => exact (ih h.2).trans (seenFrom_after h.1)

theorem Reachable.run {b : ScopeBuilder} (hb : b.Reachable) (calls : List BuilderCall) :
    (b.run calls).Reachable := by
  obtain ⟨name, range, before, rfl⟩ := hb
  exact ⟨name, range, before ++ calls, List.foldl_append.symm⟩

/-- Building changes nothing but the order of children. -/
theorem map_of_build {α : Type} {view : Scope → α} {b : ScopeBuilder} {t : ScopeTree}
    (ht : b.build = .ok t) (h : ∀ s, view (sortChildren b.scopes s) = view s) :
    t.scopes.map view = b.scopes.map view := by
  rw [((build_eq_ok_iff b t).mp ht).1, arranged, List.map_map]
  exact List.map_congr_left fun s _ => h s

theorem root_range_run {b : ScopeBuilder} (hb : b.Reachable) {calls : List BuilderCall}
    {t u : ScopeTree} (ht : b.build = .ok t) (hu : (b.run calls).build = .ok u) :
    u.root.range = t.root.range := by
  have hpos : 0 < (b.scopes.map Scope.outline).length := by
    rw [List.length_map]
    exact List.length_pos_of_ne_nil b.nonempty
  have houtlines : (u.scopes.map Scope.outline)[0]? = (t.scopes.map Scope.outline)[0]? := by
    rw [map_of_build hu (fun _ => rfl), map_of_build ht (fun _ => rfl),
      (hb.linked.records_run calls).outlines, List.getElem?_append_left hpos]
  rw [List.getElem?_map, List.getElem?_map, u.getElem?_root, t.getElem?_root] at houtlines
  exact congrArg (fun outline => outline.2.2) (Option.some.inj houtlines)

end ScopeBuilder

namespace ScopeTree

/-- A chain is made of the scopes that hold the counter, and these are found without any regard to
the children that are listed. -/
theorem chainsAlike_of_seenFrom_eq {t u : ScopeTree} (ht : t.Sound) (hu : u.Sound) {pc : UInt64}
    (hrange : u.root.range = t.root.range) (h : seenFrom pc t.scopes = seenFrom pc u.scopes) :
    ChainsAlike id t u pc := by
  have hroot : u.root.contains pc = t.root.contains pc := by
    unfold Scope.contains
    rw [hrange]
  by_cases hpc : t.root.contains pc
  · refine Or.inl ⟨_, _, (ht.chain_eq_holding hpc).1, (hu.chain_eq_holding (hroot ▸ hpc)).1, ?_⟩
    unfold holding
    rw [List.forall₂_reverse_iff]
    exact counterparts_of_seenFrom_eq h
  · refine Or.inr ⟨.pcOutOfRange pc t.range, by rw [chain, if_neg hpc], ?_⟩
    rw [chain, if_neg (hroot ▸ hpc), range, hrange]
    rfl

end ScopeTree

namespace ScopeBuilder

/-- Scopes that are added away from a counter, and variables that are declared there, have no
influence on any answer at the counter, a refusal included, however symbols are demangled and
wherever memory is read from. -/
theorem elsewhere_calls_unseen (demangler : Demangler) {b : ScopeBuilder} (hb : b.Reachable)
    {pc : UInt64} {calls : List BuilderCall} (h : AllElsewhere pc b calls) {t u : ScopeTree}
    (ht : b.build = .ok t) (hu : (b.run calls).build = .ok u) :
    (t.chain pc).map (List.map Scope.id) = (u.chain pc).map (List.map Scope.id) ∧
    (t.frames demangler pc).map (List.map fun frame =>
      (frame.function, frame.site, frame.scopes.map Scope.id)) =
    (u.frames demangler pc).map (List.map fun frame =>
      (frame.function, frame.site, frame.scopes.map Scope.id)) ∧
    ∀ snapshot, t.variablesAt pc snapshot = u.variablesAt pc snapshot ∧
      ∀ index, t.frameVariablesAt demangler pc index snapshot =
        u.frameVariablesAt demangler pc index snapshot := by
  have hseen : seenFrom pc t.scopes = seenFrom pc u.scopes := by
    rw [seenFrom_of_map_eq (map_of_build ht fun _ => rfl),
      seenFrom_of_map_eq (map_of_build hu fun _ => rfl), seenFrom_run h]
  have halike := ScopeTree.chainsAlike_of_seenFrom_eq (ScopeTree.sound_of_build hb ht)
    (ScopeTree.sound_of_build (hb.run calls) hu) (root_range_run hb ht hu) hseen
  exact ⟨halike.chain_eq, halike.frames_eq demangler, fun snapshot =>
    ⟨halike.variablesAt_eq snapshot, fun index =>
      halike.frameVariablesAt_eq demangler index snapshot⟩⟩

/-- Blocks right before and right after the scopes that hold 0x14c in the function with two frames,
one of them with a variable of a name that is in use, and a call that comes to nothing. -/
def aroundNested : List BuilderCall := [
  .addBlock 0 ⟨0x130, 0x140⟩,
  .addBlock 1 ⟨0x150, 0x160⟩,
  .declare 4 ⟨"y", .char, .local, .constant [7], [], none, none⟩,
  .addInlined 0 ⟨0x160, 0x170⟩ ⟨"g", 9, none⟩,
  .addBlock 1 ⟨0x140, 0x148⟩,
  .addBlock 9 ⟨0x180, 0x190⟩]

theorem aroundNested_unseen : AllElsewhere 0x14c ScopeTree.nested aroundNested ∧
    ∃ t u, ScopeTree.nested.build = .ok t ∧ (ScopeTree.nested.run aroundNested).build = .ok u ∧
      t.root.children = [1] ∧ u.root.children = [3, 1, 5] ∧
      (u.chain 0x14c).map (List.map Scope.id) = .ok [2, 1, 0] ∧
      (t.chain 0x14c).map (List.map Scope.id) = (u.chain 0x14c).map (List.map Scope.id) ∧
      (u.frames .fewSymbols 0x14c).map (List.map InlineFrame.function) = .ok ["f", "main"] ∧
      (t.frames .fewSymbols 0x14c).map (List.map fun frame =>
        (frame.function, frame.site, frame.scopes.map Scope.id)) =
      (u.frames .fewSymbols 0x14c).map (List.map fun frame =>
        (frame.function, frame.site, frame.scopes.map Scope.id)) ∧
      ∀ snapshot, t.variablesAt 0x14c snapshot = u.variablesAt 0x14c snapshot := by
  have h : AllElsewhere 0x14c ScopeTree.nested aroundNested := by decide
  obtain ⟨hchain, hframes, hanswers⟩ :=
    elsewhere_calls_unseen .fewSymbols ⟨_, _, _, rfl⟩ h rfl rfl
  exact ⟨h, _, _, rfl, rfl, rfl, rfl, rfl, hchain, rfl, hframes,
    fun snapshot => (hanswers snapshot).1⟩

end ScopeBuilder

end FrameLens
