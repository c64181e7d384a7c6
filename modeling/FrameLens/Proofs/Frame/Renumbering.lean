import FrameLens.Proofs.Frame.PerFrame
import FrameLens.Proofs.Scope.Renumbering

/-!
The variables at a stop do not depend on the order in which scopes were added. A declaration knows
the number of its scope, but neither visibility nor the value of a variable looks at it.
-/
namespace FrameLens

theorem firstOfEachName_map_detached (seen : List String) (ds : List Declaration) :
    firstOfEachName seen (ds.map Declaration.detached) =
      (firstOfEachName seen ds).map Declaration.detached := by
  induction ds generalizing seen with
  | nil => rfl
  | cons d rest ih =>
    have hname : d.detached.name = d.name := rfl
    by_cases hd : d.name ∈ seen
    · simp only [List.map_cons, firstOfEachName, hname, hd, ↓reduceIte, ih]
    · simp only [List.map_cons, firstOfEachName, hname, hd, ↓reduceIte, ih]

theorem Declaration.resolveAll_map_detached (pc : UInt64) (snapshot : Snapshot)
    (ds : List Declaration) :
    resolveAll pc snapshot (ds.map Declaration.detached) = resolveAll pc snapshot ds := by
  induction ds with
  | nil => rfl
  | cons d rest ih =>
    have hresolve : d.detached.resolve pc snapshot = d.resolve pc snapshot := rfl
    rw [List.map_cons, resolveAll, resolveAll, hresolve, ih]

section
variable {rename : ScopeId → ScopeId}

theorem ids_eq_of_counterparts {c d : List Scope} (h : List.Forall₂ (Counterpart rename) c d) :
    c.map (fun s => rename s.id) = d.map Scope.id := by
  rw [← List.forall₂_eq_eq_eq]
  apply List.rel_map _ h
  intro s r hsr
  exact hsr.id_eq.symm

theorem visible_eq_of_counterparts {c d : List Scope}
    (h : List.Forall₂ (Counterpart rename) c d) :
    (visible c).map Declaration.detached = (visible d).map Declaration.detached := by
  have hall : (c.flatMap Scope.declarations).map Declaration.detached =
      (d.flatMap Scope.declarations).map Declaration.detached := by
    induction h with
    | nil => rfl
    | cons hsr _ ih =>
      rw [List.flatMap_cons, List.flatMap_cons, List.map_append, List.map_append,
        hsr.declarations_eq, ih]
  unfold visible
  rw [← firstOfEachName_map_detached, hall, firstOfEachName_map_detached]

theorem resolveScopes_eq_of_counterparts (pc : UInt64) (snapshot : Snapshot) {c d : List Scope}
    (h : List.Forall₂ (Counterpart rename) c d) :
    ScopeTree.resolveScopes pc snapshot c = ScopeTree.resolveScopes pc snapshot d := by
  unfold ScopeTree.resolveScopes
  rw [← Declaration.resolveAll_map_detached, visible_eq_of_counterparts h,
    Declaration.resolveAll_map_detached]

theorem labels_eq_of_counterparts {frames others : List InlineFrame}
    (h : List.Forall₂ (FrameCounterpart rename) frames others) :
    (frames.map fun frame => (frame.function, frame.site, frame.scopes.map fun s => rename s.id)) =
      others.map fun frame => (frame.function, frame.site, frame.scopes.map Scope.id) := by
  rw [← List.forall₂_eq_eq_eq]
  apply List.rel_map _ h
  intro frame other hframe
  dsimp only
  rw [hframe.function_eq, hframe.site_eq, ids_eq_of_counterparts hframe.scopes]

theorem listings_eq_of_counterparts (pc : UInt64) (snapshot : Snapshot)
    {frames others : List InlineFrame}
    (h : List.Forall₂ (FrameCounterpart rename) frames others) :
    (frames.map fun frame => ScopeTree.resolveScopes pc snapshot frame.scopes) =
      others.map fun frame => ScopeTree.resolveScopes pc snapshot frame.scopes := by
  rw [← List.forall₂_eq_eq_eq]
  apply List.rel_map _ h
  intro frame other hframe
  exact resolveScopes_eq_of_counterparts pc snapshot hframe.scopes

end

namespace ChainsAlike

variable {rename : ScopeId → ScopeId} {t u : ScopeTree} {pc : UInt64}
  (h : ChainsAlike rename t u pc)
include h

theorem chain_eq :
    (t.chain pc).map (List.map fun s => rename s.id) = (u.chain pc).map (List.map Scope.id) := by
  rcases h with ⟨c, d, hc, hd, hcd⟩ | ⟨e, hc, hd⟩
  · rw [hc, hd]
    exact congrArg Except.ok (ids_eq_of_counterparts hcd)
  · rw [hc, hd]
    rfl

theorem frames_eq (demangler : Demangler) :
    (t.frames demangler pc).map (List.map fun frame =>
      (frame.function, frame.site, frame.scopes.map fun s => rename s.id)) =
    (u.frames demangler pc).map (List.map fun frame =>
      (frame.function, frame.site, frame.scopes.map Scope.id)) := by
  rcases h.frames_cases demangler with
    ⟨frames, others, hframes, hothers, hall⟩ | ⟨e, hframes, hothers⟩
  · rw [hframes, hothers]
    exact congrArg Except.ok (labels_eq_of_counterparts hall)
  · rw [hframes, hothers]
    rfl

theorem variablesAt_eq (snapshot : Snapshot) :
    t.variablesAt pc snapshot = u.variablesAt pc snapshot := by
  unfold ScopeTree.variablesAt
  rcases h with ⟨c, d, hc, hd, hcd⟩ | ⟨e, hc, hd⟩
  · rw [hc, hd]
    exact resolveScopes_eq_of_counterparts pc snapshot hcd
  · rw [hc, hd]

theorem frameVariablesAt_eq (demangler : Demangler) (index : Nat) (snapshot : Snapshot) :
    t.frameVariablesAt demangler pc index snapshot =
      u.frameVariablesAt demangler pc index snapshot := by
  rcases h.frames_cases demangler with
    ⟨frames, others, hframes, hothers, hall⟩ | ⟨e, hframes, hothers⟩
  · have hlistings := congrArg (·[index]?) (listings_eq_of_counterparts pc snapshot hall)
    simp only [List.getElem?_map] at hlistings
    rw [ScopeTree.frameVariablesAt_eq hframes, ScopeTree.frameVariablesAt_eq hothers,
      hall.length_eq]
    cases hframe : frames[index]? with
    | none =>
      rw [hframe, Option.map_none] at hlistings
      rw [Option.map_eq_none_iff.mp hlistings.symm]
    | some frame =>
      rw [hframe, Option.map_some] at hlistings
      obtain ⟨other, hother, hresult⟩ := Option.map_eq_some_iff.mp hlistings.symm
      rw [hother]
      exact hresult.symm
  · unfold ScopeTree.frameVariablesAt ScopeTree.frameAt
    rw [hframes, hothers]

end ChainsAlike

namespace ScopeBuilder

/-- The order in which scopes are added does not matter. Two builders with the same scopes under
other numbers are accepted or refused together, and the trees answer every question alike, however
symbols are demangled and wherever memory is read from. -/
theorem renumbered_builds_agree (demangler : Demangler) {b other : ScopeBuilder}
    (hb : b.Reachable) (hother : other.Reachable) {rename : ScopeId → ScopeId}
    (h : Renumbering rename b.scopes other.scopes) :
    ((∃ t, b.build = .ok t) ↔ ∃ u, other.build = .ok u) ∧
    ∀ t u, b.build = .ok t → other.build = .ok u → ∀ pc,
      (t.chain pc).map (List.map fun s => rename s.id) = (u.chain pc).map (List.map Scope.id) ∧
      (t.frames demangler pc).map (List.map fun frame =>
        (frame.function, frame.site, frame.scopes.map fun s => rename s.id)) =
      (u.frames demangler pc).map (List.map fun frame =>
        (frame.function, frame.site, frame.scopes.map Scope.id)) ∧
      ∀ snapshot, t.variablesAt pc snapshot = u.variablesAt pc snapshot ∧
        ∀ index, t.frameVariablesAt demangler pc index snapshot =
          u.frameVariablesAt demangler pc index snapshot := by
  refine ⟨?_, ?_⟩
  · rw [exists_build_iff hb.linked, exists_build_iff hother.linked]
    exact (h.wellFormed_iff hb.linked hother.linked).symm
  · intro t u ht hu pc
    have htrees : Renumbering rename t.scopes u.scopes := by
      rw [((build_eq_ok_iff b t).mp ht).1, ((build_eq_ok_iff other u).mp hu).1]
      exact h.arranged
    have halike := htrees.chainsAlike (ScopeTree.sound_of_build hb ht)
      (ScopeTree.sound_of_build hother hu) pc
    exact ⟨halike.chain_eq, halike.frames_eq demangler, fun snapshot =>
      ⟨halike.variablesAt_eq snapshot, fun index =>
        halike.frameVariablesAt_eq demangler index snapshot⟩⟩

/-- A block, then a call that comes before it in the code. -/
def blockFirst : ScopeBuilder :=
  (start "main" ⟨0x100, 0x200⟩).run [
    .addBlock 0 ⟨0x180, 0x190⟩,
    .declare 1 ⟨"x", .bool, .local, .constant [1], [], none, none⟩,
    .addInlined 0 ⟨0x110, 0x120⟩ ⟨"_ZN3fooIiE3barEv", 7, none⟩,
    .declare 2 ⟨"y", .char, .parameter, .register ⟨5⟩, [], none, none⟩]

/-- The same scopes with the call first. -/
def callFirst : ScopeBuilder :=
  (start "main" ⟨0x100, 0x200⟩).run [
    .addInlined 0 ⟨0x110, 0x120⟩ ⟨"_ZN3fooIiE3barEv", 7, none⟩,
    .addBlock 0 ⟨0x180, 0x190⟩,
    .declare 2 ⟨"x", .bool, .local, .constant [1], [], none, none⟩,
    .declare 1 ⟨"y", .char, .parameter, .register ⟨5⟩, [], none, none⟩]

def exchanged (id : ScopeId) : ScopeId := if id = 0 then 0 else 3 - id

theorem renumbering_callFirst : Renumbering exchanged blockFirst.scopes callFirst.scopes := by
  have hmaps : ∀ id < 3, exchanged id < 3 := by decide
  have hback : ∀ id < 3, exchanged (exchanged id) = id := by decide
  exact ⟨Set.InvOn.bijOn ⟨hback, hback⟩ hmaps hmaps, rfl, by decide⟩

theorem callFirst_agrees : Renumbering exchanged blockFirst.scopes callFirst.scopes ∧
    ∃ t u, blockFirst.build = .ok t ∧ callFirst.build = .ok u ∧
      (t.chain 0x184).map (List.map Scope.id) = .ok [1, 0] ∧
      (u.chain 0x184).map (List.map Scope.id) = .ok [2, 0] ∧
      (t.frames .fewSymbols 0x114).map (List.map InlineFrame.function) =
        .ok ["foo<int>::bar()", "main"] ∧
      (t.frames .fewSymbols 0x114).map (List.map fun frame =>
        (frame.function, frame.site, frame.scopes.map fun s => exchanged s.id)) =
      (u.frames .fewSymbols 0x114).map (List.map fun frame =>
        (frame.function, frame.site, frame.scopes.map Scope.id)) ∧
      ∀ pc snapshot, t.variablesAt pc snapshot = u.variablesAt pc snapshot := by
  have h := renumbering_callFirst
  obtain ⟨-, hagree⟩ := renumbered_builds_agree .fewSymbols ⟨_, _, _, rfl⟩ ⟨_, _, _, rfl⟩ h
  exact ⟨h, _, _, rfl, rfl, rfl, rfl, rfl, (hagree _ _ rfl rfl 0x114).2.1,
    fun pc snapshot => ((hagree _ _ rfl rfl pc).2.2 snapshot).1⟩

end ScopeBuilder

end FrameLens
