import FrameLens.Proofs.Scope.Frames
import Mathlib.Data.Set.Function
import Mathlib.Order.Interval.Set.Defs
import Mathlib.Tactic.MkIffOfInductiveProp

/-!
Scopes that were added in another order. They differ in their numbers and in nothing else: the same
are accepted, and at every program counter the chains and the frames are the same under the new
numbers.
-/
namespace FrameLens

/-- The declaration without the number of its scope. -/
def Declaration.detached (d : Declaration) : Declaration := { d with scope := none }

/-- The second scope is the first under new numbers. -/
@[mk_iff]
structure Counterpart (rename : ScopeId → ScopeId) (s r : Scope) : Prop where
  id_eq : r.id = rename s.id
  parent_eq : r.parent = s.parent.map rename
  kind_eq : r.kind = s.kind
  range_eq : r.range = s.range
  declarations_eq : r.declarations.map Declaration.detached =
    s.declarations.map Declaration.detached

instance (rename : ScopeId → ScopeId) (s r : Scope) : Decidable (Counterpart rename s r) :=
  decidable_of_iff' _ (counterpart_iff rename s r)

/-- The second scopes are the first under new numbers, and the function keeps its own. -/
structure Renumbering (rename : ScopeId → ScopeId) (scopes others : List Scope) : Prop where
  bijOn : Set.BijOn rename (Set.Iio scopes.length) (Set.Iio others.length)
  root : rename 0 = 0
  counterpart : ∀ s ∈ scopes, ∃ r ∈ others, Counterpart rename s r

/-- At a counter either both trees have a chain, scope by scope the same under the new numbers, or
both refuse it for the same reason. -/
def ChainsAlike (rename : ScopeId → ScopeId) (t u : ScopeTree) (pc : UInt64) : Prop :=
  (∃ c d, t.chain pc = .ok c ∧ u.chain pc = .ok d ∧ List.Forall₂ (Counterpart rename) c d) ∨
  ∃ e, t.chain pc = .error e ∧ u.chain pc = .error e

namespace Counterpart

variable {rename : ScopeId → ScopeId} {s r : Scope} (h : Counterpart rename s r)
include h

theorem contains_eq (pc : UInt64) : r.contains pc = s.contains pc := by
  unfold Scope.contains
  rw [h.range_eq]

theorem names_eq : r.declarations.map Declaration.name = s.declarations.map Declaration.name := by
  have hnames := congrArg (List.map Declaration.name) h.declarations_eq
  rwa [List.map_map, List.map_map] at hnames

end Counterpart

namespace Renumbering

section
variable {rename : ScopeId → ScopeId} {scopes others : List Scope}
  (h : Renumbering rename scopes others)
include h

/-- Numbers in use are told apart by their new names. -/
theorem map_eq_iff {x y : Option ScopeId} (hx : ∀ p, x = some p → p < scopes.length)
    (hy : ∀ p, y = some p → p < scopes.length) : x.map rename = y.map rename ↔ x = y := by
  constructor
  · intro heq
    cases x with
    | none => exact (Option.map_eq_none_iff.mp heq.symm).symm
    | some p =>
      obtain ⟨q, rfl, hnames⟩ := Option.map_eq_some_iff.mp heq.symm
      rw [h.bijOn.injOn (hx p rfl) (hy q rfl) hnames.symm]
  · intro heq
    rw [heq]

variable (hl : Linked scopes) {s q r u : Scope} (hs : s ∈ scopes) (hq : q ∈ scopes)
  (hsr : Counterpart rename s r) (hqu : Counterpart rename q u)
include hl hs hq hsr hqu

theorem id_eq_iff : r.id = u.id ↔ s.id = q.id := by
  rw [hsr.id_eq, hqu.id_eq]
  exact h.bijOn.injOn.eq_iff (hl.id_lt hs) (hl.id_lt hq)

theorem parent_eq_iff : r.parent = u.parent ↔ s.parent = q.parent := by
  rw [hsr.parent_eq, hqu.parent_eq]
  exact h.map_eq_iff (fun p => hl.parent_lt_length hs) (fun p => hl.parent_lt_length hq)

theorem parent_eq_some_iff : r.parent = some u.id ↔ s.parent = some q.id := by
  have hid (p : ScopeId) (hp : some q.id = some p) : p < scopes.length :=
    Option.some.inj hp ▸ hl.id_lt hq
  rw [hsr.parent_eq, hqu.id_eq, ← Option.map_some]
  exact h.map_eq_iff (fun p => hl.parent_lt_length hs) hid

end

section
variable {rename : ScopeId → ScopeId} {scopes others : List Scope}
  (h : Renumbering rename scopes others) (hl : Linked scopes) (ho : Linked others)
include h hl ho

theorem exists_origin {r : Scope} (hr : r ∈ others) : ∃ s ∈ scopes, Counterpart rename s r := by
  obtain ⟨i, hi, hname⟩ := h.bijOn.surjOn (ho.id_lt hr)
  rw [Set.mem_Iio] at hi
  have hs := List.getElem_mem hi
  have hnumber := (hl i scopes[i] (List.getElem?_eq_getElem hi)).id_eq
  obtain ⟨q, hq, hsq⟩ := h.counterpart scopes[i] hs
  have hid : q.id = r.id := by rw [hsq.id_eq, hnumber, hname]
  rw [← ho.eq_of_id_eq hq hr hid]
  exact ⟨scopes[i], hs, hsq⟩

theorem wellFormed_iff : WellFormed others ↔ WellFormed scopes := by
  constructor
  · intro hw
    refine hw.of_partners h.counterpart ?_ ?_
    · intro s r hsr
      exact ⟨hsr.range_eq.symm, hsr.names_eq.symm⟩
    · intro s hs q hq r _ u _ hsr hqu
      exact ⟨(h.id_eq_iff hl hs hq hsr hqu).mp, (h.parent_eq_iff hl hs hq hsr hqu).mpr,
        (h.parent_eq_some_iff hl hs hq hsr hqu).mpr⟩
  · intro hw
    refine hw.of_partners (fun r hr => h.exists_origin hl ho hr) ?_ ?_
    · intro r s hsr
      exact ⟨hsr.range_eq, hsr.names_eq⟩
    · intro r _ u _ s hs q hq hsr hqu
      exact ⟨(h.id_eq_iff hl hs hq hsr hqu).mpr, (h.parent_eq_iff hl hs hq hsr hqu).mp,
        (h.parent_eq_some_iff hl hs hq hsr hqu).mp⟩

end

/-- Putting children in order changes no number. -/
theorem arranged {rename : ScopeId → ScopeId} {scopes others : List Scope}
    (h : Renumbering rename scopes others) :
    Renumbering rename (ScopeBuilder.arranged scopes) (ScopeBuilder.arranged others) := by
  refine ⟨?_, h.root, ?_⟩
  · unfold ScopeBuilder.arranged
    rw [List.length_map, List.length_map]
    exact h.bijOn
  · intro s hs
    obtain ⟨added, hadded, rfl⟩ := List.mem_map.mp hs
    obtain ⟨r, hr, hcounterpart⟩ := h.counterpart added hadded
    exact ⟨ScopeBuilder.sortChildren others r, List.mem_map_of_mem hr, hcounterpart.id_eq,
      hcounterpart.parent_eq, hcounterpart.kind_eq, hcounterpart.range_eq,
      hcounterpart.declarations_eq⟩

section
variable {rename : ScopeId → ScopeId} {t u : ScopeTree} (ht : t.Sound) (hu : u.Sound)
  (h : Renumbering rename t.scopes u.scopes)
include ht hu h

theorem root_counterpart : Counterpart rename t.root u.root := by
  obtain ⟨r, hr, hcounterpart⟩ := h.counterpart t.root t.root_mem
  have hid : r.id = u.root.id := by rw [hcounterpart.id_eq, ht.root_id, h.root, hu.root_id]
  rw [← hu.linked.eq_of_id_eq hr u.root_mem hid]
  exact hcounterpart

/-- A chain goes over into a chain, because it is made of all scopes that hold the counter and each
is followed by its parent. -/
theorem exactChain_map {image : Scope → Scope}
    (himage : ∀ s ∈ t.scopes, image s ∈ u.scopes ∧ Counterpart rename s (image s)) {pc : UInt64}
    {c : List Scope} (hc : t.ExactChain pc c) : u.ExactChain pc (c.map image) := by
  have hmem (s : Scope) (hs : s ∈ c) : s ∈ t.scopes := ((hc.mem_iff s).mp hs).1
  have hparents : (c.map image).IsChain fun s outer => s.parent = some outer.id := by
    rw [List.isChain_map]
    apply hc.parents.imp_of_mem_imp
    intro s outer hs ho hp
    exact (h.parent_eq_some_iff ht.linked (hmem s hs) (hmem outer ho) (himage s (hmem s hs)).2
      (himage outer (hmem outer ho)).2).mpr hp
  have hids : (c.map image).Pairwise fun s outer => outer.id < s.id := by
    apply hu.ids_decrease _ hparents
    intro r hr
    obtain ⟨s, hs, rfl⟩ := List.mem_map.mp hr
    exact (himage s (hmem s hs)).1
  refine ⟨?_, ScopeTree.nodup_of_ids_decrease hids, ?_, hparents, hids⟩
  · intro r
    constructor
    · intro hr
      obtain ⟨s, hs, rfl⟩ := List.mem_map.mp hr
      obtain ⟨hs, hpc⟩ := (hc.mem_iff s).mp hs
      rw [(himage s hs).2.contains_eq]
      exact ⟨(himage s hs).1, hpc⟩
    · intro hr
      obtain ⟨s, hs, hsr⟩ := h.exists_origin ht.linked hu.linked hr.1
      have hpc : s.contains pc := hsr.contains_eq pc ▸ hr.2
      have hid : (image s).id = r.id := by rw [(himage s hs).2.id_eq, hsr.id_eq]
      rw [← hu.linked.eq_of_id_eq (himage s hs).1 hr.1 hid]
      exact List.mem_map_of_mem ((hc.mem_iff s).mpr ⟨hs, hpc⟩)
  · have hroot := himage t.root t.root_mem
    have hid : (image t.root).id = u.root.id := by
      rw [hroot.2.id_eq, (h.root_counterpart ht hu).id_eq]
    rw [List.getLast?_map, hc.last_root, Option.map_some,
      hu.linked.eq_of_id_eq hroot.1 u.root_mem hid]

theorem chainsAlike (pc : UInt64) : ChainsAlike rename t u pc := by
  have hroot := h.root_counterpart ht hu
  by_cases hpc : t.root.contains pc
  · have : Nonempty Scope := ⟨t.root⟩
    choose! image himage using h.counterpart
    obtain ⟨hchain, hexact⟩ := ht.chain_eq_holding hpc
    have hupc : u.root.contains pc := hroot.contains_eq pc ▸ hpc
    have hmap := hu.eq_holding (h.exactChain_map ht hu himage hexact)
    refine .inl ⟨_, _, hchain, hmap ▸ (hu.chain_eq_holding hupc).1, ?_⟩
    rw [List.forall₂_map_right_iff, List.forall₂_same]
    intro s hs
    exact (himage s ((hexact.mem_iff s).mp hs).1).2
  · have hupc : ¬ u.root.contains pc := hroot.contains_eq pc ▸ hpc
    refine .inr ⟨.pcOutOfRange pc t.range, by rw [ScopeTree.chain, if_neg hpc], ?_⟩
    rw [ScopeTree.chain, if_neg hupc, ScopeTree.range, hroot.range_eq]
    rfl

end

end Renumbering

/-- The second frame is the first under new numbers. -/
structure FrameCounterpart (rename : ScopeId → ScopeId) (frame other : InlineFrame) : Prop where
  function_eq : other.function = frame.function
  site_eq : other.site = frame.site
  scopes : List.Forall₂ (Counterpart rename) frame.scopes other.scopes

/-- Where a list of scopes is cut depends on their kinds alone. -/
theorem InlineFrame.split_counterparts (demangler : Demangler) {rename : ScopeId → ScopeId}
    {c d : List Scope} (h : List.Forall₂ (Counterpart rename) c d) {pending others : List Scope}
    (hpending : List.Forall₂ (Counterpart rename) pending others) :
    List.Forall₂ (FrameCounterpart rename) (split demangler pending c)
      (split demangler others d) := by
  induction h generalizing pending others with
  | nil => exact List.Forall₂.nil
  | @cons s r c d hsr _ ih =>
    have hmore := List.rel_append hpending (List.Forall₂.cons hsr List.Forall₂.nil)
    unfold split
    rw [hsr.kind_eq]
    cases s.kind with
    | block => exact ih hmore
    | inlined site => exact List.Forall₂.cons ⟨rfl, rfl, hmore⟩ (ih List.Forall₂.nil)
    | function name => exact List.Forall₂.cons ⟨rfl, rfl, hmore⟩ (ih List.Forall₂.nil)

theorem ChainsAlike.frames_cases {rename : ScopeId → ScopeId} {t u : ScopeTree} {pc : UInt64}
    (h : ChainsAlike rename t u pc) (demangler : Demangler) :
    (∃ frames others, t.frames demangler pc = .ok frames ∧ u.frames demangler pc = .ok others ∧
      List.Forall₂ (FrameCounterpart rename) frames others) ∨
    ∃ e, t.frames demangler pc = .error e ∧ u.frames demangler pc = .error e := by
  rcases h with ⟨c, d, hc, hd, hcd⟩ | ⟨e, hc, hd⟩
  · exact .inl ⟨_, _, ScopeTree.frames_of_chain demangler hc,
      ScopeTree.frames_of_chain demangler hd,
      InlineFrame.split_counterparts demangler hcd List.Forall₂.nil⟩
  · unfold ScopeTree.frames
    rw [hc, hd]
    exact .inr ⟨e, rfl, rfl⟩

end FrameLens
