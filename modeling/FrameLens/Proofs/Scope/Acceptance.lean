import FrameLens.Proofs.AddressRange
import FrameLens.Proofs.Scope.Arena
import Mathlib.Data.List.Chain
import Mathlib.Data.List.Sort

/-!
Which scopes a builder accepts. The check looks at neighbours only, once children are in the order
of their starts; it accepts exactly the scopes of which no two with the same parent meet, whatever
the order in which they were added.
-/
namespace FrameLens

/-- What makes scopes a tree. -/
structure WellFormed (scopes : List Scope) : Prop where
  nonempty : ∀ s ∈ scopes, s.range.start < s.range.stop
  nested : ∀ s ∈ scopes, ∀ p ∈ scopes, s.parent = some p.id →
    ∀ a, s.range.contains a → p.range.contains a
  disjoint : ∀ s ∈ scopes, ∀ r ∈ scopes, s.id ≠ r.id → s.parent = r.parent →
    s.range.Disjoint r.range
  distinct : ∀ s ∈ scopes, (s.declarations.map Declaration.name).Nodup

/-- Ranges, names and who is whose parent count. Scopes that have partners among well-formed ones in
these respects are well formed, whatever else is different. -/
theorem WellFormed.of_partners {scopes next : List Scope} (hw : WellFormed scopes)
    {partner : Scope → Scope → Prop} (htotal : ∀ s ∈ next, ∃ r ∈ scopes, partner s r)
    (hsame : ∀ s r, partner s r → s.range = r.range ∧
      s.declarations.map Declaration.name = r.declarations.map Declaration.name)
    (hlinks : ∀ s ∈ next, ∀ p ∈ next, ∀ r ∈ scopes, ∀ q ∈ scopes, partner s r → partner p q →
      (r.id = q.id → s.id = p.id) ∧ (s.parent = p.parent → r.parent = q.parent) ∧
      (s.parent = some p.id → r.parent = some q.id)) : WellFormed next := by
  constructor
  · intro s hs
    obtain ⟨r, hr, hpartner⟩ := htotal s hs
    rw [(hsame s r hpartner).1]
    exact hw.nonempty r hr
  · intro s hs p hp hparent
    obtain ⟨r, hr, hsr⟩ := htotal s hs
    obtain ⟨q, hq, hpq⟩ := htotal p hp
    obtain ⟨-, -, houter⟩ := hlinks s hs p hp r hr q hq hsr hpq
    rw [(hsame s r hsr).1, (hsame p q hpq).1]
    exact hw.nested r hr q hq (houter hparent)
  · intro s hs p hp hid hparent
    obtain ⟨r, hr, hsr⟩ := htotal s hs
    obtain ⟨q, hq, hpq⟩ := htotal p hp
    obtain ⟨hids, hsiblings, -⟩ := hlinks s hs p hp r hr q hq hsr hpq
    rw [(hsame s r hsr).1, (hsame p q hpq).1]
    exact hw.disjoint r hr q hq (fun he => hid (hids he)) (hsiblings hparent)
  · intro s hs
    obtain ⟨r, hr, hpartner⟩ := htotal s hs
    rw [(hsame s r hpartner).2]
    exact hw.distinct r hr

theorem WellFormed.of_same_shape {scopes next : List Scope} (hw : WellFormed scopes)
    (hs : ∀ s ∈ next, ∃ r ∈ scopes, s.id = r.id ∧ s.parent = r.parent ∧ s.range = r.range ∧
      s.declarations = r.declarations) : WellFormed next := by
  apply hw.of_partners hs
  · intro s r hpartner
    obtain ⟨-, -, hrange, hdeclarations⟩ := hpartner
    exact ⟨hrange, by rw [hdeclarations]⟩
  · intro s _ p _ r _ q _ hsr hpq
    rw [hsr.1, hsr.2.1, hpq.1, hpq.2.1]
    exact ⟨id, id, id⟩

namespace ScopeBuilder

theorem repeatedName?_eq_none_iff (seen : List String) (ds : List Declaration) :
    repeatedName? seen ds = none ↔
      (ds.map Declaration.name).Nodup ∧ ∀ d ∈ ds, d.name ∉ seen := by
  induction ds generalizing seen with
  | nil => simp [repeatedName?]
  | cons d rest ih =>
    by_cases hd : d.name ∈ seen
    · simp [repeatedName?, hd]
    · simp only [repeatedName?, hd, ↓reduceIte, ih, List.map_cons, List.nodup_cons, List.mem_map,
        List.mem_append, List.mem_singleton, List.forall_mem_cons, not_or, forall_and,
        not_false_eq_true, true_and]
      constructor
      · rintro ⟨hn, hs, he⟩
        exact ⟨⟨fun ⟨e, hm, h⟩ => he e hm h, hn⟩, hs⟩
      · rintro ⟨⟨he, hn⟩, hs⟩
        exact ⟨hn, hs, fun e hm h => he ⟨e, hm, h⟩⟩

/-- A scope and the next one do not meet. -/
def Follows (s next : Scope) : Prop := s.range.stop ≤ next.range.start

theorem childFault?_eq_none_iff (parent : Scope) (previous : Option Scope) (children : List Scope) :
    childFault? parent previous children = none ↔
      (∀ c ∈ children, parent.range.encloses c.range) ∧
      (previous.toList ++ children).IsChain Follows := by
  induction children generalizing previous with
  | nil => cases previous <;> simp [childFault?]
  | cons c rest ih =>
    by_cases hc : parent.range.encloses c.range
    · cases previous with
      | none => simp [childFault?, hc, ih]
      | some before =>
        by_cases hb : c.range.start < before.range.stop
        · simp [childFault?, hc, hb, Follows]
        · have hf : Follows before c := UInt64.not_lt.mp hb
          simp [childFault?, hc, hb, ih, hf]
    · simp [childFault?, hc]

theorem scopeFault?_eq_none_iff (scopes : List Scope) (s : Scope) :
    scopeFault? scopes s = none ↔ s.range.start < s.range.stop ∧
      (∀ c ∈ childScopes scopes s, s.range.encloses c.range) ∧
      (childScopes scopes s).IsChain Follows ∧
      (s.declarations.map Declaration.name).Nodup := by
  rw [← AddressRange.isEmpty_eq_false_iff, ← and_assoc (a := ∀ c ∈ _, _)]
  have hc := childFault?_eq_none_iff s none (childScopes scopes s)
  rw [Option.toList_none, List.nil_append] at hc
  rw [← hc]
  have hn := repeatedName?_eq_none_iff [] s.declarations
  simp only [List.not_mem_nil, not_false_eq_true, implies_true, and_true] at hn
  rw [← hn]
  unfold scopeFault? childScopes
  cases s.range.isEmpty with
  | true => simp
  | false => cases childFault? s none (s.children.filterMap (scopes[·]?)) <;> simp

/-- Neighbours that do not meet keep all scopes apart, because none of them is empty. -/
theorem pairwise_of_isChain_follows {scopes : List Scope}
    (hn : ∀ s ∈ scopes, s.range.start < s.range.stop) (hf : scopes.IsChain Follows) :
    scopes.Pairwise Follows := by
  induction scopes with
  | nil => exact List.Pairwise.nil
  | cons s rest ih =>
    have hrest := ih (fun r hr => hn r (List.mem_cons_of_mem s hr)) hf.tail
    refine List.pairwise_cons.mpr ⟨?_, hrest⟩
    intro r hr
    cases rest with
    | nil => simp at hr
    | cons next more =>
      have hnext : Follows s next := (List.isChain_cons_cons.mp hf).1
      rcases List.mem_cons.mp hr with rfl | hm
      · exact hnext
      · have hlater : Follows next r := (List.pairwise_cons.mp hrest).1 r hm
        exact UInt64.le_trans hnext (UInt64.le_trans (UInt64.le_of_lt (hn next (by simp))) hlater)

theorem pairwise_disjoint_of_follows {scopes : List Scope}
    (hn : ∀ s ∈ scopes, s.range.start < s.range.stop) (hf : scopes.Pairwise Follows) :
    scopes.Pairwise fun s next => s.range.Disjoint next.range := by
  apply hf.imp_of_mem
  intro s next hs hnext h
  have hle : s.range.start ≤ next.range.start := UInt64.le_trans (UInt64.le_of_lt (hn s hs)) h
  exact (AddressRange.stop_le_start_iff (hn next hnext) hle).mp h

theorem insertByStart_eq_orderedInsert (scopes : List Scope) (id : ScopeId) (ids : List ScopeId) :
    insertByStart scopes id ids =
      ids.orderedInsert (fun i j => startOf scopes i ≤ startOf scopes j) id := by
  induction ids with
  | nil => rfl
  | cons next rest ih => simp only [insertByStart, List.orderedInsert, ih]

theorem sortByStart_eq_insertionSort (scopes : List Scope) (ids : List ScopeId) :
    sortByStart scopes ids =
      ids.insertionSort fun i j => startOf scopes i ≤ startOf scopes j := by
  induction ids with
  | nil => rfl
  | cons id rest ih =>
    rw [sortByStart, ih, insertByStart_eq_orderedInsert, List.insertionSort_cons]

theorem sortByStart_perm (scopes : List Scope) (ids : List ScopeId) :
    (sortByStart scopes ids).Perm ids := by
  rw [sortByStart_eq_insertionSort]
  exact List.perm_insertionSort _ ids

theorem sortByStart_pairwise (scopes : List Scope) (ids : List ScopeId) :
    (sortByStart scopes ids).Pairwise fun i j => startOf scopes i ≤ startOf scopes j := by
  rw [sortByStart_eq_insertionSort]
  have : IsTrans ScopeId fun i j => startOf scopes i ≤ startOf scopes j :=
    ⟨fun _ _ _ => UInt64.le_trans⟩
  have : Std.Total fun i j => startOf scopes i ≤ startOf scopes j :=
    ⟨fun _ _ => UInt64.le_total _ _⟩
  exact List.pairwise_insertionSort _ ids

/-- The scopes with all their children in order. -/
def arranged (scopes : List Scope) : List Scope := scopes.map (sortChildren scopes)

theorem getElem?_arranged (scopes : List Scope) (i : Nat) :
    (arranged scopes)[i]? = (scopes[i]?).map (sortChildren scopes) := List.getElem?_map

theorem linked_arranged {scopes : List Scope} (hl : Linked scopes) : Linked (arranged scopes) := by
  apply hl.of_same_links
  · intro j
    rw [parentOf?, parentOf?, getElem?_arranged]
    cases scopes[j]? <;> rfl
  · intro i s hs
    rw [getElem?_arranged] at hs
    obtain ⟨old, ho, rfl⟩ := Option.map_eq_some_iff.mp hs
    exact ⟨old, ho, rfl, rfl, rfl, sortByStart_perm scopes old.children, fun d hd => Or.inl hd⟩

/-- Whether scopes make a tree does not depend on the order of their children. -/
theorem wellFormed_arranged_iff (scopes : List Scope) :
    WellFormed (arranged scopes) ↔ WellFormed scopes := by
  constructor
  · intro h
    apply h.of_same_shape
    intro s hs
    exact ⟨sortChildren scopes s, List.mem_map_of_mem hs, rfl, rfl, rfl, rfl⟩
  · intro h
    apply h.of_same_shape
    intro s hs
    obtain ⟨r, hr, rfl⟩ := List.mem_map.mp hs
    exact ⟨r, hr, rfl, rfl, rfl, rfl⟩

theorem childScopes_arranged_pairwise {scopes : List Scope} (hl : Linked scopes) {s : Scope}
    (hs : s ∈ arranged scopes) :
    (childScopes (arranged scopes) s).Pairwise fun c next => c.range.start ≤ next.range.start := by
  have ha := linked_arranged hl
  have hstart (c : Scope) (hc : c ∈ arranged scopes) : startOf scopes c.id = c.range.start := by
    obtain ⟨r, hr, rfl⟩ := List.mem_map.mp hc
    simp only [startOf, sortChildren, hl.getElem?_id hr]
  have hids : ((childScopes (arranged scopes) s).map Scope.id).Pairwise
      fun i j => startOf scopes i ≤ startOf scopes j := by
    rw [ha.map_id_childScopes hs]
    obtain ⟨r, hr, rfl⟩ := List.mem_map.mp hs
    exact sortByStart_pairwise scopes r.children
  rw [List.pairwise_map] at hids
  apply hids.imp_of_mem
  intro c next hc hnext h
  rwa [hstart c ((ha.mem_childScopes hs c).mp hc).1,
    hstart next ((ha.mem_childScopes hs next).mp hnext).1] at h

/-- Scopes without a fault are well formed: siblings that are neighbours do not meet, so no two of
them do. -/
theorem wellFormed_of_faultless {scopes : List Scope} (hl : Linked scopes)
    (h : ∀ s ∈ scopes, scopeFault? scopes s = none) : WellFormed scopes := by
  have hc (s : Scope) (hs : s ∈ scopes) := (scopeFault?_eq_none_iff scopes s).mp (h s hs)
  have hn (s : Scope) (hs : s ∈ scopes) : s.range.start < s.range.stop := (hc s hs).1
  refine ⟨hn, ?_, ?_, fun s hs => (hc s hs).2.2.2⟩
  · intro s hs p hp hparent
    have hm := (hl.mem_childScopes hp s).mpr ⟨hs, hparent⟩
    exact (AddressRange.encloses_iff (hn s hs)).mp ((hc p hp).2.1 s hm)
  · intro s hs r hr hid hparent
    cases hsp : s.parent with
    | none =>
      have hs0 := (hl.at_id hs).parent_none_iff.mp hsp
      have hr0 := (hl.at_id hr).parent_none_iff.mp (hparent ▸ hsp)
      exact absurd (hs0.trans hr0.symm) hid
    | some p =>
      obtain ⟨outer, ho, rfl⟩ := hl.exists_parent hs hsp
      have hchildren (c : Scope) (hm : c ∈ childScopes scopes outer) :
          c.range.start < c.range.stop := hn c ((hl.mem_childScopes ho c).mp hm).1
      have hfollows := pairwise_of_isChain_follows hchildren (hc outer ho).2.2.1
      have hdisjoint := pairwise_disjoint_of_follows hchildren hfollows
      have : Std.Symm fun c next : Scope => c.range.Disjoint next.range :=
        ⟨fun _ _ => AddressRange.Disjoint.symm⟩
      exact hdisjoint.forall ((hl.mem_childScopes ho s).mpr ⟨hs, hsp⟩)
        ((hl.mem_childScopes ho r).mpr ⟨hr, hparent ▸ hsp⟩) (fun he => hid (he ▸ rfl))

/-- Children in the order of their starts follow each other if the scopes are well formed. -/
theorem pairwise_follows {scopes : List Scope} (hl : Linked scopes) (hw : WellFormed scopes)
    {s : Scope} (hs : s ∈ scopes)
    (ho : (childScopes scopes s).Pairwise fun c next => c.range.start ≤ next.range.start) :
    (childScopes scopes s).Pairwise Follows := by
  apply (ho.and (hl.pairwise_id_ne_childScopes hs)).imp_of_mem
  rintro c next hc hnext ⟨hle, hid⟩
  obtain ⟨hc, hcp⟩ := (hl.mem_childScopes hs c).mp hc
  obtain ⟨hnext, hnp⟩ := (hl.mem_childScopes hs next).mp hnext
  exact (AddressRange.stop_le_start_iff (hw.nonempty next hnext) hle).mpr
    (hw.disjoint c hc next hnext hid (hcp.trans hnp.symm))

theorem arranged_pairwise_follows {scopes : List Scope} (hl : Linked scopes)
    (hw : WellFormed scopes) {s : Scope} (hs : s ∈ arranged scopes) :
    (childScopes (arranged scopes) s).Pairwise Follows :=
  pairwise_follows (linked_arranged hl) ((wellFormed_arranged_iff scopes).mpr hw) hs
    (childScopes_arranged_pairwise hl hs)

/-- Well-formed scopes whose children are in order have no fault. -/
theorem faultless_of_wellFormed {scopes : List Scope} (hl : Linked scopes)
    (ho : ∀ s ∈ scopes, (childScopes scopes s).Pairwise fun c next =>
      c.range.start ≤ next.range.start)
    (hw : WellFormed scopes) : ∀ s ∈ scopes, scopeFault? scopes s = none := by
  intro s hs
  refine (scopeFault?_eq_none_iff scopes s).mpr ⟨hw.nonempty s hs, ?_,
    (pairwise_follows hl hw hs (ho s hs)).isChain, hw.distinct s hs⟩
  intro c hm
  obtain ⟨hc, hp⟩ := (hl.mem_childScopes hs c).mp hm
  exact (AddressRange.encloses_iff (hw.nonempty c hc)).mpr (hw.nested c hc s hs hp)

theorem build_eq_ok_iff (b : ScopeBuilder) (t : ScopeTree) :
    b.build = .ok t ↔ t.scopes = arranged b.scopes ∧
      ∀ s ∈ arranged b.scopes, scopeFault? (arranged b.scopes) s = none := by
  rw [← List.findSome?_eq_none_iff]
  simp only [build]
  split
  next fault h =>
    have hf : (arranged b.scopes).findSome? (scopeFault? (arranged b.scopes)) = some fault := h
    simp [hf]
  next h =>
    have hf : (arranged b.scopes).findSome? (scopeFault? (arranged b.scopes)) = none := h
    rw [and_iff_left hf]
    cases t
    simp only [Except.ok.injEq, ScopeTree.mk.injEq, arranged]
    exact eq_comm

/-- For scopes that are linked, a tree comes out exactly when they are well formed. -/
theorem build_eq_ok_iff_wellFormed {b : ScopeBuilder} (hl : Linked b.scopes) (t : ScopeTree) :
    b.build = .ok t ↔ t.scopes = arranged b.scopes ∧ WellFormed b.scopes := by
  rw [build_eq_ok_iff, ← wellFormed_arranged_iff]
  have ha := linked_arranged hl
  have ho (s : Scope) (hs : s ∈ arranged b.scopes) := childScopes_arranged_pairwise hl hs
  exact and_congr_right fun _ =>
    ⟨wellFormed_of_faultless ha, faultless_of_wellFormed ha ho⟩

theorem exists_build_iff {b : ScopeBuilder} (hl : Linked b.scopes) :
    (∃ t, b.build = .ok t) ↔ WellFormed b.scopes := by
  constructor
  · intro hbuilt
    obtain ⟨t, ht⟩ := hbuilt
    exact ((build_eq_ok_iff_wellFormed hl t).mp ht).2
  · intro hw
    have hne : arranged b.scopes ≠ [] := by simpa [arranged] using b.nonempty
    exact ⟨⟨arranged b.scopes, hne⟩, (build_eq_ok_iff_wellFormed hl _).mpr ⟨rfl, hw⟩⟩

end ScopeBuilder

/-- How a scope of a tree relates to the scope that was added: it differs at most in the order of
its children, which start one after the other. -/
structure Arranged (t : ScopeTree) (added s : Scope) : Prop where
  id_eq : s.id = added.id
  parent_eq : s.parent = added.parent
  kind_eq : s.kind = added.kind
  range_eq : s.range = added.range
  declarations_eq : s.declarations = added.declarations
  children_perm : s.children.Perm added.children
  children_starts : s.children.Pairwise fun i j => ∃ c next, t.get? i = some c ∧
    t.get? j = some next ∧ c.range.start < next.range.start

namespace ScopeBuilder

theorem arranged_of_build {b : ScopeBuilder} (hl : Linked b.scopes) {t : ScopeTree}
    (ht : b.build = .ok t) : List.Forall₂ (Arranged t) b.scopes t.scopes := by
  obtain ⟨hscopes, hw⟩ := (build_eq_ok_iff_wellFormed hl t).mp ht
  have ha := linked_arranged hl
  rw [hscopes, arranged, List.forall₂_map_right_iff, List.forall₂_same]
  intro s hs
  refine ⟨rfl, rfl, rfl, rfl, rfl, sortByStart_perm b.scopes s.children, ?_⟩
  have hm : sortChildren b.scopes s ∈ arranged b.scopes := List.mem_map_of_mem hs
  rw [← ha.map_id_childScopes hm, List.pairwise_map]
  apply (arranged_pairwise_follows hl hw hm).imp_of_mem
  intro c next hc hnext h
  have hc := ((ha.mem_childScopes hm c).mp hc).1
  have hnext := ((ha.mem_childScopes hm next).mp hnext).1
  have hn := ((wellFormed_arranged_iff b.scopes).mpr hw).nonempty c hc
  refine ⟨c, next, ?_, ?_, UInt64.lt_of_lt_of_le hn h⟩
  · rw [ScopeTree.get?, hscopes, ha.getElem?_id hc]
  · rw [ScopeTree.get?, hscopes, ha.getElem?_id hnext]

/-- A builder gives a tree exactly when its scopes are well formed, and refuses them otherwise. The
tree has the scopes as they were added, with the children of each in order. -/
theorem build_accepts_wellFormed {b : ScopeBuilder} (hb : b.Reachable) :
    ((∃ t, b.build = .ok t) ↔ WellFormed b.scopes) ∧
    ((∃ fault, b.build = .error fault) ↔ ¬ WellFormed b.scopes) ∧
    ∀ t, b.build = .ok t → List.Forall₂ (Arranged t) b.scopes t.scopes := by
  have hl := hb.linked
  refine ⟨exists_build_iff hl, ?_, fun t ht => arranged_of_build hl ht⟩
  rw [← exists_build_iff hl]
  cases b.build <;> simp

/-- A function with two blocks, of which the later one was added first. -/
def twoBlocks : ScopeBuilder :=
  (start "main" ⟨0x100, 0x200⟩).run [.addBlock 0 ⟨0x180, 0x190⟩, .addBlock 0 ⟨0x110, 0x120⟩]

def twoBlocksTree : ScopeTree where
  scopes := [{ Scope.bare 0 none (.function "main") ⟨0x100, 0x200⟩ with children := [2, 1] },
    Scope.bare 1 (some 0) .block ⟨0x180, 0x190⟩, Scope.bare 2 (some 0) .block ⟨0x110, 0x120⟩]
  nonempty := by simp

theorem twoBlocks_reachable : twoBlocks.Reachable := ⟨_, _, _, rfl⟩

theorem build_twoBlocks : twoBlocks.build = .ok twoBlocksTree := rfl

theorem twoBlocks_accepted : twoBlocks.Reachable ∧ WellFormed twoBlocks.scopes ∧
    List.Forall₂ (Arranged twoBlocksTree) twoBlocks.scopes twoBlocksTree.scopes := by
  obtain ⟨hok, -, htree⟩ := build_accepts_wellFormed twoBlocks_reachable
  exact ⟨twoBlocks_reachable, hok.mp ⟨_, build_twoBlocks⟩, htree _ build_twoBlocks⟩

end ScopeBuilder

end FrameLens
