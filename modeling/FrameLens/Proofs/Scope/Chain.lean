import FrameLens.Proofs.Scope.Acceptance

/-!
The scopes at a program counter. At each scope the descent looks at one child only, the last that
starts at or before the counter; it passes every scope that holds the counter all the same, since
children are in order and apart and no scope reaches out of its parent.
-/
namespace FrameLens
open ScopeBuilder

namespace ScopeTree

/-- What holds of every tree that was built. -/
structure Sound (t : ScopeTree) : Prop where
  linked : Linked t.scopes
  wellFormed : WellFormed t.scopes
  follows : ∀ s ∈ t.scopes, (t.children s).Pairwise Follows

theorem sound_of_build {b : ScopeBuilder} (hb : b.Reachable) {t : ScopeTree}
    (ht : b.build = .ok t) : t.Sound := by
  obtain ⟨hscopes, hw⟩ := (build_eq_ok_iff_wellFormed hb.linked t).mp ht
  refine ⟨hscopes ▸ linked_arranged hb.linked,
    hscopes ▸ (wellFormed_arranged_iff b.scopes).mpr hw, ?_⟩
  intro s hs
  change (childScopes t.scopes s).Pairwise Follows
  rw [hscopes] at hs ⊢
  exact arranged_pairwise_follows hb.linked hw hs

theorem getElem?_root (t : ScopeTree) : t.scopes[0]? = some t.root := by
  rw [root, ← List.head?_eq_getElem?, List.head?_eq_some_head t.nonempty]

theorem root_mem (t : ScopeTree) : t.root ∈ t.scopes := List.head_mem t.nonempty

/-- Scopes at a counter that follow each other at a distance: those before it have started, those
after it have not. -/
theorem takeWhile_start_eq {before after : List Scope} {c : Scope} {pc : UInt64}
    (hn : ∀ s ∈ before, s.range.start < s.range.stop)
    (hf : (before ++ c :: after).Pairwise Follows) (hc : c.contains pc) :
    (before ++ c :: after).takeWhile (fun s => s.range.start ≤ pc) = before ++ [c] := by
  obtain ⟨-, hafter, hcross⟩ := List.pairwise_append.mp hf
  have hpc := AddressRange.contains_iff.mp hc
  have hbefore : ∀ s ∈ before, decide (s.range.start ≤ pc) = true := by
    intro s hs
    have hstart := UInt64.lt_iff_toNat_lt.mp (hn s hs)
    have hstop : s.range.stop ≤ c.range.start := hcross s hs c List.mem_cons_self
    rw [UInt64.le_iff_toNat_le] at hstop
    rw [decide_eq_true_eq, UInt64.le_iff_toNat_le]
    omega
  have hself : decide (c.range.start ≤ pc) = true := by
    rw [decide_eq_true_eq, UInt64.le_iff_toNat_le]
    exact hpc.1
  have hrest : after.takeWhile (fun s => s.range.start ≤ pc) = [] := by
    cases after with
    | nil => rfl
    | cons next more =>
      have hnext : c.range.stop ≤ next.range.start :=
        (List.pairwise_cons.mp hafter).1 next List.mem_cons_self
      rw [UInt64.le_iff_toNat_le] at hnext
      apply List.takeWhile_cons_of_neg
      rw [decide_eq_true_eq, UInt64.le_iff_toNat_le]
      omega
  rw [List.takeWhile_append_of_pos hbefore]
  simp only [List.takeWhile_cons, hself, ↓reduceIte, hrest]

/-- A search by halves is possible: those that start at or before the counter come first. -/
theorem lt_start_of_mem_dropWhile {scopes : List Scope} {pc : UInt64} {c : Scope}
    (ho : scopes.Pairwise fun s next => s.range.start ≤ next.range.start)
    (hc : c ∈ scopes.dropWhile fun s => s.range.start ≤ pc) : pc < c.range.start := by
  induction scopes with
  | nil => simp at hc
  | cons s rest ih =>
    obtain ⟨hs, hrest⟩ := List.pairwise_cons.mp ho
    rw [List.dropWhile_cons] at hc
    split at hc
    · exact ih hrest hc
    · next hpc =>
      rw [decide_eq_true_eq, UInt64.not_le] at hpc
      rcases List.mem_cons.mp hc with rfl | hm
      · exact hpc
      · exact UInt64.lt_of_lt_of_le hpc (hs c hm)

section
variable {t : ScopeTree} (h : t.Sound)
include h

theorem Sound.root_id : t.root.id = 0 := (h.linked 0 t.root t.getElem?_root).id_eq

theorem Sound.mem_children {s : Scope} (hs : s ∈ t.scopes) (c : Scope) :
    c ∈ t.children s ↔ c ∈ t.scopes ∧ c.parent = some s.id := h.linked.mem_childScopes hs c

/-- The one child that comes into question is the child that holds the counter, if there is one. -/
theorem Sound.childAt?_eq_some_iff {s : Scope} (hs : s ∈ t.scopes) (pc : UInt64) (c : Scope) :
    t.childAt? pc s = some c ↔ c ∈ t.children s ∧ c.contains pc := by
  rw [childAt?, Option.filter_eq_some_iff]
  constructor
  · rintro ⟨hlast, hc⟩
    exact ⟨(List.takeWhile_sublist _).subset (List.mem_of_getLast? hlast), hc⟩
  · rintro ⟨hm, hc⟩
    have hf := h.follows s hs
    have hn (r : Scope) (hr : r ∈ t.children s) : r.range.start < r.range.stop :=
      h.wellFormed.nonempty r ((h.mem_children hs r).mp hr).1
    obtain ⟨before, after, hsplit⟩ := List.append_of_mem hm
    rw [hsplit] at hf hn ⊢
    have htake := takeWhile_start_eq
      (fun r hr => hn r (List.mem_append_left _ hr)) hf hc
    rw [htake]
    exact ⟨by simp, hc⟩

theorem Sound.pairwise_start {s : Scope} (hs : s ∈ t.scopes) :
    (t.children s).Pairwise fun c next => c.range.start ≤ next.range.start := by
  apply (h.follows s hs).imp_of_mem
  intro c next hc _ hf
  have hn := h.wellFormed.nonempty c ((h.mem_children hs c).mp hc).1
  exact UInt64.le_trans (UInt64.le_of_lt hn) hf

end

/-- A finished descent, innermost scope first: each scope was found at the one after it, and nothing
was found at the first. -/
structure Descent (t : ScopeTree) (pc : UInt64) (start : Scope) (passed : List Scope) : Prop where
  starts : passed.getLast? = some start
  steps : passed.IsChain fun c outer => t.childAt? pc outer = some c
  ends : ∀ s, passed.head? = some s → t.childAt? pc s = none

/-- The bound on the length of the path is never met, as numbers grow on the way down. -/
theorem Sound.descend_descent {t : ScopeTree} (h : t.Sound) (pc : UInt64) {start : Scope}
    (left : Nat) {s : Scope} (hs : s ∈ t.scopes) (hleft : t.size ≤ s.id + left)
    {outer : List Scope} (hstart : (s :: outer).getLast? = some start)
    (hsteps : (s :: outer).IsChain fun c outer => t.childAt? pc outer = some c) :
    t.Descent pc start (t.descend pc left s (s :: outer)) := by
  induction left generalizing s outer with
  | zero =>
    -- no steps are left only at a number that no scope has
    exact absurd hleft (Nat.not_le.mpr (h.linked.id_lt hs))
  | succ left ih =>
    rw [descend]
    cases hc : t.childAt? pc s with
    | none =>
      refine ⟨hstart, hsteps, ?_⟩
      rintro r ⟨⟩
      exact hc
    | some c =>
      obtain ⟨hm, hp⟩ := (h.mem_children hs c).mp ((h.childAt?_eq_some_iff hs pc c).mp hc).1
      have hlt := (h.linked.at_id hm).parent_lt s.id hp
      apply ih hm
      · omega
      · rw [List.getLast?_cons_cons]
        exact hstart
      · exact List.isChain_cons_cons.mpr ⟨hc, hsteps⟩

theorem Sound.chain_descent {t : ScopeTree} (h : t.Sound) {pc : UInt64}
    (hpc : t.root.contains pc) : ∃ c, t.chain pc = .ok c ∧ t.Descent pc t.root c := by
  refine ⟨_, by rw [chain, if_pos hpc], ?_⟩
  exact h.descend_descent pc t.size t.root_mem (Nat.le_add_left _ _) List.getLast?_singleton
    (List.isChain_singleton _)

section
variable {t : ScopeTree} (h : t.Sound) {pc : UInt64} {c : List Scope}
include h

theorem Sound.mem_of_steps (hpc : t.root.contains pc) (hstart : c.getLast? = some t.root)
    (hsteps : c.IsChain fun c outer => t.childAt? pc outer = some c) {s : Scope} (hs : s ∈ c) :
    s ∈ t.scopes ∧ s.contains pc := by
  induction c generalizing s with
  | nil => simp at hs
  | cons inner rest ih =>
    cases rest with
    | nil =>
      obtain rfl : inner = t.root := by simpa using hstart
      obtain rfl : s = t.root := by simpa using hs
      exact ⟨t.root_mem, hpc⟩
    | cons outer more =>
      rw [List.getLast?_cons_cons] at hstart
      obtain ⟨hstep, hmore⟩ := List.isChain_cons_cons.mp hsteps
      rcases List.mem_cons.mp hs with rfl | hs
      · have hout := (ih hstart hmore List.mem_cons_self).1
        obtain ⟨hm, hc⟩ := (h.childAt?_eq_some_iff hout pc s).mp hstep
        exact ⟨((h.mem_children hout s).mp hm).1, hc⟩
      · exact ih hstart hmore hs

end

/-- What is found at a scope on the way is on the way too. -/
theorem Descent.mem_of_childAt? {t : ScopeTree} {pc : UInt64} {start : Scope} {c : List Scope}
    (hd : t.Descent pc start c) {outer s : Scope} (ho : outer ∈ c)
    (hs : t.childAt? pc outer = some s) : s ∈ c := by
  obtain ⟨inner, rest, rfl⟩ := List.append_of_mem ho
  rcases List.eq_nil_or_concat inner with rfl | ⟨more, r, rfl⟩
  · have hnone := hd.ends outer rfl
    rw [hs] at hnone
    contradiction
  · have hsteps := hd.steps
    rw [List.concat_append, List.isChain_append_cons_cons] at hsteps
    have he := hsteps.2.1
    rw [hs, Option.some.injEq] at he
    simp [he]

/-- No scope that holds the counter is missed: the descent passes its parent, and then the scope
itself. -/
theorem Sound.mem_descent {t : ScopeTree} (h : t.Sound) {pc : UInt64} {c : List Scope}
    (hd : t.Descent pc t.root c) {s : Scope} (hs : s ∈ t.scopes) (hpc : s.contains pc) : s ∈ c := by
  -- by the number of the scope: the parent has a smaller one and holds the counter as well
  induction hi : s.id using Nat.strong_induction_on generalizing s with
  | _ i ih =>
    subst hi
    cases hp : s.parent with
    | none =>
      have h0 := (h.linked.at_id hs).parent_none_iff.mp hp
      have hroot : s = t.root := h.linked.eq_of_id_eq hs t.root_mem (h0.trans h.root_id.symm)
      exact hroot ▸ List.mem_of_getLast? hd.starts
    | some p =>
      obtain ⟨outer, ho, rfl⟩ := h.linked.exists_parent hs hp
      have hout := h.wellFormed.nested s hs outer ho hp pc hpc
      have hlt := (h.linked.at_id hs).parent_lt outer.id hp
      have hmem := ih outer.id hlt ho hout rfl
      have hchild := (h.childAt?_eq_some_iff ho pc s).mpr ⟨(h.mem_children ho s).mpr ⟨hs, hp⟩, hpc⟩
      exact hd.mem_of_childAt? hmem hchild

/-- The parent of a scope has a smaller number, so numbers fall along the parents. -/
theorem Sound.ids_decrease {t : ScopeTree} (h : t.Sound) {c : List Scope}
    (hmem : ∀ s ∈ c, s ∈ t.scopes) (hparents : c.IsChain fun s outer => s.parent = some outer.id) :
    c.Pairwise fun s outer => outer.id < s.id := by
  have : IsTrans Scope fun s outer => outer.id < s.id :=
    ⟨fun _ _ _ hsr hrq => Nat.lt_trans hrq hsr⟩
  apply List.IsChain.pairwise
  apply hparents.imp_of_mem_imp
  intro s outer hs _ hp
  exact (h.linked.at_id (hmem s hs)).parent_lt outer.id hp

theorem nodup_of_ids_decrease {scopes : List Scope}
    (h : scopes.Pairwise fun s outer => outer.id < s.id) : scopes.Nodup := by
  apply h.imp
  rintro s outer hlt rfl
  exact Nat.lt_irrefl _ hlt

/-- What a chain of scopes at a counter has to be, innermost scope first. -/
structure ExactChain (t : ScopeTree) (pc : UInt64) (c : List Scope) : Prop where
  mem_iff : ∀ s, s ∈ c ↔ s ∈ t.scopes ∧ s.contains pc
  nodup : c.Nodup
  last_root : c.getLast? = some t.root
  parents : c.IsChain fun s outer => s.parent = some outer.id
  ids_decrease : c.Pairwise fun s outer => outer.id < s.id

theorem Sound.exactChain {t : ScopeTree} (h : t.Sound) {pc : UInt64} (hpc : t.root.contains pc)
    {c : List Scope} (hd : t.Descent pc t.root c) : t.ExactChain pc c := by
  have hmem (s : Scope) (hs : s ∈ c) := h.mem_of_steps hpc hd.starts hd.steps hs
  have hparents : c.IsChain fun s outer => s.parent = some outer.id := by
    apply hd.steps.imp_of_mem_imp
    intro s outer hs ho hstep
    have hout := (hmem outer ho).1
    exact ((h.mem_children hout s).mp ((h.childAt?_eq_some_iff hout pc s).mp hstep).1).2
  have hids := h.ids_decrease (fun s hs => (hmem s hs).1) hparents
  exact ⟨fun s => ⟨hmem s, fun hs => h.mem_descent hd hs.1 hs.2⟩, nodup_of_ids_decrease hids,
    hd.starts, hparents, hids⟩

/-- The scopes that hold a counter, found by looking at all of them; those added last come first. -/
def holding (t : ScopeTree) (pc : UInt64) : List Scope :=
  (t.scopes.filter (·.contains pc)).reverse

theorem mem_holding {t : ScopeTree} {pc : UInt64} {s : Scope} :
    s ∈ t.holding pc ↔ s ∈ t.scopes ∧ s.contains pc := by
  rw [holding, List.mem_reverse, List.mem_filter]

theorem Sound.eq_holding {t : ScopeTree} (h : t.Sound) {pc : UInt64} {c : List Scope}
    (hc : t.ExactChain pc c) : c = t.holding pc := by
  have hids : (t.holding pc).Pairwise fun s outer => outer.id < s.id := by
    rw [holding, List.pairwise_reverse]
    exact h.linked.pairwise_id_lt.filter _
  have hperm : c.Perm (t.holding pc) := by
    rw [List.perm_ext_iff_of_nodup hc.nodup (nodup_of_ids_decrease hids)]
    intro s
    rw [hc.mem_iff, mem_holding]
  exact hperm.eq_of_pairwise (fun s r _ _ hsr hrs => absurd hsr (Nat.lt_asymm hrs))
    hc.ids_decrease hids

theorem Sound.chain_eq_holding {t : ScopeTree} (h : t.Sound) {pc : UInt64}
    (hpc : t.root.contains pc) :
    t.chain pc = .ok (t.holding pc) ∧ t.ExactChain pc (t.holding pc) := by
  obtain ⟨c, hc, hd⟩ := h.chain_descent hpc
  have hexact := h.exactChain hpc hd
  have he := h.eq_holding hexact
  exact ⟨he ▸ hc, he ▸ hexact⟩

/-- The chain is refused exactly outside the function. Inside, the descent comes to an end by itself
and gives the scopes that hold the counter, each followed by its parent. -/
theorem chain_lookup_exact {b : ScopeBuilder} (hb : b.Reachable) {t : ScopeTree}
    (ht : b.build = .ok t) (pc : UInt64) :
    (t.chain pc = .error (.pcOutOfRange pc t.root.range) ↔ ¬ t.root.contains pc) ∧
    (t.root.contains pc →
      ∃ c, t.chain pc = .ok c ∧ t.ExactChain pc c ∧ t.Descent pc t.root c) ∧
    ∀ s ∈ t.scopes,
      (∀ c, t.childAt? pc s = some c ↔ c ∈ t.scopes ∧ c.parent = some s.id ∧ c.contains pc) ∧
      ∀ c ∈ (t.children s).dropWhile (·.range.start ≤ pc), pc < c.range.start := by
  have h := sound_of_build hb ht
  refine ⟨?_, ?_, fun s hs => ⟨fun c => ?_, fun c hc => ?_⟩⟩
  · by_cases hpc : t.root.contains pc <;> simp [chain, hpc, range]
  · intro hpc
    obtain ⟨c, hc, hd⟩ := h.chain_descent hpc
    exact ⟨c, hc, h.exactChain hpc hd, hd⟩
  · rw [h.childAt?_eq_some_iff hs, h.mem_children hs, and_assoc]
  · exact lt_start_of_mem_dropWhile (h.pairwise_start hs) hc

theorem twoBlocks_chain : twoBlocks.build = .ok twoBlocksTree ∧ twoBlocksTree.root.contains 0x185 ∧
    ∃ c, twoBlocksTree.chain 0x185 = .ok c ∧ twoBlocksTree.ExactChain 0x185 c ∧
      twoBlocksTree.Descent 0x185 twoBlocksTree.root c :=
  ⟨build_twoBlocks, by decide,
    (chain_lookup_exact twoBlocks_reachable build_twoBlocks 0x185).2.1 (by decide)⟩

end ScopeTree

end FrameLens
