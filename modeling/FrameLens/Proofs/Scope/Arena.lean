import FrameLens.Scope.Builder
import Mathlib.Data.List.Basic

/-!
Runs of a scope builder. Whatever calls are made, the scopes stay linked: a scope is found under its
own number, its parent was there before it, and it is listed once among the children of that parent.
-/
namespace FrameLens

/-- A call that asks a builder for something. -/
inductive BuilderCall where
  | addBlock (parent : ScopeId) (range : AddressRange)
  | addInlined (parent : ScopeId) (range : AddressRange) (site : CallSite)
  | declare (scope : ScopeId) (d : Declaration)
  deriving DecidableEq, Repr

namespace ScopeBuilder

/-- The builder after a call, and what it answers: the number of a scope that was added, or why it
refused. -/
def perform (b : ScopeBuilder) : BuilderCall → ScopeBuilder × Except ScopeFault (Option ScopeId)
  | .addBlock parent range => (b.addBlock parent range).map id (Except.map some)
  | .addInlined parent range site => (b.addInlined parent range site).map id (Except.map some)
  | .declare scope d => (b.declare scope d).map id (Except.map fun _ => none)

def after (b : ScopeBuilder) (call : BuilderCall) : ScopeBuilder := (b.perform call).1

def run (b : ScopeBuilder) (calls : List BuilderCall) : ScopeBuilder := calls.foldl after b

/-- Builders that come about by calls, refused ones among them. -/
def Reachable (b : ScopeBuilder) : Prop := ∃ name range calls, b = (start name range).run calls

/-- The scopes once a new one stands under `parent`. -/
def withScope (scopes : List Scope) (parent : ScopeId) (kind : ScopeKind) (range : AddressRange) :
    List Scope :=
  scopes.modify parent (Scope.adopt scopes.length) ++
    [Scope.bare scopes.length (some parent) kind range]

end ScopeBuilder

namespace BuilderCall

/-- The scope that a call names: the parent of a new one, or the one to declare in. -/
def target : BuilderCall → ScopeId
  | addBlock parent _ => parent
  | addInlined parent _ _ => parent
  | declare scope _ => scope

/-- Parent, kind and range of the scope that a call asks for. -/
def added? : BuilderCall → Option (Option ScopeId × ScopeKind × AddressRange)
  | addBlock parent range => some (some parent, .block, range)
  | addInlined parent range site => some (some parent, .inlined site, range)
  | declare _ _ => none

/-- What a call makes of scopes among which its target is. -/
def effect (scopes : List Scope) : BuilderCall → List Scope
  | addBlock parent range => ScopeBuilder.withScope scopes parent .block range
  | addInlined parent range site => ScopeBuilder.withScope scopes parent (.inlined site) range
  | declare scope d => scopes.modify scope (Scope.declare scope d)

end BuilderCall

namespace ScopeBuilder

section
variable {b : ScopeBuilder} {parent scope : ScopeId}

theorem addScope_of_lt (h : parent < b.scopes.length) (kind : ScopeKind) (range : AddressRange) :
    ∃ next, b.addScope parent kind range = (next, .ok b.scopes.length) ∧
      next.scopes = withScope b.scopes parent kind range :=
  ⟨_, if_pos h, rfl⟩

theorem addScope_of_le (h : b.scopes.length ≤ parent) (kind : ScopeKind) (range : AddressRange) :
    b.addScope parent kind range = (b, .error (.unknownScope parent)) :=
  if_neg (Nat.not_lt.mpr h)

theorem declare_of_lt (h : scope < b.scopes.length) (d : Declaration) :
    ∃ next, b.declare scope d = (next, .ok ()) ∧
      next.scopes = b.scopes.modify scope (Scope.declare scope d) :=
  ⟨_, if_pos h, rfl⟩

theorem declare_of_le (h : b.scopes.length ≤ scope) (d : Declaration) :
    b.declare scope d = (b, .error (.unknownScope scope)) :=
  if_neg (Nat.not_lt.mpr h)

end

variable {b : ScopeBuilder} {call : BuilderCall}

theorem perform_of_target_lt (h : call.target < b.scopes.length) :
    ∃ next, b.perform call = (next, .ok (call.added?.map fun _ => b.scopes.length)) ∧
      next.scopes = call.effect b.scopes := by
  cases call with
  | addBlock parent range =>
    obtain ⟨next, hnext, hscopes⟩ := addScope_of_lt h .block range
    exact ⟨next, congrArg (Prod.map id (Except.map some)) hnext, hscopes⟩
  | addInlined parent range site =>
    obtain ⟨next, hnext, hscopes⟩ := addScope_of_lt h (.inlined site) range
    exact ⟨next, congrArg (Prod.map id (Except.map some)) hnext, hscopes⟩
  | declare scope d =>
    obtain ⟨next, hnext, hscopes⟩ := declare_of_lt h d
    exact ⟨next, congrArg (Prod.map id (Except.map fun _ => none)) hnext, hscopes⟩

theorem perform_of_le_target (h : b.scopes.length ≤ call.target) :
    b.perform call = (b, .error (.unknownScope call.target)) := by
  cases call with
  | addBlock parent range =>
    exact congrArg (Prod.map id (Except.map some)) (addScope_of_le h .block range)
  | addInlined parent range site =>
    exact congrArg (Prod.map id (Except.map some)) (addScope_of_le h (.inlined site) range)
  | declare scope d =>
    exact congrArg (Prod.map id (Except.map fun _ => none)) (declare_of_le h d)

/-- All that a call can do to the scopes: what it is for, or nothing. -/
theorem scopes_after (b : ScopeBuilder) (call : BuilderCall) :
    (b.after call).scopes =
      if call.target < b.scopes.length then call.effect b.scopes else b.scopes := by
  unfold after
  split
  · next h =>
    obtain ⟨next, hnext, hscopes⟩ := perform_of_target_lt h
    rw [hnext, hscopes]
  · next h => rw [perform_of_le_target (Nat.le_of_not_lt h)]

end ScopeBuilder

/-- The number of the parent of the scope with a given number. -/
def parentOf? (scopes : List Scope) (id : ScopeId) : Option ScopeId :=
  (scopes[id]?).bind Scope.parent

/-- How the scope with number `i` refers to the others, and they to it. -/
structure LinkedAt (scopes : List Scope) (i : Nat) (s : Scope) : Prop where
  id_eq : s.id = i
  parent_none_iff : s.parent = none ↔ i = 0
  parent_lt : ∀ p : Nat, s.parent = some p → p < i
  mem_children_iff : ∀ j, j ∈ s.children ↔ parentOf? scopes j = some i
  children_nodup : s.children.Nodup
  function_iff : (∃ name, s.kind = .function name) ↔ i = 0
  declared_in : ∀ d ∈ s.declarations, d.scope = some i

def Linked (scopes : List Scope) : Prop := ∀ i s, scopes[i]? = some s → LinkedAt scopes i s

theorem linked_start (name : String) (range : AddressRange) :
    Linked (ScopeBuilder.start name range).scopes := by
  intro i s hs
  cases i with
  | zero =>
    obtain rfl : Scope.bare 0 none (.function name) range = s := by
      simpa [ScopeBuilder.start] using hs
    refine ⟨rfl, by simp [Scope.bare], by simp [Scope.bare], ?_, by simp [Scope.bare],
      by simp [Scope.bare], by simp [Scope.bare]⟩
    intro j
    cases j <;> simp [parentOf?, ScopeBuilder.start, Scope.bare]
  | succ i => simp [ScopeBuilder.start] at hs

/-- Scopes stay linked when parents, kinds and the sets of children are kept and declarations that
come in name the scope that they are in. -/
theorem Linked.of_same_links {scopes next : List Scope} (hl : Linked scopes)
    (hp : ∀ j, parentOf? next j = parentOf? scopes j)
    (hn : ∀ (i : Nat) (s : Scope), next[i]? = some s → ∃ old, scopes[i]? = some old ∧
      s.id = old.id ∧ s.parent = old.parent ∧ s.kind = old.kind ∧
      s.children.Perm old.children ∧
      ∀ d ∈ s.declarations, d ∈ old.declarations ∨ d.scope = some i) :
    Linked next := by
  intro i s hs
  obtain ⟨old, ho, hid, hparent, hkind, hchildren, hd⟩ := hn i s hs
  have h := hl i old ho
  refine ⟨hid.trans h.id_eq, by rw [hparent, h.parent_none_iff], ?_, ?_,
    hchildren.nodup_iff.mpr h.children_nodup, by rw [hkind, h.function_iff], ?_⟩
  · intro p hs
    exact h.parent_lt p (hparent ▸ hs)
  · intro j
    rw [hp, ← h.mem_children_iff, hchildren.mem_iff]
  · intro d hmem
    rcases hd d hmem with hold | hnew
    · exact h.declared_in d hold
    · exact hnew

theorem Linked.declare {scopes : List Scope} (hl : Linked scopes) (scope : ScopeId)
    (d : Declaration) : Linked (scopes.modify scope (Scope.declare scope d)) := by
  apply hl.of_same_links
  · intro j
    simp only [parentOf?, List.getElem?_modify]
    cases scopes[j]? with
    | none => rfl
    | some s => by_cases hj : scope = j <;> simp [hj, Scope.declare]
  · intro i s hs
    rw [List.getElem?_modify] at hs
    obtain ⟨old, ho, rfl⟩ := Option.map_eq_some_iff.mp hs
    refine ⟨old, ho, ?_⟩
    by_cases hi : scope = i
    · simp only [hi, ↓reduceIte, Scope.declare, List.mem_append, List.mem_singleton, true_and]
      refine ⟨List.Perm.refl _, ?_⟩
      rintro e (he | rfl)
      · exact Or.inl he
      · exact Or.inr rfl
    · simp only [hi, ↓reduceIte, true_and]
      exact ⟨List.Perm.refl _, fun e he => Or.inl he⟩

namespace ScopeBuilder

theorem getElem?_withScope (scopes : List Scope) (parent : ScopeId) (kind : ScopeKind)
    (range : AddressRange) (i : Nat) :
    (withScope scopes parent kind range)[i]? =
      if i = scopes.length then some (Scope.bare scopes.length (some parent) kind range)
      else (scopes[i]?).map fun s => if parent = i then Scope.adopt scopes.length s else s := by
  by_cases hi : i < scopes.length
  · rw [withScope, List.getElem?_append_left (by simpa using hi), List.getElem?_modify,
      if_neg (Nat.ne_of_lt hi)]
    rfl
  · rw [withScope, List.getElem?_append_right (by simpa using Nat.le_of_not_lt hi),
      List.length_modify]
    by_cases he : i = scopes.length
    · simp [he]
    · have hn : scopes[i]? = none := List.getElem?_eq_none (Nat.le_of_not_lt hi)
      have hd : i - scopes.length ≠ 0 := by omega
      simp [he, hn, hd]

theorem parentOf?_withScope (scopes : List Scope) (parent : ScopeId) (kind : ScopeKind)
    (range : AddressRange) (j : ScopeId) :
    parentOf? (withScope scopes parent kind range) j =
      if j = scopes.length then some parent else parentOf? scopes j := by
  simp only [parentOf?, getElem?_withScope]
  by_cases hj : j = scopes.length
  · simp [hj, Scope.bare]
  · cases hs : scopes[j]? with
    | none => simp [hj]
    | some s => by_cases hp : parent = j <;> simp [hj, hp, Scope.adopt]

end ScopeBuilder

theorem Linked.parentOf?_lt {scopes : List Scope} (hl : Linked scopes) {j p : Nat}
    (h : parentOf? scopes j = some p) : p < j ∧ j < scopes.length := by
  obtain ⟨s, hs, hp⟩ := Option.bind_eq_some_iff.mp h
  exact ⟨(hl j s hs).parent_lt p hp, (List.getElem?_eq_some_iff.mp hs).1⟩

theorem Linked.parentOf?_length_ne {scopes : List Scope} (hl : Linked scopes) (p : ScopeId) :
    parentOf? scopes scopes.length ≠ some p := by
  intro h
  exact Nat.lt_irrefl _ (hl.parentOf?_lt h).2

section
variable {scopes : List Scope} (hl : Linked scopes) {parent : ScopeId} {kind : ScopeKind}
  (range : AddressRange)
include hl

/-- The new scope has no children, since its number was not in use as a parent. -/
theorem Linked.linkedAt_new (hp : parent < scopes.length) (hk : ∀ name, kind ≠ .function name) :
    LinkedAt (ScopeBuilder.withScope scopes parent kind range) scopes.length
      (Scope.bare scopes.length (some parent) kind range) := by
  have hpos : scopes.length ≠ 0 := Nat.ne_of_gt (Nat.zero_lt_of_lt hp)
  refine ⟨rfl, by simp [Scope.bare, hpos], ?_, ?_, by simp [Scope.bare],
    by simp [Scope.bare, hk, hpos], by simp [Scope.bare]⟩
  · rintro p ⟨⟩
    exact hp
  · intro j
    rw [ScopeBuilder.parentOf?_withScope]
    by_cases hj : j = scopes.length
    · simp [Scope.bare, hj, Nat.ne_of_lt hp]
    · have hnot : parentOf? scopes j ≠ some scopes.length := by
        intro h
        have hlt := hl.parentOf?_lt h
        omega
      simp [Scope.bare, hj, hnot]

/-- The parent gets one child more, which is the new scope. -/
theorem Linked.linkedAt_adopt {s : Scope} (hs : scopes[parent]? = some s) :
    LinkedAt (ScopeBuilder.withScope scopes parent kind range) parent
      (Scope.adopt scopes.length s) := by
  have h := hl parent s hs
  refine ⟨h.id_eq, h.parent_none_iff, h.parent_lt, ?_, ?_, h.function_iff, h.declared_in⟩
  · intro j
    rw [ScopeBuilder.parentOf?_withScope]
    by_cases hj : j = scopes.length <;> simp [Scope.adopt, hj, h.mem_children_iff]
  · have hout : scopes.length ∉ s.children := by
      rw [h.mem_children_iff]
      exact hl.parentOf?_length_ne parent
    rw [Scope.adopt, List.nodup_append]
    refine ⟨h.children_nodup, List.pairwise_singleton _ _, ?_⟩
    intro a ha c hc he
    rw [List.mem_singleton.mp hc] at he
    exact hout (he ▸ ha)

theorem Linked.linkedAt_other {i : Nat} (hi : parent ≠ i) {s : Scope} (hs : scopes[i]? = some s) :
    LinkedAt (ScopeBuilder.withScope scopes parent kind range) i s := by
  have h := hl i s hs
  refine ⟨h.id_eq, h.parent_none_iff, h.parent_lt, ?_, h.children_nodup, h.function_iff,
    h.declared_in⟩
  intro j
  rw [ScopeBuilder.parentOf?_withScope, h.mem_children_iff]
  by_cases hj : j = scopes.length
  · simp [hj, hi, hl.parentOf?_length_ne]
  · simp [hj]

theorem Linked.withScope (hp : parent < scopes.length) (hk : ∀ name, kind ≠ .function name) :
    Linked (ScopeBuilder.withScope scopes parent kind range) := by
  intro i s hs
  rw [ScopeBuilder.getElem?_withScope] at hs
  by_cases hi : i = scopes.length
  · rw [if_pos hi, Option.some.injEq] at hs
    subst hs hi
    exact hl.linkedAt_new range hp hk
  · rw [if_neg hi] at hs
    obtain ⟨old, ho, rfl⟩ := Option.map_eq_some_iff.mp hs
    by_cases hpi : parent = i
    · subst hpi
      rw [if_pos rfl]
      exact hl.linkedAt_adopt range ho
    · rw [if_neg hpi]
      exact hl.linkedAt_other range hpi ho

end

/-- One call keeps the scopes linked. -/
theorem Linked.after {b : ScopeBuilder} (hl : Linked b.scopes) (call : BuilderCall) :
    Linked (b.after call).scopes := by
  rw [b.scopes_after call]
  split
  · next h =>
    cases call with
    | addBlock parent range => exact hl.withScope range h (by simp)
    | addInlined parent range site => exact hl.withScope range h (by simp)
    | declare scope d => exact hl.declare scope d
  · exact hl

theorem Linked.run {b : ScopeBuilder} (hl : Linked b.scopes) (calls : List BuilderCall) :
    Linked (b.run calls).scopes := by
  induction calls generalizing b with
  | nil => exact hl
  | cons call rest ih => exact ih (hl.after call)

theorem ScopeBuilder.Reachable.linked {b : ScopeBuilder} (hb : b.Reachable) : Linked b.scopes := by
  obtain ⟨name, range, calls, rfl⟩ := hb
  exact (linked_start name range).run calls

/-- The scopes directly in a scope. -/
def childScopes (scopes : List Scope) (s : Scope) : List Scope := s.children.filterMap (scopes[·]?)

namespace Linked

variable {scopes : List Scope}

theorem getElem?_id (hl : Linked scopes) {s : Scope} (hs : s ∈ scopes) :
    scopes[s.id]? = some s := by
  obtain ⟨i, hi⟩ := List.mem_iff_getElem?.mp hs
  rw [(hl i s hi).id_eq]
  exact hi

theorem at_id (hl : Linked scopes) {s : Scope} (hs : s ∈ scopes) : LinkedAt scopes s.id s :=
  hl s.id s (hl.getElem?_id hs)

theorem id_lt (hl : Linked scopes) {s : Scope} (hs : s ∈ scopes) : s.id < scopes.length :=
  (List.getElem?_eq_some_iff.mp (hl.getElem?_id hs)).1

theorem eq_of_id_eq (hl : Linked scopes) {s r : Scope} (hs : s ∈ scopes) (hr : r ∈ scopes)
    (hid : s.id = r.id) : s = r := by
  have hfound := hl.getElem?_id hs
  rw [hid, hl.getElem?_id hr] at hfound
  exact (Option.some.inj hfound).symm

theorem parent_lt_length (hl : Linked scopes) {s : Scope} (hs : s ∈ scopes) {p : ScopeId}
    (hp : s.parent = some p) : p < scopes.length :=
  Nat.lt_trans ((hl.at_id hs).parent_lt p hp) (hl.id_lt hs)

theorem pairwise_id_lt (hl : Linked scopes) : scopes.Pairwise fun s r => s.id < r.id := by
  rw [List.pairwise_iff_getElem]
  intro i j hi hj hij
  rw [(hl i _ (List.getElem?_eq_getElem hi)).id_eq, (hl j _ (List.getElem?_eq_getElem hj)).id_eq]
  exact hij

/-- Every parent that is named is there. -/
theorem exists_parent (hl : Linked scopes) {s : Scope} (hs : s ∈ scopes) {p : ScopeId}
    (hp : s.parent = some p) : ∃ outer ∈ scopes, outer.id = p := by
  have hlt := hl.parent_lt_length hs hp
  have hmem := List.getElem_mem hlt
  exact ⟨scopes[p], hmem, (hl p scopes[p] (List.getElem?_eq_getElem hlt)).id_eq⟩

/-- The children of a scope are those scopes that name it as their parent. -/
theorem mem_childScopes (hl : Linked scopes) {s : Scope} (hs : s ∈ scopes) (c : Scope) :
    c ∈ childScopes scopes s ↔ c ∈ scopes ∧ c.parent = some s.id := by
  simp only [childScopes, List.mem_filterMap, (hl.at_id hs).mem_children_iff, parentOf?]
  constructor
  · rintro ⟨j, hp, hc⟩
    rw [hc] at hp
    exact ⟨List.mem_of_getElem? hc, hp⟩
  · rintro ⟨hc, hp⟩
    have hi := hl.getElem?_id hc
    exact ⟨c.id, by simpa [hi] using hp, hi⟩

theorem map_id_childScopes (hl : Linked scopes) {s : Scope} (hs : s ∈ scopes) :
    (childScopes scopes s).map Scope.id = s.children := by
  have hall (j : ScopeId) (hj : j ∈ s.children) : (scopes[j]?).map Scope.id = some j := by
    rw [(hl.at_id hs).mem_children_iff] at hj
    obtain ⟨c, hc, -⟩ := Option.bind_eq_some_iff.mp hj
    rw [hc, Option.map_some, (hl j c hc).id_eq]
  rw [childScopes, List.map_filterMap, List.filterMap_congr hall, List.filterMap_some]

theorem pairwise_id_ne_childScopes (hl : Linked scopes) {s : Scope} (hs : s ∈ scopes) :
    (childScopes scopes s).Pairwise fun c next => c.id ≠ next.id := by
  rw [← List.pairwise_map, hl.map_id_childScopes hs]
  exact (hl.at_id hs).children_nodup

end Linked

end FrameLens
