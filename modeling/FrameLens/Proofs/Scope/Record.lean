import FrameLens.Proofs.Scope.Acceptance
import FrameLens.Session.Basic

/-!
What the scopes of a builder hold after a run. A call is accepted just when the scope that it names
is there by then. The scopes are those that accepted calls asked for, and each declares what
accepted calls declared in it, all in the order of the calls. Building changes nothing of this.
-/
namespace FrameLens

namespace BuilderCall

/-- What a call declares in the scope with a given number. -/
def declaredIn? (id : ScopeId) : BuilderCall → Option Declaration
  | declare scope d => if scope = id then some { d with scope := some id } else none
  | _ => none

/-- The calls that name a scope which is there by then, if `count` scopes are there at first. -/
def accepted (count : Nat) : List BuilderCall → List BuilderCall
  | [] => []
  | call :: rest =>
    if call.target < count then call :: accepted (count + call.added?.toList.length) rest
    else accepted count rest

end BuilderCall

open BuilderCall

def Scope.outline (s : Scope) : Option ScopeId × ScopeKind × AddressRange :=
  (s.parent, s.kind, s.range)

/-- What is declared in the scope with a given number; nothing if there is none. -/
def declarationsOf (scopes : List Scope) (id : ScopeId) : List Declaration :=
  (scopes[id]?).elim [] Scope.declarations

/-- The second scopes are the first with what calls added and declared behind it. -/
structure Records (scopes : List Scope) (calls : List BuilderCall) (next : List Scope) : Prop where
  outlines : next.map Scope.outline = scopes.map Scope.outline ++ calls.filterMap added?
  declarations : ∀ id, declarationsOf next id =
    declarationsOf scopes id ++ calls.filterMap (declaredIn? id)

namespace Records

theorem nil (scopes : List Scope) : Records scopes [] scopes :=
  ⟨(List.append_nil _).symm, fun _ => (List.append_nil _).symm⟩

theorem cons {scopes next last : List Scope} {call : BuilderCall} {calls : List BuilderCall}
    (h : Records scopes [call] next) (hrest : Records next calls last) :
    Records scopes (call :: calls) last := by
  constructor
  · rw [hrest.outlines, h.outlines, List.append_assoc, ← List.filterMap_append,
      List.singleton_append]
  · intro id
    rw [hrest.declarations, h.declarations, List.append_assoc, ← List.filterMap_append,
      List.singleton_append]

theorem length_eq {scopes next : List Scope} {calls : List BuilderCall}
    (h : Records scopes calls next) :
    next.length = scopes.length + (calls.filterMap added?).length := by
  have hlen := congrArg List.length h.outlines
  simpa using hlen

end Records

namespace ScopeBuilder

/-- A change that cannot be told from one side is not seen in a list from there. -/
theorem map_modify {α : Type} (view : Scope → α) (change : Scope → Scope) {scopes : List Scope}
    {id : ScopeId} (h : ∀ s, scopes[id]? = some s → view (change s) = view s) :
    (scopes.modify id change).map view = scopes.map view := by
  apply List.ext_getElem?
  intro i
  rw [List.getElem?_map, List.getElem?_map, List.getElem?_modify]
  cases hs : scopes[i]? with
  | none => rfl
  | some s =>
    by_cases hi : id = i
    · simp [hi, h s (hi ▸ hs)]
    · simp [hi]

theorem records_withScope {scopes : List Scope} {parent : ScopeId} {kind : ScopeKind}
    {range : AddressRange} {call : BuilderCall}
    (hadded : call.added? = some (some parent, kind, range))
    (hdeclared : ∀ id, call.declaredIn? id = none) :
    Records scopes [call] (withScope scopes parent kind range) := by
  constructor
  · rw [withScope, List.map_append, map_modify Scope.outline (Scope.adopt _) (fun _ _ => rfl)]
    simp [hadded, Scope.outline, Scope.bare]
  · intro id
    simp only [List.filterMap_cons, hdeclared, List.filterMap_nil, List.append_nil]
    unfold declarationsOf
    rw [getElem?_withScope]
    split
    · next hid => simp [hid, Scope.bare]
    · cases scopes[id]? with
      | none => rfl
      | some s => by_cases hp : parent = id <;> simp [hp, Scope.adopt]

theorem records_declare {scopes : List Scope} {scope : ScopeId} (hs : scope < scopes.length)
    (d : Declaration) :
    Records scopes [.declare scope d] (scopes.modify scope (Scope.declare scope d)) := by
  constructor
  · rw [map_modify Scope.outline (Scope.declare scope d) (fun _ _ => rfl)]
    simp [added?]
  · intro id
    unfold declarationsOf
    rw [List.getElem?_modify]
    by_cases hid : scope = id
    · subst hid
      have hfound := List.getElem?_eq_getElem hs
      simp [hfound, declaredIn?, Scope.declare]
    · cases scopes[id]? <;> simp [hid, declaredIn?]

theorem records_effect {scopes : List Scope} {call : BuilderCall}
    (h : call.target < scopes.length) : Records scopes [call] (call.effect scopes) := by
  cases call with
  | addBlock parent range => exact records_withScope rfl fun _ => rfl
  | addInlined parent range site => exact records_withScope rfl fun _ => rfl
  | declare scope d => exact records_declare h d

end ScopeBuilder

theorem Linked.children_lt {scopes : List Scope} (hl : Linked scopes) :
    ∀ s ∈ scopes, ∀ id ∈ s.children, id < scopes.length := by
  intro s hs id hid
  rw [(hl.at_id hs).mem_children_iff] at hid
  exact (hl.parentOf?_lt hid).2

/-- A run records the calls that are accepted, and no others. -/
theorem Linked.records_run {b : ScopeBuilder} (hl : Linked b.scopes) (calls : List BuilderCall) :
    Records b.scopes (accepted b.scopes.length calls) (b.run calls).scopes := by
  induction calls generalizing b with
  | nil => exact Records.nil b.scopes
  | cons call rest ih =>
    have hrest := ih (hl.after call)
    have hscopes := b.scopes_after call
    change Records b.scopes _ ((b.after call).run rest).scopes
    unfold accepted
    split
    · next h =>
      rw [if_pos h] at hscopes
      have hstep : Records b.scopes [call] (b.after call).scopes :=
        hscopes ▸ ScopeBuilder.records_effect h
      have hcount : (b.after call).scopes.length =
          b.scopes.length + call.added?.toList.length := by
        rw [hstep.length_eq]
        cases call <;> rfl
      rw [hcount] at hrest
      exact hstep.cons hrest
    · next h =>
      rw [if_neg h] at hscopes
      rwa [hscopes] at hrest

/-- What scopes are after calls on a new builder: well linked, with every scope and every
declaration that an accepted call asked for, and nothing else. -/
structure Arena (name : String) (range : AddressRange) (calls : List BuilderCall)
    (scopes : List Scope) : Prop where
  linked : Linked scopes
  children_lt : ∀ s ∈ scopes, ∀ id ∈ s.children, id < scopes.length
  outlines : scopes.map Scope.outline =
    (none, .function name, range) :: (accepted 1 calls).filterMap added?
  declarations : ∀ id s, scopes[id]? = some s →
    s.declarations = (accepted 1 calls).filterMap (declaredIn? id)

/-- A session is left as it was by a call that refuses and leaves the builder as it was. -/
theorem Session.callBuilder_of_refused {s : Session} {b : ScopeBuilder} (hs : s.builder = some b)
    {α : Type} {reply : α → Reply} {call : ScopeBuilder → ScopeBuilder × Except ScopeFault α}
    {fault : ScopeFault} (h : call b = (b, .error fault)) :
    s.callBuilder reply call = (s, .failed (.scope fault)) := by
  simp only [callBuilder, hs, h]
  rw [← hs]

namespace ScopeBuilder

theorem arena_run (name : String) (range : AddressRange) (calls : List BuilderCall) :
    Arena name range calls ((start name range).run calls).scopes := by
  have hl := (linked_start name range).run calls
  have hrecords := (linked_start name range).records_run calls
  refine ⟨hl, hl.children_lt, hrecords.outlines, ?_⟩
  · intro id s hs
    have hdeclared := hrecords.declarations id
    have hnone : declarationsOf (start name range).scopes id = [] := by
      cases id <;> rfl
    rw [hnone, List.nil_append, declarationsOf, hs] at hdeclared
    exact hdeclared

/-- Only the order of children changes when a tree is built. -/
theorem arena_arranged {name : String} {range : AddressRange} {calls : List BuilderCall}
    {scopes : List Scope} (h : Arena name range calls scopes) :
    Arena name range calls (arranged scopes) := by
  have hl := linked_arranged h.linked
  refine ⟨hl, hl.children_lt, ?_, ?_⟩
  · rw [← h.outlines, arranged, List.map_map]
    rfl
  · intro id s hs
    rw [getElem?_arranged] at hs
    obtain ⟨old, ho, rfl⟩ := Option.map_eq_some_iff.mp hs
    exact h.declarations id old ho

/-- A change of a session that makes a call, once the location of a variable could be read. -/
inductive Makes : Change → BuilderCall → Prop
  | addBlock (parent : ScopeId) (range : AddressRange) :
      Makes (.addBlock parent range) (.addBlock parent range)
  | addInlined (parent : ScopeId) (range : AddressRange) (site : CallSite) :
      Makes (.addInlined parent range site) (.addInlined parent range site)
  | declare (scope : ScopeId) {entry : VariableEntry} {d : Declaration}
      (h : entry.resolve = .ok d) : Makes (.declare scope entry) (.declare scope d)

theorem apply_of_le_target {s : Session} {b : ScopeBuilder} (hs : s.builder = some b)
    {change : Change} {call : BuilderCall} (hmakes : Makes change call)
    (h : b.scopes.length ≤ call.target) :
    s.apply change = (s, .failed (.scope (.unknownScope call.target))) := by
  cases hmakes with
  | addBlock parent range =>
    exact Session.callBuilder_of_refused hs (addScope_of_le h .block range)
  | addInlined parent range site =>
    exact Session.callBuilder_of_refused hs (addScope_of_le h (.inlined site) range)
  | @declare scope entry d hentry =>
    rw [Session.apply, Session.declare, hentry]
    exact Session.callBuilder_of_refused hs (declare_of_le h d)

/-- Whatever calls are made on a new builder, its scopes are the record of those that were accepted.
A call is accepted exactly if the scope that it names is there, and answers with the number of the
scope that it adds; one that is refused leaves the builder and the session around it as they were.
A tree that is built holds the same record. -/
theorem run_records_calls (name : String) (range : AddressRange) (calls : List BuilderCall) :
    let b := (start name range).run calls
    Arena name range calls b.scopes ∧
    (∀ call, call.target < b.scopes.length →
      ∃ next, b.perform call = (next, .ok (call.added?.map fun _ => b.scopes.length))) ∧
    (∀ call, b.scopes.length ≤ call.target →
      b.perform call = (b, .error (.unknownScope call.target)) ∧
      ∀ (s : Session) change, s.builder = some b → Makes change call →
        s.apply change = (s, .failed (.scope (.unknownScope call.target)))) ∧
    ∀ t, b.build = .ok t → Arena name range calls t.scopes := by
  intro b
  have harena : Arena name range calls b.scopes := arena_run name range calls
  refine ⟨harena, ?_, ?_, ?_⟩
  · intro call h
    obtain ⟨next, hnext, -⟩ := perform_of_target_lt h
    exact ⟨next, hnext⟩
  · intro call h
    exact ⟨perform_of_le_target h, fun s change hs hmakes => apply_of_le_target hs hmakes h⟩
  · intro t ht
    rw [((build_eq_ok_iff b t).mp ht).1]
    exact arena_arranged harena

/-- A call that comes too early, and declarations in two scopes in turn. -/
def mixedCalls : List BuilderCall := [
  .addBlock 1 ⟨0x110, 0x120⟩,
  .declare 0 ⟨"x", .bool, .parameter, .constant [1], [], none, none⟩,
  .addBlock 0 ⟨0x110, 0x120⟩,
  .declare 1 ⟨"x", .char, .local, .register ⟨5⟩, [], none, none⟩,
  .declare 0 ⟨"y", .bool, .local, .unavailable, [], none, none⟩]

theorem mixedCalls_recorded :
    let b := (start "main" ⟨0x100, 0x200⟩).run mixedCalls
    accepted 1 mixedCalls = mixedCalls.tail ∧ b.scopes.length = 2 ∧
    Arena "main" ⟨0x100, 0x200⟩ mixedCalls b.scopes ∧
    b.perform (.addBlock 2 ⟨0x114, 0x118⟩) = (b, .error (.unknownScope 2)) ∧
    ∃ t, b.build = .ok t ∧ Arena "main" ⟨0x100, 0x200⟩ mixedCalls t.scopes := by
  intro b
  obtain ⟨harena, -, hrefused, hbuilt⟩ := run_records_calls "main" ⟨0x100, 0x200⟩ mixedCalls
  obtain ⟨hsame, -⟩ := hrefused (.addBlock 2 ⟨0x114, 0x118⟩) (Nat.le_refl 2)
  exact ⟨rfl, rfl, harena, hsame, _, rfl, hbuilt _ rfl⟩

end ScopeBuilder

end FrameLens
