import FrameLens.Frame.Variables
import FrameLens.Proofs.Location.Evaluation
import FrameLens.Proofs.Scope.Chain
import FrameLens.Proofs.Scope.Visibility
import FrameLens.Sample

/-!
The variables listed at a stop: one for each declaration that is seen there, with the value that its
own storage gives, whatever becomes of the others.
-/
namespace FrameLens

/-- What an entry says about a declaration: the declared parts as they were declared, and the rest
as it was found at the place where the variable is at that counter. -/
structure Shows (pc : UInt64) (snapshot : Snapshot) (d : Declaration) (v : ResolvedVariable) :
    Prop where
  name_eq : v.name = d.name
  type_eq : v.type = d.type
  kind_eq : v.kind = d.kind
  storage_eq : v.storage = (d.locationAt pc).storage
  register_eq : v.register = (d.locationAt pc).register?
  found : ∃ raw, (d.locationAt pc).evaluate snapshot d.type.size = .ok raw ∧
    v.value = Value.decode d.type raw ∧ v.address = raw.address?

namespace Declaration

variable (pc : UInt64) (snapshot : Snapshot)

theorem resolve_eq_ok_iff (d : Declaration) (v : ResolvedVariable) :
    d.resolve pc snapshot = .ok v ↔ Shows pc snapshot d v := by
  simp only [resolve]
  constructor
  · intro h
    cases he : (d.locationAt pc).evaluate snapshot d.type.size with
    | error e => simp [he, Except.map] at h
    | ok raw =>
      simp only [he, Except.map, Except.ok.injEq] at h
      subst h
      exact ⟨rfl, rfl, rfl, rfl, rfl, raw, he, rfl, rfl⟩
  · rintro ⟨hname, htype, hkind, hstorage, hregister, raw, he, hvalue, haddress⟩
    simp only [he, Except.map, Except.ok.injEq]
    cases v
    simp only [ResolvedVariable.ofRaw] at *
    simp [*]

theorem resolve_eq_error_iff (d : Declaration) (e : ReadError) :
    d.resolve pc snapshot = .error e ↔
      (d.locationAt pc).evaluate snapshot d.type.size = .error e := by
  simp only [resolve]
  cases (d.locationAt pc).evaluate snapshot d.type.size <;> simp [Except.map]

theorem resolveAll_eq_ok_iff (ds : List Declaration) (vs : List ResolvedVariable) :
    resolveAll pc snapshot ds = .ok vs ↔ List.Forall₂ (Shows pc snapshot) ds vs := by
  induction ds generalizing vs with
  | nil => cases vs <;> simp [resolveAll]
  | cons d rest ih =>
    cases hd : d.resolve pc snapshot with
    | error e =>
      have hno (v : ResolvedVariable) : ¬ Shows pc snapshot d v := by
        rw [← resolve_eq_ok_iff, hd]
        simp
      cases vs <;> simp [resolveAll, hd, hno]
    | ok v =>
      have hv (w : ResolvedVariable) : Shows pc snapshot d w ↔ w = v := by
        rw [← resolve_eq_ok_iff, hd, Except.ok.injEq, eq_comm]
      cases vs with
      | nil => cases hr : resolveAll pc snapshot rest <;> simp [resolveAll, hd, hr]
      | cons w ws =>
        rw [List.forall₂_cons, hv, ← ih]
        cases hr : resolveAll pc snapshot rest <;> simp [resolveAll, hd, hr, eq_comm]

/-- Over captured memory the only failure is that of a declaration that asks for too much. -/
theorem resolveAll_eq_error_iff (registers : Registers) (map : MemoryMap) (ds : List Declaration)
    (e : ReadError) :
    resolveAll pc ⟨registers, .captured map⟩ ds = .error e ↔
      e = .tooLong ∧ ∃ d ∈ ds, (d.locationAt pc).Overlong registers d.type.size := by
  induction ds with
  | nil => simp [resolveAll]
  | cons d rest ih =>
    have hd (cause : ReadError) : d.resolve pc ⟨registers, .captured map⟩ = .error cause ↔
        cause = .tooLong ∧ (d.locationAt pc).Overlong registers d.type.size := by
      rw [resolve_eq_error_iff, Location.evaluate_eq_error_iff]
    rw [List.exists_mem_cons_iff]
    cases hr : d.resolve pc ⟨registers, .captured map⟩ with
    | error cause =>
      obtain ⟨rfl, hover⟩ := (hd cause).mp hr
      simp [resolveAll, hr, hover, eq_comm]
    | ok v =>
      have hover : ¬ (d.locationAt pc).Overlong registers d.type.size := by
        intro h
        rw [(hd .tooLong).mpr ⟨rfl, h⟩] at hr
        contradiction
      simp only [hover, false_or, ← ih]
      cases hrest : resolveAll pc ⟨registers, .captured map⟩ rest <;> simp [resolveAll, hr, hrest]

end Declaration

theorem Shows.isUnavailable_iff {pc : UInt64} {registers : Registers} {map : MemoryMap}
    {d : Declaration} {v : ResolvedVariable} (h : Shows pc ⟨registers, .captured map⟩ d v) :
    v.isUnavailable ↔ ¬ (d.locationAt pc).Recoverable registers map d.type.size := by
  obtain ⟨raw, he, hvalue, -⟩ := h.found
  rw [ResolvedVariable.isUnavailable, hvalue, Value.isUnavailable_decode_iff]
  exact Location.eq_unavailable_iff registers map d.type.size he

theorem names_eq_of_shows {pc : UInt64} {snapshot : Snapshot} {ds : List Declaration}
    {vs : List ResolvedVariable} (h : List.Forall₂ (Shows pc snapshot) ds vs) :
    vs.map ResolvedVariable.name = ds.map Declaration.name := by
  induction h with
  | nil => rfl
  | cons hd _ ih => rw [List.map_cons, List.map_cons, hd.name_eq, ih]

theorem find?_rel_of_shows {pc : UInt64} {snapshot : Snapshot} {ds : List Declaration}
    {vs : List ResolvedVariable} (h : List.Forall₂ (Shows pc snapshot) ds vs) (n : String) :
    Option.Rel (Shows pc snapshot) (ds.find? (·.name = n)) (vs.find? (·.name = n)) := by
  induction h with
  | nil => exact Option.Rel.none
  | @cons d v ds vs hd _ ih =>
    by_cases hn : d.name = n
    · simpa [hd.name_eq, hn] using Option.Rel.some hd
    · simpa [hd.name_eq, hn] using ih

/-- Types that can be read at all leave nothing that could make a listing fail. -/
theorem exists_listing (pc : UInt64) (registers : Registers) (map : MemoryMap)
    {scopes : List Scope}
    (hsize : ∀ s ∈ scopes, ∀ d ∈ s.declarations, d.type.size.toNat < MemoryMap.lengthLimit) :
    ∃ vs, List.Forall₂ (Shows pc ⟨registers, .captured map⟩) (visible scopes) vs := by
  cases hr : Declaration.resolveAll pc ⟨registers, .captured map⟩ (visible scopes) with
  | ok vs => exact ⟨vs, (Declaration.resolveAll_eq_ok_iff _ _ _ _).mp hr⟩
  | error e =>
    obtain ⟨-, d, hd, hover⟩ := (Declaration.resolveAll_eq_error_iff _ _ _ _ _).mp hr
    obtain ⟨s, hs, hm⟩ := List.mem_flatMap.mp ((firstOfEachName_sublist _ _).subset hd)
    exact absurd hover.lengthLimit_le (Nat.not_le.mpr (hsize s hs d hm))

namespace ScopeTree

/-- The declarations that are seen at a counter: of the scopes that hold it, the first declaration
of each name. -/
def seenAt (t : ScopeTree) (pc : UInt64) : List Declaration :=
  ((t.holding pc).flatMap Scope.declarations).eraseDupsBy fun d e => d.name == e.name

theorem seenAt_eq_visible (t : ScopeTree) (pc : UInt64) : t.seenAt pc = visible (t.holding pc) :=
  (visible_eq_eraseDupsBy _).symm

theorem Sound.variablesAt_eq {t : ScopeTree} (h : t.Sound) {pc : UInt64}
    (hpc : t.root.contains pc) (snapshot : Snapshot) :
    t.variablesAt pc snapshot =
      match Declaration.resolveAll pc snapshot (t.seenAt pc) with
      | .ok vs => .ok vs
      | .error e => .error (.storage e) := by
  rw [variablesAt, (h.chain_eq_holding hpc).1, seenAt_eq_visible]
  rfl

theorem nodup_names_seenAt (t : ScopeTree) (pc : UInt64) :
    ((t.seenAt pc).map Declaration.name).Nodup := by
  rw [seenAt_eq_visible]
  exact nodup_names_firstOfEachName _ _

theorem mem_names_seenAt (t : ScopeTree) (pc : UInt64) (n : String) :
    n ∈ (t.seenAt pc).map Declaration.name ↔
      ∃ s ∈ t.scopes, s.contains pc ∧ ∃ d ∈ s.declarations, d.name = n := by
  rw [seenAt_eq_visible, mem_names_visible]
  constructor
  · rintro ⟨s, hs, hd⟩
    obtain ⟨hs, hc⟩ := mem_holding.mp hs
    exact ⟨s, hs, hc, hd⟩
  · rintro ⟨s, hs, hc, hd⟩
    exact ⟨s, mem_holding.mpr ⟨hs, hc⟩, hd⟩

theorem Sound.variablesAt_eq_ok_iff {t : ScopeTree} (h : t.Sound) {pc : UInt64}
    (hpc : t.root.contains pc) (snapshot : Snapshot) (entries : List ResolvedVariable) :
    t.variablesAt pc snapshot = .ok entries ↔
      List.Forall₂ (Shows pc snapshot) (t.seenAt pc) entries := by
  rw [h.variablesAt_eq hpc, ← Declaration.resolveAll_eq_ok_iff]
  cases Declaration.resolveAll pc snapshot (t.seenAt pc) <;> simp

theorem Sound.variablesAt_eq_error_iff {t : ScopeTree} (h : t.Sound) {pc : UInt64}
    (hpc : t.root.contains pc) (registers : Registers) (map : MemoryMap) (e : QueryError) :
    t.variablesAt pc ⟨registers, .captured map⟩ = .error e ↔ e = .storage .tooLong ∧
      ∃ d ∈ t.seenAt pc, (d.locationAt pc).Overlong registers d.type.size := by
  have hr := Declaration.resolveAll_eq_error_iff pc registers map (t.seenAt pc)
  rw [h.variablesAt_eq hpc]
  cases hs : Declaration.resolveAll pc ⟨registers, .captured map⟩ (t.seenAt pc) with
  | ok entries =>
    have hno := (hr .tooLong).not.mp (by simp [hs])
    simp only [true_and] at hno
    simp [hno]
  | error cause =>
    obtain ⟨rfl, hover⟩ := (hr cause).mp hs
    simp [hover, eq_comm]

theorem Sound.exists_variablesAt {t : ScopeTree} (h : t.Sound) {pc : UInt64}
    (hpc : t.root.contains pc)
    (hsize : ∀ s ∈ t.scopes, ∀ d ∈ s.declarations, d.type.size.toNat < MemoryMap.lengthLimit)
    (registers : Registers) (map : MemoryMap) :
    ∃ entries, t.variablesAt pc ⟨registers, .captured map⟩ = .ok entries ∧
      List.Forall₂ (Shows pc ⟨registers, .captured map⟩) (t.seenAt pc) entries := by
  have hheld : ∀ s ∈ t.holding pc, ∀ d ∈ s.declarations,
      d.type.size.toNat < MemoryMap.lengthLimit := fun s hs => hsize s (mem_holding.mp hs).1
  obtain ⟨entries, hshows⟩ := exists_listing pc registers map hheld
  rw [← seenAt_eq_visible] at hshows
  exact ⟨entries, (h.variablesAt_eq_ok_iff hpc _ entries).mpr hshows, hshows⟩

/-- The listing at a stop is that of all scopes that hold the counter, innermost first and without
what is shadowed, as long as no declared type is too large to be read. -/
theorem variablesAt_lists_seen {b : ScopeBuilder} (hb : b.Reachable) {t : ScopeTree}
    (ht : b.build = .ok t) {pc : UInt64} (hpc : t.root.contains pc) (registers : Registers)
    (map : MemoryMap)
    (hsize : ∀ s ∈ t.scopes, ∀ d ∈ s.declarations,
      d.type.size.toNat < MemoryMap.lengthLimit) :
    let snapshot : Snapshot := ⟨registers, .captured map⟩
    (t.holding pc).IsChain (fun s outer => s.parent = some outer.id) ∧
    (t.holding pc).getLast? = some t.root ∧
    ∃ entries, t.variablesAt pc snapshot = .ok entries ∧
      List.Forall₂ (Shows pc snapshot) (t.seenAt pc) entries ∧
      (entries.map ResolvedVariable.name).Nodup ∧
      (∀ n, n ∈ entries.map ResolvedVariable.name ↔
        ∃ s ∈ t.scopes, s.contains pc ∧ ∃ d ∈ s.declarations, d.name = n) ∧
      t.listingAt pc snapshot = .ok ⟨pc, entries⟩ ∧
      ∀ n, Option.Rel (Shows pc snapshot)
        ((t.holding pc).findSome? fun s => s.declarations.find? (·.name = n))
        (Listing.find? ⟨pc, entries⟩ n) := by
  intro snapshot
  have h := sound_of_build hb ht
  have hchain := (h.chain_eq_holding hpc).2
  obtain ⟨entries, hv, hshows⟩ := h.exists_variablesAt hpc hsize registers map
  have hnames := names_eq_of_shows hshows
  refine ⟨hchain.parents, hchain.last_root, entries, hv, hshows, ?_, ?_, ?_, ?_⟩
  · rw [hnames]
    exact t.nodup_names_seenAt pc
  · intro n
    rw [hnames]
    exact t.mem_names_seenAt pc n
  · rw [listingAt, hv]
    rfl
  · intro n
    rw [← find?_visible, ← seenAt_eq_visible]
    exact find?_rel_of_shows hshows n

/-- The calls that describe the sample program. -/
def sampleBuilder : ScopeBuilder :=
  (ScopeBuilder.start "main" Sample.mainRange).run (Sample.mainParameters.map (.declare 0) ++
    .addInlined 0 Sample.callRange Sample.call :: Sample.callParameters.map (.declare 1))

theorem sample_variables_listed :
    ∃ entries, Sample.tree.variablesAt Sample.stopPc ⟨Sample.registers, .captured Sample.memory⟩ =
        .ok entries ∧
      List.Forall₂ (Shows Sample.stopPc ⟨Sample.registers, .captured Sample.memory⟩)
        (Sample.tree.seenAt Sample.stopPc) entries := by
  have hbuild : sampleBuilder.build = .ok Sample.tree := rfl
  obtain ⟨-, -, entries, hv, hshows, -⟩ := variablesAt_lists_seen ⟨_, _, _, rfl⟩ hbuild
    (show Sample.tree.root.contains Sample.stopPc by decide) Sample.registers Sample.memory
    (by decide)
  exact ⟨entries, hv, hshows⟩

/-- A listing inside the function fails in one case only: something seen there asks for more bytes
than a buffer can have. Otherwise every declaration that is seen has its entry, which has a value
exactly when the storage of that declaration was captured. -/
theorem variablesAt_fails_iff_overlong {b : ScopeBuilder} (hb : b.Reachable) {t : ScopeTree}
    (ht : b.build = .ok t) {pc : UInt64} (hpc : t.root.contains pc) (registers : Registers)
    (map : MemoryMap) :
    let snapshot : Snapshot := ⟨registers, .captured map⟩
    (t.variablesAt pc snapshot = .error (.storage .tooLong) ↔
      ∃ d ∈ t.seenAt pc, (d.locationAt pc).Overlong registers d.type.size) ∧
    ((∀ d ∈ t.seenAt pc, ¬ (d.locationAt pc).Overlong registers d.type.size) →
      ∃ entries, t.variablesAt pc snapshot = .ok entries ∧
        List.Forall₂ (fun d v => Shows pc snapshot d v ∧ (v.isUnavailable ↔
          ¬ (d.locationAt pc).Recoverable registers map d.type.size)) (t.seenAt pc) entries) := by
  intro snapshot
  have h := sound_of_build hb ht
  have herror := h.variablesAt_eq_error_iff hpc registers map
  refine ⟨?_, ?_⟩
  · rw [herror]
    exact and_iff_right rfl
  · intro hall
    cases hv : t.variablesAt pc snapshot with
    | error e =>
      obtain ⟨-, d, hd, hover⟩ := (herror e).mp hv
      exact absurd hover (hall d hd)
    | ok entries =>
      have hshows := (h.variablesAt_eq_ok_iff hpc snapshot entries).mp hv
      exact ⟨entries, rfl, hshows.imp fun d v hs => ⟨hs, hs.isUnavailable_iff⟩⟩

/-- A function with a constant, and next to it a variable of a type as large as half of memory. -/
def oversized : ScopeBuilder :=
  (ScopeBuilder.start "f" ⟨0, 64⟩).run [
    .declare 0 ⟨"small", .bool, .local, .constant [1], [], none, none⟩,
    .declare 0 ⟨"big", .named "Big" 0x8000000000000000, .local, .stack ⟨6⟩ 0, [], none, none⟩]

def oversizedTree : ScopeTree where
  scopes := oversized.scopes
  nonempty := oversized.nonempty

theorem build_oversized : oversized.build = .ok oversizedTree := rfl

/-- Captured, the base register makes the request fail; not captured, it makes one of two values
unavailable. -/
theorem oversized_listing :
    (∃ d ∈ oversizedTree.seenAt 0,
      (d.locationAt 0).Overlong (Registers.empty.set ⟨6⟩ 0) d.type.size) ∧
    ∃ entries, oversizedTree.variablesAt 0 ⟨.empty, .captured .empty⟩ = .ok entries ∧
      entries.length = 2 := by
  have hpc : oversizedTree.root.contains 0 := by decide
  have hb : oversized.Reachable := ⟨_, _, _, rfl⟩
  refine ⟨(variablesAt_fails_iff_overlong hb build_oversized hpc _ .empty).1.mp rfl, ?_⟩
  have hall : ∀ d ∈ oversizedTree.seenAt 0,
      ¬ (d.locationAt 0).Overlong Registers.empty d.type.size := by
    intro d _ hover
    cases hl : d.locationAt 0 <;>
      simp [hl, Location.Overlong, Registers.get?, Registers.empty] at hover
  obtain ⟨entries, hv, hshows⟩ :=
    (variablesAt_fails_iff_overlong hb build_oversized hpc _ .empty).2 hall
  exact ⟨entries, hv, hshows.length_eq.symm⟩

/-- One variable that is too large takes the constant next to it out of the listing as well. -/
theorem oversized_variable_stops_listing : oversized.Reachable ∧
    oversized.build = .ok oversizedTree ∧ oversizedTree.root.contains 0 ∧
    ∀ entries, oversizedTree.variablesAt 0 ⟨Registers.empty.set ⟨6⟩ 0, .captured .empty⟩ ≠
      .ok entries := by
  refine ⟨⟨_, _, _, rfl⟩, build_oversized, by decide, ?_⟩
  have hfails : oversizedTree.variablesAt 0 ⟨Registers.empty.set ⟨6⟩ 0, .captured .empty⟩ =
      .error (.storage .tooLong) := rfl
  simp [hfails]

end ScopeTree

end FrameLens
