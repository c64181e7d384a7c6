import FrameLens.Proofs.Scope.Chain

/-!
The inline frames at a program counter. Blocks wait for the scope that ends their frame. The
function comes last in a chain and ends a frame, so none is left waiting: the frames together are
the chain, one for each inlined call in it and one for the function. How symbols are demangled
decides the names of the frames and nothing else.
-/
namespace FrameLens

namespace InlineFrame

theorem flatMap_scopes_split (demangler : Demangler) {scopes : List Scope} {last : Scope}
    (hlast : scopes.getLast? = some last) (hends : last.kind ≠ .block) (pending : List Scope) :
    (split demangler pending scopes).flatMap InlineFrame.scopes = pending ++ scopes := by
  induction scopes generalizing pending with
  | nil => simp at hlast
  | cons s rest ih =>
    -- past the end of a frame nothing is pending, and there may be nothing left at all
    have hrest : (split demangler [] rest).flatMap InlineFrame.scopes = rest := by
      cases rest with
      | nil => rfl
      | cons next more => exact ih (List.getLast?_cons_cons ▸ hlast) []
    cases hs : s.kind with
    | block =>
      have hmore : rest.getLast? = some last := by
        cases rest with
        | nil =>
          obtain rfl : s = last := by simpa using hlast
          exact absurd hs hends
        | cons next more => rwa [List.getLast?_cons_cons] at hlast
      have hwait := ih hmore (pending ++ [s])
      simpa [split, hs] using hwait
    | inlined site => simp [split, hs, hrest]
    | function name => simp [split, hs, hrest]

/-- The frame has blocks and then the scope that ends it. -/
def EndsAt (frame : InlineFrame) (last : Scope) : Prop :=
  ∃ blocks, frame.scopes = blocks ++ [last] ∧ ∀ s ∈ blocks, s.kind = .block

/-- The frame of an inlined call, which ends at the call and is named after what is called. -/
def OfCall (demangler : Demangler) (frame : InlineFrame) : Prop :=
  ∃ call site, frame.EndsAt call ∧ call.kind = .inlined site ∧ frame.site = some site ∧
    frame.function = site.displayName demangler

/-- The frame of the function itself, which no call led to. -/
def OfFunction (demangler : Demangler) (frame : InlineFrame) (root : Scope) : Prop :=
  ∃ name, frame.EndsAt root ∧ root.kind = .function name ∧ frame.site = none ∧
    frame.function = demangler.displayName name

/-- A list of scopes that ends at its only function is cut after each call and at the end. -/
theorem split_append_function (demangler : Demangler) {root : Scope} {name : String}
    (hroot : root.kind = .function name) {inner : List Scope}
    (hinner : ∀ s ∈ inner, ∀ other, s.kind ≠ .function other) {pending : List Scope}
    (hpending : ∀ s ∈ pending, s.kind = .block) :
    ∃ calls outermost, split demangler pending (inner ++ [root]) = calls ++ [outermost] ∧
      (∀ frame ∈ calls, frame.OfCall demangler) ∧ outermost.OfFunction demangler root ∧
      calls.length = inner.countP (·.kind.site?.isSome) := by
  induction inner generalizing pending with
  | nil =>
    refine ⟨[], ⟨demangler.displayName name, none, pending ++ [root]⟩, ?_, by simp, ?_, rfl⟩
    · simp [split, hroot]
    · exact ⟨name, ⟨pending, rfl, hpending⟩, hroot, rfl, rfl⟩
  | cons s rest ih =>
    have hrest : ∀ r ∈ rest, ∀ other, r.kind ≠ .function other :=
      fun r hr => hinner r (List.mem_cons_of_mem s hr)
    cases hs : s.kind with
    | block =>
      have hwait : ∀ r ∈ pending ++ [s], r.kind = .block :=
        List.forall_mem_append.mpr ⟨hpending, List.forall_mem_singleton.mpr hs⟩
      obtain ⟨calls, outermost, hsplit, hcalls, hout, hlen⟩ := ih hrest hwait
      refine ⟨calls, outermost, ?_, hcalls, hout, ?_⟩
      · simpa [split, hs] using hsplit
      · simpa [hs, ScopeKind.site?] using hlen
    | inlined site =>
      obtain ⟨calls, outermost, hsplit, hcalls, hout, hlen⟩ := ih hrest (List.forall_mem_nil _)
      have hcall : OfCall demangler ⟨site.displayName demangler, some site, pending ++ [s]⟩ :=
        ⟨s, site, ⟨pending, rfl, hpending⟩, hs, rfl, rfl⟩
      refine ⟨_ :: calls, outermost, ?_, List.forall_mem_cons.mpr ⟨hcall, hcalls⟩, hout, ?_⟩
      · simp [split, hs, hsplit]
      · simp [hs, ScopeKind.site?, hlen]
    | function other => exact absurd hs (hinner s List.mem_cons_self other)

end InlineFrame

/-- Reads the symbol of a member of a template, and takes the name `f` for the code of a type. -/
def Demangler.fewSymbols : Demangler where
  read? symbol :=
    if symbol = "_ZN3fooIiE3barEv" then some "foo<int>::bar()"
    else if symbol = "f" then some "float"
    else none

namespace ScopeTree

theorem frames_of_chain (demangler : Demangler) {t : ScopeTree} {pc : UInt64} {c : List Scope}
    (hc : t.chain pc = .ok c) :
    t.frames demangler pc = .ok (InlineFrame.split demangler [] c) := by
  unfold frames
  rw [hc]
  rfl

section

variable {t : ScopeTree} (h : t.Sound)
include h

theorem Sound.root_function : ∃ name, t.root.kind = .function name :=
  (h.linked 0 t.root t.getElem?_root).function_iff.mpr rfl

theorem Sound.root_kind_ne_block : t.root.kind ≠ .block := by
  obtain ⟨name, hname⟩ := h.root_function
  simp [hname]

/-- Scopes of the tree are found again by their numbers. -/
theorem Sound.filterMap_get?_ids {scopes : List Scope} (hs : ∀ s ∈ scopes, s ∈ t.scopes) :
    (scopes.map Scope.id).filterMap t.get? = scopes := by
  have hfound (s : Scope) (hm : s ∈ scopes) : (t.get? ∘ Scope.id) s = some s :=
    h.linked.getElem?_id (hs s hm)
  rw [List.filterMap_map, List.filterMap_congr hfound, List.filterMap_some]

/-- Inside the function there is a frame, and the scopes of the frames are those of the chain. -/
theorem Sound.frames_cover_chain (demangler : Demangler) {pc : UInt64}
    (hpc : t.root.contains pc) :
    ∃ frames c, t.frames demangler pc = .ok frames ∧ t.chain pc = .ok c ∧ frames ≠ [] ∧
      frames.flatMap InlineFrame.scopes = c ∧ ∀ s ∈ c, s ∈ t.scopes := by
  obtain ⟨c, hc, hd⟩ := h.chain_descent hpc
  have hexact := h.exactChain hpc hd
  have hcover := InlineFrame.flatMap_scopes_split demangler hd.starts h.root_kind_ne_block []
  rw [List.nil_append] at hcover
  refine ⟨InlineFrame.split demangler [] c, c, frames_of_chain demangler hc, hc, ?_, hcover, ?_⟩
  · intro hnone
    rw [hnone, List.flatMap_nil] at hcover
    have hlast := hexact.last_root
    rw [← hcover] at hlast
    simp at hlast
  · intro s hs
    exact ((hexact.mem_iff s).mp hs).1

/-- Before the function, which comes last, a chain has blocks and inlined calls only. -/
theorem Sound.chain_before_root {pc : UInt64} {c : List Scope} (hc : t.ExactChain pc c) :
    ∃ inner, c = inner ++ [t.root] ∧ ∀ s ∈ inner, ∀ name, s.kind ≠ .function name := by
  obtain ⟨inner, rfl⟩ := List.getLast?_eq_some_iff.mp hc.last_root
  refine ⟨inner, rfl, ?_⟩
  intro s hs name hname
  obtain ⟨hm, -⟩ := (hc.mem_iff s).mp (List.mem_append_left _ hs)
  have hzero := (h.linked.at_id hm).function_iff.mp ⟨name, hname⟩
  -- the numbers fall towards the root, so that of a scope before it is not the lowest
  have hlt := (List.pairwise_append.mp hc.ids_decrease).2.2 s hs t.root List.mem_cons_self
  rw [h.root_id, hzero] at hlt
  exact Nat.lt_irrefl 0 hlt

/-- The calls of a chain are counted by looking at all scopes. -/
theorem Sound.countP_calls {pc : UInt64} {inner : List Scope}
    (hc : t.ExactChain pc (inner ++ [t.root])) :
    inner.countP (·.kind.site?.isSome) =
      t.scopes.countP fun s => s.kind.site?.isSome && s.contains pc := by
  obtain ⟨name, hname⟩ := h.root_function
  calc inner.countP (·.kind.site?.isSome)
      = (inner ++ [t.root]).countP (·.kind.site?.isSome) := by
        simp [List.countP_append, hname, ScopeKind.site?]
    _ = (t.holding pc).countP (·.kind.site?.isSome) := by rw [h.eq_holding hc]
    _ = t.scopes.countP fun s => s.kind.site?.isSome && s.contains pc := by
        rw [holding, List.countP_reverse, List.countP_filter]

end

/-- The frames at a counter in the function cut its chain into parts, one after the other. All but
the last are those of the inlined calls that hold the counter, each made of blocks and then the
call; the last is that of the function. -/
theorem frames_partition_chain (demangler : Demangler) {b : ScopeBuilder} (hb : b.Reachable)
    {t : ScopeTree} (ht : b.build = .ok t) {pc : UInt64} (hpc : t.root.contains pc) :
    ∃ c frames calls outermost, t.chain pc = .ok c ∧ t.frames demangler pc = .ok frames ∧
      frames = calls ++ [outermost] ∧ frames.flatMap InlineFrame.scopes = c ∧
      (c.map Scope.id).Nodup ∧ (∀ frame ∈ calls, frame.OfCall demangler) ∧
      outermost.OfFunction demangler t.root ∧
      frames.length = 1 + t.scopes.countP fun s => s.kind.site?.isSome && s.contains pc := by
  have h := sound_of_build hb ht
  obtain ⟨c, hc, hd⟩ := h.chain_descent hpc
  have hexact := h.exactChain hpc hd
  have hcover := InlineFrame.flatMap_scopes_split demangler hd.starts h.root_kind_ne_block []
  obtain ⟨name, hname⟩ := h.root_function
  obtain ⟨inner, rfl, hkinds⟩ := h.chain_before_root hexact
  obtain ⟨calls, outermost, hsplit, hcalls, hout, hlen⟩ :=
    InlineFrame.split_append_function demangler hname hkinds (List.forall_mem_nil _)
  refine ⟨_, _, calls, outermost, hc, frames_of_chain demangler hc, hsplit, hcover, ?_, hcalls,
    hout, ?_⟩
  · rw [List.Nodup, List.pairwise_map]
    exact hexact.ids_decrease.imp fun hlt => Nat.ne_of_gt hlt
  · rw [hsplit, List.length_append, hlen, h.countP_calls hexact, Nat.add_comm]
    rfl

/-- A function with a call inlined in it, and in a block of that a call of a template's member. -/
def nestedCalls : ScopeBuilder :=
  (ScopeBuilder.start "main" ⟨0x100, 0x200⟩).run [
    .addInlined 0 ⟨0x140, 0x180⟩ ⟨"f", 7, none⟩,
    .addBlock 1 ⟨0x148, 0x170⟩,
    .addInlined 2 ⟨0x150, 0x160⟩ ⟨"_ZN3fooIiE3barEv", 12, none⟩]

def nestedCallsTree : ScopeTree where
  scopes := nestedCalls.scopes
  nonempty := nestedCalls.nonempty

theorem nestedCalls_frames : nestedCalls.build = .ok nestedCallsTree ∧
    nestedCallsTree.root.contains 0x154 ∧
    ∃ c frames, nestedCallsTree.chain 0x154 = .ok c ∧
      nestedCallsTree.frames .fewSymbols 0x154 = .ok frames ∧
      frames.flatMap InlineFrame.scopes = c ∧ frames.length = 3 ∧
      frames.map InlineFrame.function = ["foo<int>::bar()", "f", "main"] := by
  have hbuild : nestedCalls.build = .ok nestedCallsTree := rfl
  have hpc : nestedCallsTree.root.contains 0x154 := by decide
  have hnames : (nestedCallsTree.frames .fewSymbols 0x154).map
      (List.map InlineFrame.function) = .ok ["foo<int>::bar()", "f", "main"] := rfl
  obtain ⟨c, frames, calls, outermost, hchain, hframes, -, hcover, -, -, -, hlen⟩ :=
    frames_partition_chain .fewSymbols ⟨_, _, _, rfl⟩ hbuild hpc
  rw [hframes] at hnames
  exact ⟨hbuild, hpc, c, frames, hchain, hframes, hcover, hlen.trans (by decide),
    Except.ok.inj hnames⟩

end ScopeTree

end FrameLens
