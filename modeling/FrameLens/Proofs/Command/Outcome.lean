import FrameLens.Command.Outcome
import FrameLens.Proofs.Command.Setting
import FrameLens.Proofs.Frame.PerFrame
import FrameLens.Proofs.Sample

/-!
What a run of the command writes, for all arguments that lead to one. The counter decides which
frames there are, the number of a frame decides which of them are shown, and the registers decide
the values.
-/
namespace FrameLens.Command

/-- The value that a register has been given on the command line. -/
def given (options : Options) (r : Register) : Option UInt64 :=
  lastGiven (Registers.valueFor r) options.registers

theorem get?_registers (options : Options) (r : Register) :
    (registers options).get? r = (given options r).or (Sample.registers.get? r) :=
  Registers.get?_update _ _ _

theorem get?_registers_of_captured (options : Options) {r : Register} {word : UInt64}
    (hr : Sample.registers.get? r = some word) :
    (registers options).get? r = some ((given options r).getD word) := by
  rw [get?_registers, hr, Option.or_some]

theorem get?_registers_of_missing (options : Options) {r : Register}
    (hr : Sample.registers.get? r = none) : (registers options).get? r = given options r := by
  rw [get?_registers, hr, Option.or_none]

/-- What there is to show of each frame, innermost first. -/
def linesByFrame (options : Options) : List (List String) :=
  let main := Sample.mainLines ((given options ⟨5⟩).getD 1) ((given options ⟨4⟩).getD 0x7ffee000)
  if Sample.InCall options.pc then
    [Sample.callLines (given options ⟨3⟩) ((given options ⟨6⟩).getD 0x1000), main]
  else [main]

/-- The lines of the frame that was asked for, or of all. -/
def linesShown (options : Options) : List String :=
  match options.frame with
  | none => (linesByFrame options).flatten
  | some index => ((linesByFrame options)[index.toNat]?).getD []

section
variable (options : Options)

theorem exists_listings_by_frame :
    ∃ listings, List.Forall₂ (fun frame listing =>
        List.Forall₂ (Shows options.pc (snapshot options)) (visible frame.scopes) listing)
        (Sample.framesAt options.pc) listings ∧
      listings.map (·.map ResolvedVariable.description) = linesByFrame options := by
  -- the registers of the frame base, `argc` and `argv` were captured, that of `unused1` was not
  have hmain (vs : List ResolvedVariable) (h : List.Forall₂
      (Shows options.pc (snapshot options)) Sample.mainScope.declarations vs) :=
    Sample.lines_of_main (get?_registers_of_captured options rfl)
      (get?_registers_of_captured options rfl) h
  have hcall (vs : List ResolvedVariable) (h : List.Forall₂
      (Shows options.pc (snapshot options)) Sample.callScope.declarations vs) :=
    Sample.lines_of_call (get?_registers_of_captured options rfl) h
  rw [get?_registers_of_missing options rfl] at hcall
  have hsize : ∀ s ∈ (Sample.framesAt options.pc).flatMap InlineFrame.scopes,
      ∀ d ∈ s.declarations, d.type.size.toNat < MemoryMap.lengthLimit := by
    unfold Sample.framesAt
    split <;> decide
  obtain ⟨listings, h⟩ := exists_listings options.pc (registers options) Sample.memory hsize
  refine ⟨listings, h, ?_⟩
  unfold linesByFrame
  unfold Sample.framesAt at h
  by_cases hin : Sample.InCall options.pc
  · rw [if_pos hin] at h ⊢
    obtain _ | ⟨hinner, _ | ⟨houter, _ | _⟩⟩ := h
    rw [List.map_cons, List.map_cons, List.map_nil, hcall _ hinner, hmain _ houter]
    rfl
  · rw [if_neg hin] at h ⊢
    obtain _ | ⟨houter, _ | _⟩ := h
    rw [List.map_cons, List.map_nil, hmain _ houter]

variable {options} (demangler : Demangler) (hpc : Sample.mainRange.contains options.pc)
include hpc

/-- With all frames to show, their listings stand one after another, since no name hides another. -/
theorem variablesAt_eq_flatten {listings : List (List ResolvedVariable)}
    (h : List.Forall₂ (fun frame listing =>
      List.Forall₂ (Shows options.pc (snapshot options)) (visible frame.scopes) listing)
      (Sample.framesAt options.pc) listings) :
    Sample.tree.variablesAt options.pc (snapshot options) = .ok listings.flatten := by
  have hvisible : visible ((Sample.framesAt options.pc).flatMap InlineFrame.scopes) =
      ((Sample.framesAt options.pc).map fun frame => visible frame.scopes).flatten := by
    unfold Sample.framesAt
    split <;> rfl
  rw [ScopeTree.variablesAt, Sample.chain_eq hpc]
  apply (resolveScopes_eq_ok_iff _ _ _ _).mpr
  rw [hvisible]
  apply List.rel_flatten
  rwa [List.forall₂_map_left_iff]

theorem selected_of_frame_lt (hframe : ∀ index, options.frame = some index →
      index.toNat < (Sample.framesAt options.pc).length) :
    ∃ vs, selected demangler Sample.tree options = .ok vs ∧
      vs.map ResolvedVariable.description = linesShown options := by
  obtain ⟨listings, hlistings, hlines⟩ := exists_listings_by_frame options
  unfold selected linesShown
  rw [← hlines]
  cases hf : options.frame with
  | none =>
    refine ⟨listings.flatten, variablesAt_eq_flatten hpc hlistings, ?_⟩
    rw [List.map_flatten]
  | some index =>
    have hlt : index.toNat < listings.length := hlistings.length_eq ▸ hframe index hf
    have hget := List.getElem?_eq_getElem hlt
    refine ⟨listings[index.toNat], ?_, ?_⟩
    · exact ((ScopeTree.frameVariablesAt_eq_ok_iff (Sample.frames_eq_framesAt hpc demangler)
        hlistings index.toNat).1 _).mpr hget
    · show _ = ((listings.map (·.map ResolvedVariable.description))[index.toNat]?).getD []
      rw [List.getElem?_map, hget]
      rfl

theorem selected_of_frame_ge {index : UInt64} (hf : options.frame = some index)
    (hout : (Sample.framesAt options.pc).length ≤ index.toNat) :
    ∃ e, selected demangler Sample.tree options = .error e := by
  obtain ⟨listings, hlistings, -⟩ := exists_listings_by_frame options
  unfold selected
  rw [hf]
  exact ⟨_, (ScopeTree.frameVariablesAt_eq_ok_iff (Sample.frames_eq_framesAt hpc demangler)
    hlistings index.toNat).2.mpr hout⟩

end

theorem frameLines_framesAt (pc : UInt64) :
    frameLines 0 (Sample.framesAt pc) =
      if Sample.InCall pc then ["frame #0: f [inlined at line 11]", "frame #1: main"]
      else ["frame #0: main"] := by
  unfold Sample.framesAt
  split <;> rfl

theorem length_framesAt (pc : UInt64) :
    (Sample.framesAt pc).length = if Sample.InCall pc then 2 else 1 := by
  unfold Sample.framesAt
  split <;> rfl

/-- The counter is in the function, and a frame that is asked for is one of those there. -/
structure Shown (options : Options) : Prop where
  low : 0x100 ≤ options.pc.toNat
  high : options.pc.toNat < 0x200
  frame_lt : ∀ index, options.frame = some index →
    index.toNat < if Sample.InCall options.pc then 2 else 1

/-- The tree is always built, so a run is a report on it. -/
theorem run_eq_report (demangler : Demangler) (options : Options) :
    run demangler options = report demangler Sample.tree options := by
  rw [run, Sample.build_eq_tree]

theorem run_of_shown (demangler : Demangler) {options : Options} (h : Shown options) :
    (run demangler options).exitCode = 0 ∧ (run demangler options).output =
      frameLines 0 (Sample.framesAt options.pc) ++ "" :: linesShown options := by
  have hpc : Sample.mainRange.contains options.pc := AddressRange.contains_iff.mpr ⟨h.low, h.high⟩
  obtain ⟨vs, hselected, hlines⟩ := selected_of_frame_lt demangler hpc (by
    rw [length_framesAt]
    exact h.frame_lt)
  simp only [run_eq_report, report, Sample.frames_eq_framesAt hpc, hselected, hlines,
    List.append_assoc, List.singleton_append, and_self]

theorem run_of_not_shown (demangler : Demangler) {options : Options} (h : ¬ Shown options) :
    (run demangler options).exitCode = 1 := by
  by_cases hpc : Sample.mainRange.contains options.pc
  · obtain ⟨hlow, hhigh⟩ := AddressRange.contains_iff.mp hpc
    have hframe : ∃ index, options.frame = some index ∧
        (Sample.framesAt options.pc).length ≤ index.toNat := by
      -- otherwise nothing would be missing for a listing
      by_contra hno
      simp only [not_exists, not_and, Nat.not_le, length_framesAt] at hno
      exact h ⟨hlow, hhigh, hno⟩
    obtain ⟨index, hf, hout⟩ := hframe
    obtain ⟨e, he⟩ := selected_of_frame_ge demangler hpc hf hout
    simp only [run_eq_report, report, Sample.frames_eq_framesAt hpc, he]
  · have hout : Sample.tree.frames demangler options.pc =
        .error (.pcOutOfRange options.pc Sample.mainRange) := by
      have hroot : ¬ Sample.tree.root.contains options.pc := hpc
      rw [ScopeTree.frames, ScopeTree.chain, if_neg hroot]
      rfl
    simp only [run_eq_report, report, hout]

theorem used_mem_callLines {first : Option UInt64} {base : UInt64} {text : String} :
    "(int) used = " ++ text ∈ Sample.callLines first base ↔ text = Sample.usedText base := by
  simp [Sample.callLines, ← String.toList_inj]

theorem used_not_mem_mainLines {argc argv : UInt64} {text : String} :
    "(int) used = " ++ text ∉ Sample.mainLines argc argv := by
  simp [Sample.mainLines, ← String.toList_inj]

theorem used_not_mem_frameLines {pc : UInt64} {text : String} :
    "(int) used = " ++ text ∉ frameLines 0 (Sample.framesAt pc) := by
  rw [frameLines_framesAt]
  split <;> simp [← String.toList_inj]

/-- The call is the innermost frame, so its lines are shown for all frames and for the first. -/
theorem used_mem_linesShown {options : Options} (h : Shown options) (text : String) :
    "(int) used = " ++ text ∈ linesShown options ↔
      Sample.InCall options.pc ∧ (options.frame = none ∨ options.frame = some 0) ∧
        text = Sample.usedText ((given options ⟨6⟩).getD 0x1000) := by
  have hindex := h.frame_lt
  unfold linesShown linesByFrame
  by_cases hin : Sample.InCall options.pc
  · simp only [if_pos hin] at hindex ⊢
    cases hf : options.frame with
    | none => simp [hin, used_mem_callLines, used_not_mem_mainLines]
    | some index =>
      obtain hzero | hone : index.toNat = 0 ∨ index.toNat = 1 := by
        have := hindex index hf
        omega
      · obtain rfl : index = 0 := UInt64.toNat_inj.mp hzero
        simp [hin, used_mem_callLines]
      · obtain rfl : index = 1 := UInt64.toNat_inj.mp hone
        simp [used_not_mem_mainLines]
  · simp only [if_neg hin] at hindex ⊢
    cases hf : options.frame with
    | none => simp [hin, used_not_mem_mainLines]
    | some index =>
      have hzero : index.toNat = 0 := Nat.lt_one_iff.mp (hindex index hf)
      simp [hin, hzero, used_not_mem_mainLines]

/-- All that a run can end in. It fails unless the counter is in the function and the frame is one
of those there; otherwise it shows the frames and then their variables. Among these is `used`, if
the frame of the call is shown, with the number eight bytes below the last value of the frame
pointer. -/
theorem outcome_of_every_run (demangler : Demangler) (program : String) {arguments : List String}
    {options : Options} (h : parse .default arguments = .ok (.run options)) :
    Sample.build = .ok Sample.tree ∧
    ((outcome demangler program arguments).exitCode = 0 ↔ Shown options) ∧
    (¬ Shown options → (outcome demangler program arguments).exitCode = 1) ∧
    (Shown options → (outcome demangler program arguments).output =
      (if Sample.InCall options.pc then ["frame #0: f [inlined at line 11]", "frame #1: main"]
        else ["frame #0: main"]) ++ "" :: linesShown options) ∧
    (Shown options → ∀ text,
      "(int) used = " ++ text ∈ (outcome demangler program arguments).output ↔
      Sample.InCall options.pc ∧ (options.frame = none ∨ options.frame = some 0) ∧
        text = Sample.usedText ((given options ⟨6⟩).getD 0x1000)) := by
  have hrun : outcome demangler program arguments = run demangler options := by
    simp only [outcome, h]
  rw [hrun]
  refine ⟨Sample.build_eq_tree, ?_, run_of_not_shown demangler, ?_, ?_⟩
  · constructor
    · intro hzero
      by_contra hno
      rw [run_of_not_shown demangler hno] at hzero
      contradiction
    · intro hshown
      exact (run_of_shown demangler hshown).1
  · intro hshown
    rw [(run_of_shown demangler hshown).2, frameLines_framesAt]
  · intro hshown text
    have hblank : "(int) used = " ++ text ≠ "" := by simp [← String.toList_inj]
    rw [(run_of_shown demangler hshown).2, List.mem_append, List.mem_cons, or_iff_right hblank,
      or_iff_right used_not_mem_frameLines, used_mem_linesShown hshown]

/-- At the last counter of the call, and with the later of two frame pointers, one byte below the
number 42. -/
theorem run_below_frame_base :
    let arguments := ["--pc", "0x15f", "--reg", "rbp=1", "--frame", "0", "--reg", "rbp=0xfff"]
    let options : Options := ⟨0x15f, some 0, [(⟨6⟩, 1), (⟨6⟩, 0xfff)], false⟩
    parse .default arguments = .ok (.run options) ∧ Shown options ∧
    (outcome .fewSymbols "lens" arguments).exitCode = 0 ∧
    "(int) used = 10752" ∈ (outcome .fewSymbols "lens" arguments).output := by
  intro arguments options
  have hparse : parse .default arguments = .ok (.run options) := rfl
  have hin : Sample.InCall options.pc := by decide
  have hshown : Shown options := ⟨by decide, by decide, by simp [options, if_pos hin]⟩
  obtain ⟨-, hexit, -, -, hused⟩ := outcome_of_every_run .fewSymbols "lens" hparse
  have htext : "10752" = Sample.usedText ((given options ⟨6⟩).getD 0x1000) := by
    decide +kernel
  exact ⟨hparse, hshown, hexit.mpr hshown, (hused hshown "10752").mpr ⟨hin, .inr rfl, htext⟩⟩

end FrameLens.Command
