import FrameLens.Command.Arguments
import Mathlib.Data.List.Basic

/-!
Settings: how arguments spell them, and what they make of the options. Of several values for one
thing the last counts.
-/
namespace FrameLens

/-- What the last of those elements gives that give anything. -/
def lastGiven {α β : Type} (give : α → Option β) (l : List α) : Option β :=
  (l.filterMap give).getLast?

theorem lastGiven_cons {α β : Type} (give : α → Option β) (a : α) (l : List α) :
    lastGiven give (a :: l) = (lastGiven give l).or (give a) := by
  unfold lastGiven
  cases ha : give a with
  | none => rw [List.filterMap_cons_none ha, Option.or_none]
  | some b =>
    rw [List.filterMap_cons_some ha, List.getLast?_cons]
    cases (l.filterMap give).getLast? <;> rfl

namespace Registers

def valueFor (r : Register) (entry : Register × UInt64) : Option UInt64 :=
  if entry.1 = r then some entry.2 else none

theorem get?_update (registers : Registers) (values : List (Register × UInt64)) (r : Register) :
    (registers.update values).get? r = (lastGiven (valueFor r) values).or (registers.get? r) := by
  unfold update
  induction values generalizing registers with
  | nil => rfl
  | cons entry rest ih =>
    rw [List.foldl_cons, ih, get?_set, lastGiven_cons, Option.or_assoc]
    by_cases hr : entry.1 = r <;> simp [valueFor, hr]

end Registers

namespace Command

theorem splitAssignment?_eq_some_iff {cs name value : List Char} :
    splitAssignment? cs = some (name, value) ↔ cs = name ++ '=' :: value ∧ '=' ∉ name := by
  induction cs generalizing name with
  | nil => simp [splitAssignment?]
  | cons c rest ih =>
    by_cases hc : c = '='
    · subst hc
      cases name with
      | nil => simp [splitAssignment?]
      | cons first more =>
        constructor
        · intro h
          simp [splitAssignment?] at h
        · rintro ⟨hsplit, hname⟩
          obtain ⟨rfl, -⟩ := List.cons.inj hsplit
          exact absurd List.mem_cons_self hname
    · have hnext : splitAssignment? (c :: rest) =
          (splitAssignment? rest).map fun parts => (c :: parts.1, parts.2) := by
        rw [splitAssignment?]
        exact hc
      rw [hnext, Option.map_eq_some_iff]
      constructor
      · rintro ⟨⟨before, after⟩, hrest, hparts⟩
        obtain ⟨rfl, rfl⟩ := Prod.mk.inj hparts
        obtain ⟨hrest, hbefore⟩ := ih.mp hrest
        exact ⟨congrArg (c :: ·) hrest, by simp [hbefore, Ne.symm hc]⟩
      · rintro ⟨hsplit, hname⟩
        cases name with
        | nil => exact absurd (List.cons.inj hsplit).1 hc
        | cons first more =>
          obtain ⟨rfl, hrest⟩ := List.cons.inj hsplit
          exact ⟨(more, value), ih.mpr ⟨hrest, fun h => hname (List.mem_cons_of_mem _ h)⟩, rfl⟩

/-- What an assignment has to be: the name of a register, an equals sign and a number, with blanks
around the name and the number. -/
theorem assignment_eq_ok_iff {text : String} {r : Register} {n : UInt64} :
    assignment text = .ok (r, n) ↔ ∃ name value : List Char,
      text = String.ofList (name ++ '=' :: value) ∧ '=' ∉ name ∧
      Arch.x86_64.findRegister? (String.ofList (Text.trimChars name)) = some r ∧
      number (String.ofList (Text.trimChars value)) = .ok n := by
  unfold assignment
  constructor
  · intro h
    cases hsplit : splitAssignment? text.toList with
    | none => simp [hsplit] at h
    | some parts =>
      obtain ⟨name, value⟩ := parts
      simp only [hsplit] at h
      cases hr : Arch.x86_64.findRegister? (String.ofList (Text.trimChars name)) with
      | none => simp [hr] at h
      | some q =>
        simp only [hr] at h
        cases hn : number (String.ofList (Text.trimChars value)) with
        | error e => simp [hn] at h
        | ok m =>
          simp only [hn, Except.ok.injEq, Prod.mk.injEq] at h
          obtain ⟨rfl, rfl⟩ := h
          obtain ⟨htext, hname⟩ := splitAssignment?_eq_some_iff.mp hsplit
          refine ⟨name, value, ?_, hname, hr, hn⟩
          rw [← htext, String.ofList_toList]
  · rintro ⟨name, value, rfl, hname, hr, hn⟩
    have hsplit := splitAssignment?_eq_some_iff.mpr
      ⟨String.toList_ofList (l := name ++ '=' :: value), hname⟩
    simp only [hsplit, hr, hn]

def Flag.texts : Flag → List String
  | version => ["-v", "--version"]
  | help => ["-h", "--help"]
  | pc => ["--pc"]
  | frame => ["--frame"]
  | register => ["--reg"]
  | debug => ["--debug"]

theorem Flag.ofText?_eq_some_iff {text : String} {flag : Flag} :
    Flag.ofText? text = some flag ↔ text ∈ flag.texts := by
  constructor
  · intro h
    unfold Flag.ofText? at h
    split_ifs at h <;> cases h <;> simpa [Flag.texts]
  · intro h
    cases flag <;> simp only [Flag.texts, List.mem_cons, List.not_mem_nil, or_false] at h
    case version | help => rcases h with rfl | rfl <;> rfl
    case pc | frame | register | debug => subst h; rfl

/-- One change to the options. -/
inductive Setting where
  | pc (counter : UInt64)
  | frame (index : UInt64)
  | register (r : Register) (value : UInt64)
  | debug
  deriving DecidableEq, Repr

namespace Setting

def pc? : Setting → Option UInt64
  | pc counter => some counter
  | _ => none

def frame? : Setting → Option UInt64
  | frame index => some index
  | _ => none

def register? : Setting → Option (Register × UInt64)
  | register r value => some (r, value)
  | _ => none

/-- The arguments that spell a setting. A register may go by any name under which it is found. -/
inductive Spelled : List String → Setting → Prop
  | pc {value : String} {n : UInt64} (h : number value = .ok n) : Spelled ["--pc", value] (pc n)
  | frame {value : String} {n : UInt64} (h : frameIndex value = .ok n) :
      Spelled ["--frame", value] (frame n)
  | register {name value : List Char} {r : Register} {n : UInt64} (hname : '=' ∉ name)
      (hr : Arch.x86_64.findRegister? (String.ofList (Text.trimChars name)) = some r)
      (hn : number (String.ofList (Text.trimChars value)) = .ok n) :
      Spelled ["--reg", String.ofList (name ++ '=' :: value)] (register r n)
  | debug : Spelled ["--debug"] debug

/-- Settings spelled one after another. -/
inductive AllSpelled : List String → List Setting → Prop
  | nil : AllSpelled [] []
  | cons {arguments rest : List String} {s : Setting} {settings : List Setting}
      (hs : Spelled arguments s) (hrest : AllSpelled rest settings) :
      AllSpelled (arguments ++ rest) (s :: settings)

end Setting

namespace Options

def set (o : Options) : Setting → Options
  | .pc counter => { o with pc := counter }
  | .frame index => { o with frame := some index }
  | .register r value => { o with registers := o.registers ++ [(r, value)] }
  | .debug => { o with debug := true }

/-- What settings make of options: of the counters and of the frames the last counts, registers are
added in their order, and debugging stays on. -/
structure After (o : Options) (settings : List Setting) (result : Options) : Prop where
  pc_eq : result.pc = (lastGiven Setting.pc? settings).getD o.pc
  frame_eq : result.frame = (lastGiven Setting.frame? settings).or o.frame
  registers_eq : result.registers = o.registers ++ settings.filterMap Setting.register?
  debug_iff : result.debug ↔ o.debug ∨ .debug ∈ settings

theorem After.cons {o result : Options} {s : Setting} {settings : List Setting}
    (h : (o.set s).After settings result) : o.After (s :: settings) result := by
  refine ⟨?_, ?_, ?_, ?_⟩
  · rw [h.pc_eq, lastGiven_cons, Option.getD_or]
    cases s <;> rfl
  · rw [h.frame_eq, lastGiven_cons, Option.or_assoc]
    cases s <;> rfl
  · rw [h.registers_eq]
    cases s <;> simp [set, List.filterMap_cons, Setting.register?]
  · rw [h.debug_iff]
    cases s <;> simp [set]

theorem after_foldl (o : Options) (settings : List Setting) :
    o.After settings (settings.foldl set o) := by
  induction settings generalizing o with
  | nil => exact ⟨rfl, rfl, by simp, by simp⟩
  | cons s settings ih => exact (ih (o.set s)).cons

theorem After.eq_foldl {o result : Options} {settings : List Setting}
    (h : o.After settings result) : result = settings.foldl set o := by
  have hfold := o.after_foldl settings
  have hdebug : result.debug = (settings.foldl set o).debug := by
    rw [Bool.eq_iff_iff, h.debug_iff, hfold.debug_iff]
  have hpc := h.pc_eq.trans hfold.pc_eq.symm
  have hframe := h.frame_eq.trans hfold.frame_eq.symm
  have hregisters := h.registers_eq.trans hfold.registers_eq.symm
  cases result
  simp_all

end Options

end Command

end FrameLens
