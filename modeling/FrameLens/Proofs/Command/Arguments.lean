import FrameLens.Command.Outcome
import FrameLens.Proofs.Command.Setting

/-!
Argument lists as what they spell: settings one after another, and then the end of the list or
something that ends the reading. Whether an argument is an option or the value of one depends only
on what stands before it, so that a list goes on from where its front part has led.
-/
namespace FrameLens

namespace Command

/-- An option that waits for its value, and the complaint when there is none. -/
inductive Unfinished : String → ArgumentError → Prop
  | pc : Unfinished "--pc" .missingAddress
  | frame : Unfinished "--frame" .missingIndex
  | register : Unfinished "--reg" .missingAssignment

/-- Arguments whose front ends the reading, whatever comes after it. -/
inductive Halts : List String → Except ArgumentError Request → Prop
  | version {text : String} {rest : List String} (h : text ∈ Flag.version.texts) :
      Halts (text :: rest) (.ok .version)
  | help {text : String} {rest : List String} (h : text ∈ Flag.help.texts) :
      Halts (text :: rest) (.ok .help)
  | unknown {text : String} {rest : List String} (h : ∀ flag : Flag, text ∉ flag.texts) :
      Halts (text :: rest) (.error (.unknownArgument text))
  | pc {value : String} {rest : List String} {e : ArgumentError} (h : number value = .error e) :
      Halts ("--pc" :: value :: rest) (.error e)
  | frame {value : String} {rest : List String} {e : ArgumentError}
      (h : frameIndex value = .error e) : Halts ("--frame" :: value :: rest) (.error e)
  | register {value : String} {rest : List String} {e : ArgumentError}
      (h : assignment value = .error e) : Halts ("--reg" :: value :: rest) (.error e)

/-- How the reading ends, given the options so far and the arguments that are left. -/
inductive Ends (o : Options) : List String → Except ArgumentError Request → Prop
  | run : Ends o [] (.ok (.run o))
  | unfinished {flag : String} {e : ArgumentError} (h : Unfinished flag e) :
      Ends o [flag] (.error e)
  | halts {rest : List String} {answer : Except ArgumentError Request} (h : Halts rest answer) :
      Ends o rest answer

theorem Setting.Spelled.parse_eq {arguments : List String} {s : Setting}
    (h : s.Spelled arguments) (o : Options) (rest : List String) :
    parse o (arguments ++ rest) = parse (o.set s) rest := by
  cases h with
  | pc h | frame h => simp [parse, Flag.ofText?, h, Options.set]
  | register hname hr hn =>
    have h := assignment_eq_ok_iff.mpr ⟨_, _, rfl, hname, hr, hn⟩
    simp only [List.cons_append, List.nil_append]
    rw [parse]
    simp only [h]
    rfl
  | debug =>
    simp only [List.cons_append, List.nil_append]
    rw [parse.eq_def]
    rfl

theorem Ends.parse_eq {o : Options} {rest : List String} {answer : Except ArgumentError Request}
    (h : Ends o rest answer) : parse o rest = answer := by
  cases h with
  | run => rfl
  | unfinished h => cases h <;> rfl
  | halts h =>
    cases h with
    | version h | help h =>
      rw [parse.eq_def]
      simp only [Flag.ofText?_eq_some_iff.mpr h]
    | @unknown text rest h =>
      have hnone : Flag.ofText? text = none := by
        rw [Option.eq_none_iff_forall_ne_some]
        intro flag hflag
        exact h flag (Flag.ofText?_eq_some_iff.mp hflag)
      rw [parse.eq_def]
      simp only [hnone]
    | pc h | frame h | register h => simp [parse, Flag.ofText?, h]

theorem Setting.AllSpelled.parse_eq {arguments : List String} {settings : List Setting}
    (h : AllSpelled arguments settings) (o : Options) (rest : List String) :
    parse o (arguments ++ rest) = parse (settings.foldl Options.set o) rest := by
  induction h generalizing o with
  | nil => rfl
  | cons hs _ ih => rw [List.append_assoc, hs.parse_eq, ih, List.foldl_cons]

/-- Settings as far as there are any, and then the end of the reading. -/
def Reads (o : Options) (arguments : List String) (answer : Except ArgumentError Request) : Prop :=
  ∃ front settings rest, arguments = front ++ rest ∧ Setting.AllSpelled front settings ∧
    Ends (settings.foldl Options.set o) rest answer

theorem Ends.reads {o : Options} {arguments : List String}
    {answer : Except ArgumentError Request} (h : Ends o arguments answer) :
    Reads o arguments answer :=
  ⟨[], [], arguments, rfl, .nil, h⟩

theorem Setting.Spelled.reads {o : Options} {front rest : List String} {s : Setting}
    {answer : Except ArgumentError Request} (hs : s.Spelled front)
    (h : Reads (o.set s) rest answer) : Reads o (front ++ rest) answer := by
  obtain ⟨more, settings, last, rfl, hmore, hends⟩ := h
  exact ⟨front ++ more, s :: settings, last, (List.append_assoc ..).symm, .cons hs hmore, hends⟩

/-- The reading goes through settings to an end, in the order in which the arguments stand. -/
theorem reads_parse (o : Options) (arguments : List String) :
    Reads o arguments (parse o arguments) := by
  have hflag {text : String} {flag : Flag} (h : Flag.ofText? text = some flag) :
      text ∈ flag.texts := Flag.ofText?_eq_some_iff.mp h
  fun_induction parse o arguments with
  | case1 o => exact Ends.run.reads
  | case2 o text rest hnone =>
    refine Ends.reads (.halts (.unknown ?_))
    intro flag htext
    rw [Flag.ofText?_eq_some_iff.mpr htext] at hnone
    contradiction
  | case3 o text rest h => exact Ends.reads (.halts (.version (hflag h)))
  | case4 o text rest h => exact Ends.reads (.halts (.help (hflag h)))
  | case5 o text rest h ih =>
    obtain rfl := List.mem_singleton.mp (hflag h)
    exact Setting.Spelled.debug.reads ih
  | case6 o text h =>
    obtain rfl := List.mem_singleton.mp (hflag h)
    exact Ends.reads (.unfinished .pc)
  | case7 o text h value rest n hn ih =>
    obtain rfl := List.mem_singleton.mp (hflag h)
    exact (Setting.Spelled.pc hn).reads ih
  | case8 o text h value rest e he =>
    obtain rfl := List.mem_singleton.mp (hflag h)
    exact Ends.reads (.halts (.pc he))
  | case9 o text h =>
    obtain rfl := List.mem_singleton.mp (hflag h)
    exact Ends.reads (.unfinished .frame)
  | case10 o text h value rest n hn ih =>
    obtain rfl := List.mem_singleton.mp (hflag h)
    exact (Setting.Spelled.frame hn).reads ih
  | case11 o text h value rest e he =>
    obtain rfl := List.mem_singleton.mp (hflag h)
    exact Ends.reads (.halts (.frame he))
  | case12 o text h =>
    obtain rfl := List.mem_singleton.mp (hflag h)
    exact Ends.reads (.unfinished .register)
  | case13 o text h value rest entry hentry ih =>
    obtain rfl := List.mem_singleton.mp (hflag h)
    obtain ⟨name, number, rfl, hname, hr, hn⟩ := assignment_eq_ok_iff.mp hentry
    exact (Setting.Spelled.register hname hr hn).reads ih
  | case14 o text h value rest e he =>
    obtain rfl := List.mem_singleton.mp (hflag h)
    exact Ends.reads (.halts (.register he))

theorem parse_eq_iff {o : Options} {arguments : List String}
    {answer : Except ArgumentError Request} :
    parse o arguments = answer ↔ Reads o arguments answer := by
  constructor
  · rintro rfl
    exact reads_parse o arguments
  · rintro ⟨front, settings, rest, rfl, hfront, hends⟩
    rw [hfront.parse_eq, hends.parse_eq]

theorem parse_eq_run_iff {o result : Options} {arguments : List String} :
    parse o arguments = .ok (.run result) ↔
      ∃ settings, Setting.AllSpelled arguments settings ∧ o.After settings result := by
  rw [parse_eq_iff]
  constructor
  · rintro ⟨front, settings, rest, rfl, hfront, hends⟩
    cases hends with
    | run =>
      rw [List.append_nil]
      exact ⟨settings, hfront, o.after_foldl settings⟩
    | halts h => cases h
  · rintro ⟨settings, hspelled, hafter⟩
    refine ⟨arguments, settings, [], (List.append_nil arguments).symm, hspelled, ?_⟩
    rw [← hafter.eq_foldl]
    exact .run

theorem Halts.append {rest : List String} {answer : Except ArgumentError Request}
    (h : Halts rest answer) (more : List String) : Halts (rest ++ more) answer := by
  cases h with
  | version h => exact .version h
  | help h => exact .help h
  | unknown h => exact .unknown h
  | pc h => exact .pc h
  | frame h => exact .frame h
  | register h => exact .register h

theorem not_unfinished_of_number {value : String} {e : ArgumentError}
    (h : number value = .error e) (flag : String) : ¬ Unfinished flag e := by
  unfold number at h
  cases hvalue : Text.number? value with
  | some n => simp [hvalue] at h
  | none =>
    simp only [hvalue, Except.error.injEq] at h
    subst h
    rintro ⟨⟩

/-- A complaint about an argument is never the one about a missing value. -/
theorem Halts.not_unfinished {rest : List String} {e : ArgumentError} (h : Halts rest (.error e))
    (flag : String) : ¬ Unfinished flag e := by
  cases h with
  | unknown h => rintro ⟨⟩
  | pc h => exact not_unfinished_of_number h flag
  | @frame value rest e h =>
    unfold frameIndex at h
    cases hvalue : Text.decimal? value with
    | some n => simp [hvalue] at h
    | none =>
      simp only [hvalue, Except.error.injEq] at h
      subst h
      rintro ⟨⟩
  | @register value rest e h =>
    unfold assignment at h
    split at h
    · cases h
      rintro ⟨⟩
    · split at h
      · cases h
        rintro ⟨⟩
      · split at h
        · contradiction
        · next hn =>
          cases h
          exact not_unfinished_of_number hn flag

section
variable {o : Options} {xs : List String}

theorem parse_append_of_run {result : Options} (h : parse o xs = .ok (.run result))
    (ys : List String) : parse o (xs ++ ys) = parse result ys := by
  obtain ⟨settings, hspelled, hafter⟩ := parse_eq_run_iff.mp h
  rw [hspelled.parse_eq, ← hafter.eq_foldl]

theorem parse_eq_missing_iff {flag : String} {e : ArgumentError} (he : Unfinished flag e) :
    parse o xs = .error e ↔
      ∃ before result, xs = before ++ [flag] ∧ parse o before = .ok (.run result) := by
  constructor
  · intro h
    obtain ⟨front, settings, rest, rfl, hfront, hends⟩ := parse_eq_iff.mp h
    cases hends with
    | @unfinished other _ hother =>
      have hflag : other = flag := by cases he <;> cases hother <;> rfl
      have hfollows := parse_eq_run_iff.mpr ⟨settings, hfront, o.after_foldl settings⟩
      exact ⟨front, _, by rw [hflag], hfollows⟩
    | halts h => exact absurd he (h.not_unfinished flag)
  · rintro ⟨before, result, rfl, hbefore⟩
    rw [parse_append_of_run hbefore]
    exact (Ends.unfinished he).parse_eq

/-- What ends the reading early also ends it in a longer list. -/
theorem parse_append_of_halts {answer : Except ArgumentError Request}
    (h : parse o xs = answer) (hrun : ∀ result, answer ≠ .ok (.run result))
    (hfinished : ∀ flag e, answer = .error e → ¬ Unfinished flag e) (ys : List String) :
    parse o (xs ++ ys) = answer := by
  obtain ⟨front, settings, rest, rfl, hfront, hends⟩ := parse_eq_iff.mp h
  cases hends with
  | run => exact absurd rfl (hrun _)
  | unfinished hwaits => exact absurd hwaits (hfinished _ _ rfl)
  | halts hhalts =>
    rw [List.append_assoc, hfront.parse_eq]
    exact (Ends.halts (hhalts.append ys)).parse_eq

end

/-- A list of arguments goes on where its front part ends: from the options that this has led to, or
not at all once something has ended the reading. Only an option that still waits for its value takes
the next argument for it. The value that the run finds in a register is the last that the arguments
give for it, by whatever name, or else the one that was captured. -/
theorem parse_append_exact (xs ys : List String) :
    (∀ o, parse .default xs = .ok (.run o) →
      parse .default (xs ++ ys) = parse o ys ∧
      ∀ result, parse o ys = .ok (.run result) ↔
        ∃ settings, Setting.AllSpelled ys settings ∧ o.After settings result) ∧
    (parse .default xs = .ok .version → parse .default (xs ++ ys) = .ok .version) ∧
    (parse .default xs = .ok .help → parse .default (xs ++ ys) = .ok .help) ∧
    (∀ e, parse .default xs = .error e → (∀ flag, ¬ Unfinished flag e) →
      parse .default (xs ++ ys) = .error e) ∧
    (∀ flag e, Unfinished flag e → (parse .default xs = .error e ↔
      ∃ before o, xs = before ++ [flag] ∧ parse .default before = .ok (.run o))) ∧
    ∀ o, parse .default xs = .ok (.run o) →
      (∃ settings, Setting.AllSpelled xs settings) ∧
      ∀ settings, Setting.AllSpelled xs settings → Options.default.After settings o ∧
        ∀ r, (snapshot o).register? r =
          (lastGiven (Registers.valueFor r) (settings.filterMap Setting.register?)).or
            (Sample.registers.get? r) := by
  refine ⟨?_, ?_, ?_, ?_, ?_, ?_⟩
  · intro o h
    exact ⟨parse_append_of_run h ys, fun result => parse_eq_run_iff⟩
  · intro h
    exact parse_append_of_halts h (by simp) (by simp) ys
  · intro h
    exact parse_append_of_halts h (by simp) (by simp) ys
  · intro e h hfinished
    refine parse_append_of_halts h (by simp) ?_ ys
    rintro flag _ ⟨⟩
    exact hfinished flag
  · intro flag e he
    exact parse_eq_missing_iff he
  · intro o h
    obtain ⟨settings, hspelled, -⟩ := parse_eq_run_iff.mp h
    refine ⟨⟨settings, hspelled⟩, ?_⟩
    intro settings hspelled
    have hresult := parse_eq_run_iff.mpr ⟨settings, hspelled, Options.default.after_foldl settings⟩
    obtain rfl := Request.run.inj (Except.ok.inj (h.symm.trans hresult))
    have hafter := Options.default.after_foldl settings
    refine ⟨hafter, fun r => ?_⟩
    have hgiven : (settings.foldl Options.set .default).registers =
        settings.filterMap Setting.register? := hafter.registers_eq
    rw [← hgiven]
    exact Registers.get?_update _ _ r

/-- Two values for one register: the later one counts, and the counter set before stays. -/
theorem later_rbx_counts : ∃ o result,
    parse .default ["--pc", "0x170", "--reg", "rbx=1"] = .ok (.run o) ∧
    parse .default (["--pc", "0x170", "--reg", "rbx=1"] ++ ["--reg", " rbx = 0x20"]) =
      .ok (.run result) ∧
    (∃ settings, Setting.AllSpelled ["--reg", " rbx = 0x20"] settings ∧
      o.After settings result) ∧
    result.pc = 0x170 ∧ (snapshot result).register? ⟨3⟩ = some 0x20 := by
  have hfront : parse .default ["--pc", "0x170", "--reg", "rbx=1"] =
      .ok (.run ⟨0x170, none, [(⟨3⟩, 1)], false⟩) := rfl
  have hlater : parse ⟨0x170, none, [(⟨3⟩, 1)], false⟩ ["--reg", " rbx = 0x20"] =
      .ok (.run ⟨0x170, none, [(⟨3⟩, 1), (⟨3⟩, 0x20)], false⟩) := rfl
  obtain ⟨hrun, -⟩ := parse_append_exact ["--pc", "0x170", "--reg", "rbx=1"]
    ["--reg", " rbx = 0x20"]
  obtain ⟨happend, hresult⟩ := hrun _ hfront
  exact ⟨_, _, hfront, happend.trans hlater, (hresult _).mp hlater, rfl, rfl⟩

end Command

end FrameLens
