import FrameLens.Register.Names
import Mathlib.Data.List.Nodup

/-!
Registers by name. A name is tried as it is given, in small letters and in capital letters, so its
case does not matter where the table has the name in one of the two. On each target there is one
name that mixes them; it is found in its own spelling only.
-/
namespace FrameLens

/-- A search for the one element with a given key. -/
theorem find?_eq_some_iff_of_nodup {α β : Type} [DecidableEq β] {key : α → β} {l : List α}
    (hkeys : (l.map key).Nodup) {k : β} {a : α} :
    l.find? (fun b => key b = k) = some a ↔ a ∈ l ∧ key a = k := by
  have hmem {b : α} (h : l.find? (fun b => key b = k) = some b) : b ∈ l ∧ key b = k :=
    ⟨List.mem_of_find?_eq_some h, by simpa using List.find?_some h⟩
  constructor
  · exact hmem
  · rintro ⟨ha, hk⟩
    cases hfound : l.find? fun b => key b = k with
    | none => exact absurd hk (by simpa using List.find?_eq_none.mp hfound a ha)
    | some b =>
      obtain ⟨hb, hsame⟩ := hmem hfound
      rw [List.inj_on_of_nodup_map hkeys hb ha (hsame.trans hk.symm)]

namespace Text

theorem toList_toLower (s : String) : s.toLower.toList = s.toList.map Char.toLower :=
  String.toList_map

theorem toList_toUpper (s : String) : s.toUpper.toList = s.toList.map Char.toUpper :=
  String.toList_map

theorem toNat_toLower (c : Char) :
    c.toLower.toNat = if 65 ≤ c.toNat ∧ c.toNat ≤ 90 then c.toNat + 32 else c.toNat := by
  unfold Char.toLower
  split
  · next h =>
    have hcapital : 65 ≤ c.toNat ∧ c.toNat ≤ 90 := h
    rw [if_pos hcapital]
    show (c.toNat + 32) % 2 ^ 32 = c.toNat + 32
    omega
  · next h => exact (if_neg h).symm

theorem toNat_toUpper (c : Char) :
    c.toUpper.toNat = if 97 ≤ c.toNat ∧ c.toNat ≤ 122 then c.toNat - 32 else c.toNat := by
  unfold Char.toUpper
  split
  · next h =>
    have hsmall : 97 ≤ c.toNat ∧ c.toNat ≤ 122 := h
    rw [if_pos hsmall]
    show (c.val + 0xffffffe0).toNat = c.toNat - 32
    rw [UInt32.toNat_add]
    show (c.toNat + 0xffffffe0) % 2 ^ 32 = c.toNat - 32
    omega
  · next h => exact (if_neg h).symm

theorem toLower_toLower (s : String) : s.toLower.toLower = s.toLower := by
  have hchar (c : Char) : c.toLower.toLower = c.toLower := by
    apply Char.toNat_inj.mp
    grind [toNat_toLower]
  apply String.toList_inj.mp
  simp [toList_toLower, hchar]

theorem toLower_toUpper (s : String) : s.toUpper.toLower = s.toLower := by
  have hchar (c : Char) : c.toUpper.toLower = c.toLower := by
    apply Char.toNat_inj.mp
    grind [toNat_toLower, toNat_toUpper]
  apply String.toList_inj.mp
  simp [toList_toLower, toList_toUpper, hchar]

theorem toUpper_toLower (s : String) : s.toLower.toUpper = s.toUpper := by
  have hchar (c : Char) : c.toLower.toUpper = c.toUpper := by
    apply Char.toNat_inj.mp
    grind [toNat_toLower, toNat_toUpper]
  apply String.toList_inj.mp
  simp [toList_toLower, toList_toUpper, hchar]

theorem toLower_eq_toLower_iff {s t : String} :
    s.toLower = t.toLower ↔ s.toList.map Char.toLower = t.toList.map Char.toLower := by
  rw [← String.toList_inj, toList_toLower, toList_toLower]

/-- The letters of a text as one number, whatever their case. -/
def caselessCode (s : String) : Nat :=
  (s.toList.map Char.toLower).foldl (fun n c => n * 256 + c.toNat) 0

theorem caselessCode_eq {s t : String} (h : s.toLower = t.toLower) :
    caselessCode s = caselessCode t := by
  rw [caselessCode, caselessCode, toLower_eq_toLower_iff.mp h]

end Text

namespace Arch

open Text

/-- The name that has both small and capital letters. -/
def mixedName : Arch → String
  | x86_64 => "rFLAGS"
  | aarch64 => "ELR_mode"

section
variable (arch : Arch)

theorem nodup_numbers : (arch.nameTable.map Prod.fst).Nodup := by
  have hincrease : (arch.nameTable.map Prod.fst).IsChain (· < ·) := by
    cases arch <;> decide +kernel
  exact (List.isChain_iff_pairwise.mp hincrease).imp Nat.ne_of_lt

theorem number_lt : ∀ entry ∈ arch.nameTable, entry.1 < UInt16.size := by
  cases arch <;> decide +kernel

/-- No two names differ in case only. -/
theorem nodup_caselessCodes : (arch.nameTable.map fun entry => caselessCode entry.2).Nodup := by
  cases arch <;> decide +kernel

theorem eq_mixedName_iff : ∀ entry ∈ arch.nameTable,
    entry.2 = arch.mixedName ↔ entry.2.toLower ≠ entry.2 ∧ entry.2.toUpper ≠ entry.2 := by
  simp only [ne_eq, ← String.toList_inj, toList_toLower, toList_toUpper]
  cases arch <;> decide +kernel

end

variable {arch : Arch}

theorem nodup_names : (arch.nameTable.map Prod.snd).Nodup := by
  apply List.Nodup.of_map caselessCode
  rw [List.map_map]
  exact arch.nodup_caselessCodes

theorem registerName?_eq_some_iff {r : Register} {name : String} :
    arch.registerName? r = some name ↔ (r.number.toNat, name) ∈ arch.nameTable := by
  rw [registerName?, Option.map_eq_some_iff]
  simp only [find?_eq_some_iff_of_nodup arch.nodup_numbers]
  constructor
  · rintro ⟨⟨number, _⟩, ⟨hentry, rfl⟩, rfl⟩
    exact hentry
  · intro h
    exact ⟨_, ⟨h, rfl⟩, rfl⟩

/-- Names lead back to the registers that have them. -/
theorem registerNamed?_eq_some_iff {r : Register} {name : String} :
    arch.registerNamed? name = some r ↔ arch.registerName? r = some name := by
  rw [registerName?_eq_some_iff, registerNamed?, Option.map_eq_some_iff]
  simp only [find?_eq_some_iff_of_nodup nodup_names]
  constructor
  · rintro ⟨⟨number, _⟩, ⟨hentry, rfl⟩, rfl⟩
    have hnumber := UInt16.toNat_ofNat_of_lt' (arch.number_lt _ hentry)
    simpa [hnumber] using hentry
  · intro h
    exact ⟨_, ⟨h, rfl⟩, by simp⟩

theorem name_eq_of_toLower_eq {r q : Register} {name other : String}
    (hr : arch.registerName? r = some name) (hq : arch.registerName? q = some other)
    (h : name.toLower = other.toLower) : r = q ∧ name = other := by
  have hsame := List.inj_on_of_nodup_map arch.nodup_caselessCodes
    (registerName?_eq_some_iff.mp hr) (registerName?_eq_some_iff.mp hq) (caselessCode_eq h)
  obtain ⟨hnumber, hname⟩ := Prod.mk.inj hsame
  have hregister := congrArg Register.mk (UInt16.toNat_inj.mp hnumber)
  exact ⟨hregister, hname⟩

/-- The spellings under which a name is found: all with the same letters, or only its own. -/
def FoundAs (arch : Arch) (name s : String) : Prop :=
  s.toLower = name.toLower ∧ (name = arch.mixedName → s = name)

theorem foundAs_iff {r : Register} {name : String} (h : arch.registerName? r = some name)
    {s : String} :
    arch.FoundAs name s ↔ s = name ∨ s.toLower = name ∨ s.toUpper = name := by
  have hmixed := arch.eq_mixedName_iff _ (registerName?_eq_some_iff.mp h)
  constructor
  · rintro ⟨hs, hown⟩
    by_cases hname : name = arch.mixedName
    · exact .inl (hown hname)
    · rw [hmixed, not_and_or, not_not, not_not] at hname
      rcases hname with hsmall | hcapital
      · exact .inr (.inl (hs.trans hsmall))
      · refine .inr (.inr ?_)
        rw [← toUpper_toLower, hs, toUpper_toLower, hcapital]
  · rintro (rfl | rfl | rfl)
    · exact ⟨rfl, fun _ => rfl⟩
    · exact ⟨(toLower_toLower s).symm, fun hname => absurd (toLower_toLower s) (hmixed.mp hname).1⟩
    · refine ⟨(toLower_toUpper s).symm, fun hname => absurd ?_ (hmixed.mp hname).2⟩
      rw [← toUpper_toLower, toLower_toUpper, toUpper_toLower]

theorem findRegister?_eq_some_iff {s : String} {r : Register} :
    arch.findRegister? s = some r ↔
      ∃ name, arch.registerName? r = some name ∧ arch.FoundAs name s := by
  have htried : arch.findRegister? s = some r ↔ arch.registerNamed? s = some r ∨
      arch.registerNamed? s = none ∧ (arch.registerNamed? s.toLower = some r ∨
        arch.registerNamed? s.toLower = none ∧ arch.registerNamed? s.toUpper = some r) := by
    rw [findRegister?]
    cases arch.registerNamed? s <;> cases arch.registerNamed? s.toLower <;> simp
  rw [htried]
  constructor
  · rintro (h | ⟨-, h | ⟨-, h⟩⟩)
    all_goals
      have hname := registerNamed?_eq_some_iff.mp h
      exact ⟨_, hname, (foundAs_iff hname).mpr (by simp)⟩
  · rintro ⟨name, hname, hfound⟩
    -- no other register has a name with the same letters, so an earlier try does not go astray
    have honly {t : String} (ht : t.toLower = s.toLower) :
        arch.registerNamed? t = none ∨ arch.registerNamed? t = some r := by
      cases hq : arch.registerNamed? t with
      | none => exact .inl rfl
      | some q =>
        have hother := registerNamed?_eq_some_iff.mp hq
        have hsame := name_eq_of_toLower_eq hother hname (ht.trans hfound.1)
        exact .inr (congrArg some hsame.1)
    have hgiven := honly (t := s) rfl
    have hsmall := honly (toLower_toLower s)
    have hr := registerNamed?_eq_some_iff.mpr hname
    rcases (foundAs_iff hname).mp hfound with rfl | rfl | rfl
    · exact .inl hr
    · exact hgiven.symm.imp_right fun hnone => ⟨hnone, .inl hr⟩
    · exact hgiven.symm.imp_right fun hnone => ⟨hnone, hsmall.symm.imp_right fun h => ⟨h, hr⟩⟩

theorem mixedName_named (arch : Arch) : ∃ r, arch.registerName? r = some arch.mixedName := by
  cases arch
  · exact ⟨⟨49⟩, by decide +kernel⟩
  · exact ⟨⟨33⟩, by decide +kernel⟩

theorem findRegister?_of_mixed_letters {q : Register}
    (hq : arch.registerName? q = some arch.mixedName) {s : String}
    (hs : s.toLower = arch.mixedName.toLower) {r : Register} :
    arch.findRegister? s = some r ↔ s = arch.mixedName ∧ r = q := by
  rw [findRegister?_eq_some_iff]
  constructor
  · rintro ⟨name, hname, hletters, hown⟩
    obtain ⟨rfl, rfl⟩ := name_eq_of_toLower_eq hname hq (hletters.symm.trans hs)
    exact ⟨hown rfl, rfl⟩
  · rintro ⟨hown, rfl⟩
    exact ⟨_, hq, hs, fun _ => hown⟩

theorem findRegister?_of_other_letters {s : String} (hs : s.toLower ≠ arch.mixedName.toLower)
    {r : Register} : arch.findRegister? s = some r ↔
      ∃ name, arch.registerName? r = some name ∧ s.toLower = name.toLower := by
  rw [findRegister?_eq_some_iff]
  constructor
  · rintro ⟨name, hname, hletters, -⟩
    exact ⟨name, hname, hletters⟩
  · rintro ⟨name, hname, hletters⟩
    refine ⟨name, hname, hletters, ?_⟩
    rintro rfl
    exact absurd hletters hs

/-- In which case the letters of the name are given decides nothing, with one exception on each
target: the name that mixes small and capital letters is found in that spelling and in no other. -/
theorem register_found_in_any_case_unless_mixed (arch : Arch) {s t : String}
    (h : s.toLower = t.toLower) :
    (arch.findRegister? s = arch.findRegister? t ↔
      (s.toLower = arch.mixedName.toLower → (s = arch.mixedName ↔ t = arch.mixedName))) ∧
    (∀ r, arch.registerName? r = some t →
      (arch.findRegister? s = some r ↔ (t = arch.mixedName → s = t))) ∧
    ∀ r name, arch.registerName? r = some name →
      (name = arch.mixedName ↔ name.toLower ≠ name ∧ name.toUpper ≠ name) := by
  refine ⟨?_, ?_, ?_⟩
  · by_cases hletters : s.toLower = arch.mixedName.toLower
    · obtain ⟨q, hq⟩ := arch.mixedName_named
      have hs (r : Register) := findRegister?_of_mixed_letters hq hletters (r := r)
      have ht (r : Register) := findRegister?_of_mixed_letters hq (h.symm.trans hletters) (r := r)
      constructor
      · intro hequal _
        have hfound : s = arch.mixedName ∧ q = q ↔ t = arch.mixedName ∧ q = q := by
          rw [← hs, ← ht, hequal]
        simpa using hfound
      · intro hown
        apply Option.ext
        intro r
        rw [hs, ht, hown hletters]
    · refine iff_of_true (Option.ext fun r => ?_) fun hmixed => absurd hmixed hletters
      rw [findRegister?_of_other_letters hletters, findRegister?_of_other_letters (h ▸ hletters), h]
  · intro r hr
    rw [findRegister?_eq_some_iff]
    constructor
    · rintro ⟨name, hname, hfound⟩
      obtain rfl := Option.some.inj (hr.symm.trans hname)
      exact hfound.2
    · intro hown
      exact ⟨t, hr, h, hown⟩
  · intro r name hname
    exact arch.eq_mixedName_iff _ (registerName?_eq_some_iff.mp hname)

theorem rbx_found_in_any_case : "RbX".toLower = "rbx".toLower ∧
    x86_64.registerName? ⟨3⟩ = some "rbx" ∧ x86_64.findRegister? "RbX" = some ⟨3⟩ := by
  have hletters : "RbX".toLower = "rbx".toLower := toLower_eq_toLower_iff.mpr (by decide)
  have hname : x86_64.registerName? ⟨3⟩ = some "rbx" := by decide +kernel
  refine ⟨hletters, hname, ?_⟩
  apply ((register_found_in_any_case_unless_mixed x86_64 hletters).2.1 ⟨3⟩ hname).mpr
  intro hmixed
  exact absurd hmixed (by decide)

/-- The flags have a name, which is lost as soon as all its letters are small. -/
theorem flags_lost_in_small_letters : "rflags".toLower = "rFLAGS".toLower ∧
    x86_64.registerName? ⟨49⟩ = some "rFLAGS" ∧ x86_64.findRegister? "rFLAGS" = some ⟨49⟩ ∧
    x86_64.findRegister? "rflags" = none := by
  have hletters : "rflags".toLower = "rFLAGS".toLower := toLower_eq_toLower_iff.mpr (by decide)
  have hname : x86_64.registerName? ⟨49⟩ = some "rFLAGS" := by decide +kernel
  have hfound {s : String} (hs : s.toLower = "rFLAGS".toLower) {r : Register} :
      x86_64.findRegister? s = some r ↔ s = "rFLAGS" ∧ r = ⟨49⟩ :=
    findRegister?_of_mixed_letters hname hs
  refine ⟨hletters, hname, (hfound rfl).mpr ⟨rfl, rfl⟩, ?_⟩
  apply Option.eq_none_iff_forall_ne_some.mpr
  intro r hr
  exact absurd ((hfound hletters).mp hr).1 (by decide)

end Arch

end FrameLens
