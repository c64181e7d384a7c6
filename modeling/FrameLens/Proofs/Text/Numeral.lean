import FrameLens.Command.Arguments
import Mathlib.Data.Nat.Digits.Lemmas

/-!
Numerals and the numbers that they spell. The grammar stands by itself, a digit counting by its
place. Exactly the numerals of numbers that fit in a word are read, whatever zeros are in front, and
every such number is read back from its usual spellings.
-/
namespace FrameLens

namespace Text

/-- A digit of a base with its value, letters in either case. -/
def IsDigit (base : Nat) (c : Char) (d : Nat) : Prop :=
  d < base ∧ (c = d.digitChar ∨ c = d.digitChar.toUpper)

theorem toNat_digitChar {d : Nat} (h : d < 16) :
    d.digitChar.toNat = (if d < 10 then 48 else 87) + d ∧
    d.digitChar.toUpper.toNat = (if d < 10 then 48 else 55) + d := by
  interval_cases d <;> decide

theorem digitValue?_eq_some_iff {c : Char} {d : Nat} :
    digitValue? c = some d ↔ IsDigit 16 c d := by
  constructor
  · intro h
    have hvalue : (if 48 ≤ c.toNat ∧ c.toNat ≤ 57 then some (c.toNat - 48)
        else if 97 ≤ c.toNat ∧ c.toNat ≤ 102 then some (c.toNat - 97 + 10)
        else if 65 ≤ c.toNat ∧ c.toNat ≤ 70 then some (c.toNat - 65 + 10) else none) = some d := h
    have hcode : d < 10 ∧ c.toNat = 48 + d ∨
        10 ≤ d ∧ d < 16 ∧ (c.toNat = 87 + d ∨ c.toNat = 55 + d) := by
      split_ifs at hvalue <;> simp only [Option.some.injEq] at hvalue <;> omega
    have hd : d < 16 := by omega
    obtain ⟨hsmall, hcapital⟩ := toNat_digitChar hd
    refine ⟨hd, ?_⟩
    rw [← Char.toNat_inj, ← Char.toNat_inj, hsmall, hcapital]
    split_ifs <;> omega
  · rintro ⟨hd, hc⟩
    rcases hc with rfl | rfl <;> interval_cases d <;> rfl

/-- Digits of a base, the highest first, and the number that they make by their places. -/
def Digits (base : Nat) (cs : List Char) (n : Nat) : Prop :=
  cs ≠ [] ∧ ∃ ds, List.Forall₂ (IsDigit base) cs ds ∧ Nat.ofDigits base ds.reverse = n

theorem Digits.isDigit {base n : Nat} {cs : List Char} (h : Digits base cs n) {c : Char}
    (hc : c ∈ cs) : ∃ d, IsDigit base c d := by
  obtain ⟨-, ds, hds, -⟩ := h
  induction hds with
  | nil => exact absurd hc List.not_mem_nil
  | @cons first d rest ds hd _ ih =>
    rcases List.mem_cons.mp hc with rfl | hrest
    · exact ⟨d, hd⟩
    · exact ih hrest

/-- A numeral of a base: digits, in front of which a single plus sign may stand. -/
def Spells (base : Nat) (cs : List Char) (n : Nat) : Prop :=
  ∃ sign digits, cs = sign ++ digits ∧ (sign = [] ∨ sign = ['+']) ∧ Digits base digits n

/-- A numeral in either base. The mark of base sixteen stands before the sign. -/
inductive Numeral : List Char → Nat → Prop
  | hexadecimal {cs : List Char} {n : Nat} (mark : Char) (hmark : mark = 'x' ∨ mark = 'X')
      (h : Spells 16 cs n) : Numeral ('0' :: mark :: cs) n
  | decimal {cs : List Char} {n : Nat}
      (hmark : ∀ mark rest, cs = '0' :: mark :: rest → ¬ (mark = 'x' ∨ mark = 'X'))
      (h : Spells 10 cs n) : Numeral cs n

section
variable {base : Nat} (hbase : base ≤ 16)
include hbase

theorem isDigit_iff {c : Char} {d : Nat} :
    IsDigit base c d ↔ digitValue? c = some d ∧ d < base := by
  rw [digitValue?_eq_some_iff]
  constructor
  · rintro ⟨hd, hc⟩
    exact ⟨⟨by omega, hc⟩, hd⟩
  · rintro ⟨⟨-, hc⟩, hd⟩
    exact ⟨hd, hc⟩

theorem not_isDigit {c : Char} (hc : digitValue? c = none) (d : Nat) : ¬ IsDigit base c d := by
  simp [isDigit_iff hbase, hc]

/-- The number so far moves up by one place for each digit that is read. -/
theorem digitsFrom_eq_some_iff {value n : Nat} {cs : List Char} :
    digitsFrom base value cs = some n ↔
      ∃ ds, List.Forall₂ (IsDigit base) cs ds ∧ ds.foldl (fun v d => d + base * v) value = n := by
  induction cs generalizing value with
  | nil => simp [digitsFrom]
  | cons c rest ih =>
    cases hc : digitValue? c with
    | none => simp [digitsFrom, hc, List.forall₂_cons_left_iff, isDigit_iff hbase]
    | some d =>
      have hdigit (e : Nat) : IsDigit base c e ↔ d = e ∧ e < base := by
        rw [isDigit_iff hbase, hc, Option.some.injEq]
      by_cases hd : d < base
      · have hmove : value * base + d = d + base * value := by ring
        have hread : digitsFrom base value (c :: rest) =
            digitsFrom base (d + base * value) rest := by
          simp only [digitsFrom, hc, hd, ↓reduceIte, hmove]
        rw [hread, ih]
        constructor
        · rintro ⟨ds, hds, hn⟩
          exact ⟨d :: ds, .cons ((hdigit d).mpr ⟨rfl, hd⟩) hds, hn⟩
        · rintro ⟨ds, hds, hn⟩
          cases hds with
          | cons he hds =>
            obtain ⟨rfl, -⟩ := (hdigit _).mp he
            exact ⟨_, hds, hn⟩
      · constructor
        · intro h
          simp [digitsFrom, hc, hd] at h
        · rintro ⟨ds, hds, -⟩
          cases hds with
          | cons he =>
            obtain ⟨rfl, he⟩ := (hdigit _).mp he
            exact absurd he hd

theorem digits?_eq_some_iff {n : Nat} {cs : List Char} :
    digits? base cs = some n ↔ Digits base cs n := by
  have hplaces (ds : List Nat) :
      Nat.ofDigits base ds.reverse = ds.foldl (fun v d => d + base * v) 0 := by
    rw [Nat.ofDigits_eq_foldr, List.foldr_reverse]
    rfl
  cases cs with
  | nil => simp [digits?, Digits]
  | cons c rest => simp [digits?, Digits, digitsFrom_eq_some_iff hbase, hplaces]

theorem spells_iff {cs : List Char} {n : Nat} :
    Spells base cs n ↔ Digits base (withoutPlus cs) n := by
  constructor
  · rintro ⟨sign, digits, rfl, rfl | rfl, hdigits⟩
    · rw [List.nil_append]
      unfold withoutPlus
      split
      · -- a plus sign is no digit
        obtain ⟨d, hd⟩ := hdigits.isDigit List.mem_cons_self
        exact absurd hd (not_isDigit hbase (by decide) d)
      · exact hdigits
    · exact hdigits
  · intro h
    unfold withoutPlus at h
    split at h
    · exact ⟨['+'], _, rfl, .inr rfl, h⟩
    · exact ⟨[], cs, rfl, .inl rfl, h⟩

theorem word?_eq_some_iff {cs : List Char} {n : UInt64} :
    word? base cs = some n ↔ Spells base cs n.toNat := by
  rw [spells_iff hbase, ← digits?_eq_some_iff hbase]
  unfold word?
  cases digits? base (withoutPlus cs) with
  | none => simp
  | some value =>
    simp only [Option.some.injEq]
    constructor
    · intro h
      obtain ⟨hfits, hn⟩ := Option.ite_none_right_eq_some.mp h
      rw [← Option.some.inj hn, UInt64.toNat_ofNat_of_lt' hfits]
    · rintro rfl
      rw [if_pos n.toNat_lt, UInt64.ofNat_toNat]

theorem IsDigit.toUpper {c : Char} {d : Nat} (h : IsDigit base c d) :
    IsDigit base c.toUpper d := by
  obtain ⟨hd, rfl | rfl⟩ := h
  · exact ⟨hd, .inr rfl⟩
  · have hsixteen : d < 16 := by omega
    refine ⟨hd, .inr ?_⟩
    interval_cases d <;> rfl

theorem Digits.map_toUpper {n : Nat} {cs : List Char} (h : Digits base cs n) :
    Digits base (cs.map Char.toUpper) n := by
  obtain ⟨hne, ds, hds, hvalue⟩ := h
  refine ⟨by simpa using hne, ds, ?_, hvalue⟩
  rw [List.forall₂_map_left_iff]
  exact hds.imp fun _ _ hd => hd.toUpper hbase

end

theorem number?_eq_some_iff {text : String} {n : UInt64} :
    number? text = some n ↔ Numeral text.toList n.toNat := by
  have hsplit : number? text = word? (splitBase text.toList).1 (splitBase text.toList).2 := rfl
  rw [hsplit]
  generalize text.toList = cs
  constructor
  · intro h
    unfold splitBase at h
    split at h
    · exact .hexadecimal 'x' (.inl rfl) ((word?_eq_some_iff (by decide)).mp h)
    · exact .hexadecimal 'X' (.inr rfl) ((word?_eq_some_iff (by decide)).mp h)
    · next hx hX =>
      refine .decimal ?_ ((word?_eq_some_iff (by decide)).mp h)
      rintro mark rest rfl (rfl | rfl)
      · exact hx rest rfl
      · exact hX rest rfl
  · intro h
    cases h with
    | hexadecimal mark hmark h =>
      have hword := (word?_eq_some_iff (by decide)).mpr h
      rcases hmark with rfl | rfl <;> exact hword
    | decimal hmark h =>
      have hword := (word?_eq_some_iff (by decide)).mpr h
      unfold splitBase
      split
      · exact absurd (.inl rfl) (hmark 'x' _ rfl)
      · exact absurd (.inr rfl) (hmark 'X' _ rfl)
      · exact hword

theorem digits_toDigits {base : Nat} (hbase : 1 < base) (n : Nat) :
    Digits base (Nat.toDigits base n) n := by
  refine ⟨Nat.toDigits_ne_nil, ?_⟩
  induction n using Nat.strong_induction_on with
  | _ n ih =>
    by_cases hn : n < base
    · refine ⟨[n], ?_, by simp⟩
      rw [Nat.toDigits_of_lt_base hn]
      exact .cons ⟨hn, .inl rfl⟩ .nil
    · have hle : base ≤ n := Nat.le_of_not_lt hn
      obtain ⟨ds, hds, hvalue⟩ := ih (n / base) (Nat.div_lt_self (by omega) hbase)
      refine ⟨ds ++ [n % base], ?_, ?_⟩
      · rw [Nat.toDigits_of_base_le hbase hle]
        exact List.rel_append hds (.cons ⟨Nat.mod_lt n (by omega), .inl rfl⟩ .nil)
      · rw [List.reverse_append, List.reverse_singleton, List.singleton_append, Nat.ofDigits_cons,
          hvalue]
        exact Nat.mod_add_div n base

theorem Digits.spells {base n : Nat} {cs : List Char} (h : Digits base cs n) : Spells base cs n :=
  ⟨[], cs, rfl, .inl rfl, h⟩

/-- Decimal digits never look like the mark of the other base. -/
theorem Digits.numeral {n : Nat} {cs : List Char} (h : Digits 10 cs n) : Numeral cs n := by
  refine .decimal ?_ h.spells
  rintro mark rest rfl hmark
  obtain ⟨d, hd⟩ := h.isDigit (List.mem_cons_of_mem _ List.mem_cons_self)
  rcases hmark with rfl | rfl <;> exact absurd hd (not_isDigit (by decide) (by decide) d)

end Text

namespace Command
open Text

theorem number_eq_ok_iff {text : String} {n : UInt64} :
    number text = .ok n ↔ Numeral text.toList n.toNat := by
  rw [← number?_eq_some_iff]
  unfold number
  cases number? text <;> simp

/-- A number is read exactly from its numerals, and what is no numeral of a word is refused. The
usual spellings of a word are among its numerals: the decimal one, and the hexadecimal one with its
mark and its digits in either case. -/
theorem number_reads_numerals (text : String) (n : UInt64) :
    (number text = .ok n ↔ Numeral text.toList n.toNat) ∧
    (number text = .error (.badNumber text) ↔
      ∀ value, Numeral text.toList value → 2 ^ 64 ≤ value) ∧
    number (toString n.toNat) = .ok n ∧
    number ("0x" ++ hex n.toNat) = .ok n ∧ number ("0x" ++ (hex n.toNat).toUpper) = .ok n ∧
    number ("0X" ++ hex n.toNat) = .ok n ∧ number ("0X" ++ (hex n.toNat).toUpper) = .ok n := by
  have hdigits : Digits 16 (hex n.toNat).toList n.toNat := by
    rw [hex, hexDigits, String.toList_ofList]
    exact digits_toDigits (by decide) _
  have hcapital : Digits 16 (hex n.toNat).toUpper.toList n.toNat := by
    rw [String.toUpper, String.toList_map]
    exact hdigits.map_toUpper (by decide)
  have hmarked (mark : Char) (hmark : mark = 'x' ∨ mark = 'X') {digits : String}
      (h : Digits 16 digits.toList n.toNat) :
      number (String.ofList ['0', mark] ++ digits) = .ok n := by
    rw [number_eq_ok_iff, String.toList_append, String.toList_ofList]
    exact .hexadecimal mark hmark h.spells
  refine ⟨number_eq_ok_iff, ?_, ?_, hmarked 'x' (.inl rfl) hdigits, hmarked 'x' (.inl rfl) hcapital,
    hmarked 'X' (.inr rfl) hdigits, hmarked 'X' (.inr rfl) hcapital⟩
  · constructor
    · intro h value hvalue
      by_contra hfits
      have hok : number text = .ok (UInt64.ofNat value) := by
        rw [number_eq_ok_iff, UInt64.toNat_ofNat_of_lt' (Nat.lt_of_not_le hfits)]
        exact hvalue
      rw [h] at hok
      contradiction
    · intro h
      unfold number
      cases hword : number? text with
      | none => rfl
      | some m =>
        have hlarge := h m.toNat (number?_eq_some_iff.mp hword)
        exact absurd m.toNat_lt (Nat.not_lt.mpr hlarge)
  · rw [number_eq_ok_iff, Nat.toString_eq_ofList_toDigits, String.toList_ofList]
    exact (digits_toDigits (by decide) _).numeral

end Command

end FrameLens
