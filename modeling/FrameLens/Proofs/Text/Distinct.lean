import FrameLens.Proofs.Text.Numeral
import FrameLens.Text.Escape

/-!
Texts that tell what they are texts of. Different numbers are written differently, in decimal with a
sign and in hexadecimal, also with zeros in front; different byte strings have different pairs of
digits, and different characters are escaped differently.
-/
namespace FrameLens.Text

/-- Texts tell things apart if each is a spelling of its thing and of no other. -/
theorem injective_of_spelling {α β : Type} {spelling : β → α → Prop} {f : α → β}
    (hf : ∀ a, spelling (f a) a) (hunique : ∀ {t a b}, spelling t a → spelling t b → a = b) :
    Function.Injective f := by
  intro a b h
  have hb := hf b
  rw [← h] at hb
  exact hunique (hf a) hb

theorem Digits.unique {base n m : Nat} {cs : List Char} (hbase : base ≤ 16) (hn : Digits base cs n)
    (hm : Digits base cs m) : n = m := by
  rw [← digits?_eq_some_iff hbase] at hn hm
  exact Option.some.inj (hn.symm.trans hm)

/-- Zeros in front do not count. -/
theorem Digits.zeros {base n : Nat} {cs : List Char} (hbase : 0 < base) (h : Digits base cs n)
    (count : Nat) : Digits base (List.replicate count '0' ++ cs) n := by
  obtain ⟨hne, ds, hds, hvalue⟩ := h
  have hzeros :
      List.Forall₂ (IsDigit base) (List.replicate count '0') (List.replicate count 0) := by
    induction count with
    | zero => exact .nil
    | succ count ih => exact .cons ⟨hbase, .inl rfl⟩ ih
  refine ⟨List.append_ne_nil_of_right_ne_nil _ hne, List.replicate count 0 ++ ds,
    List.rel_append hzeros hds, ?_⟩
  rw [List.reverse_append, List.reverse_replicate, Nat.ofDigits_append_replicate_zero, hvalue]

theorem toDigits_injective {base : Nat} (hlow : 1 < base) (hhigh : base ≤ 16) :
    Function.Injective (Nat.toDigits base) :=
  injective_of_spelling (digits_toDigits hlow) (Digits.unique hhigh)

/-- The sign stands only before negative numbers, and digits follow. -/
theorem toList_toString_int (n : Int) :
    (toString n).toList =
      match n with
      | .ofNat m => Nat.toDigits 10 m
      | .negSucc m => '-' :: Nat.toDigits 10 (m + 1) := by
  cases n with
  | ofNat m =>
    show (toString m).toList = _
    rw [Nat.toString_eq_ofList_toDigits, String.toList_ofList]
  | negSucc m =>
    show ("-" ++ toString (m + 1)).toList = _
    rw [String.toList_append, Nat.toString_eq_ofList_toDigits, String.toList_ofList,
      String.toList_ofList]
    rfl

theorem isDigit_or_sign {n : Int} {c : Char} (h : c ∈ (toString n).toList) :
    c.isDigit ∨ c = '-' := by
  rw [toList_toString_int] at h
  cases n with
  | ofNat m => exact .inl (Nat.isDigit_of_mem_toDigits (by decide) (by decide) h)
  | negSucc m =>
    rcases List.mem_cons.mp h with hsign | hdigit
    · exact .inr hsign
    · exact .inl (Nat.isDigit_of_mem_toDigits (by decide) (by decide) hdigit)

theorem toString_int_injective {n m : Int} (h : toString n = toString m) : n = m := by
  have hsign {k l : Nat} : Nat.toDigits 10 k ≠ '-' :: Nat.toDigits 10 l := by
    intro hdigits
    have hmem : '-' ∈ Nat.toDigits 10 k := hdigits ▸ List.mem_cons_self
    exact absurd (Nat.isDigit_of_mem_toDigits (by decide) (by decide) hmem) (by decide)
  have hdecimal : Function.Injective (Nat.toDigits 10) :=
    toDigits_injective (by decide) (by decide)
  have hlist := congrArg String.toList h
  rw [toList_toString_int, toList_toString_int] at hlist
  cases n with
  | ofNat n =>
    cases m with
    | ofNat m => rw [hdecimal hlist]
    | negSucc m => exact absurd hlist hsign
  | negSucc n =>
    cases m with
    | ofNat m => exact absurd hlist.symm hsign
    | negSucc m =>
      have hsucc : n + 1 = m + 1 := hdecimal (List.cons.inj hlist).2
      rw [Nat.succ.inj hsucc]

theorem hexDigits_injective : Function.Injective hexDigits :=
  toDigits_injective (by decide) (by decide)

theorem paddedDigits_injective (width : Nat) : Function.Injective (paddedDigits width) := by
  have hpadded (n : Nat) : Digits 16 (paddedDigits width n) n :=
    (digits_toDigits (by decide) n).zeros (by decide) _
  exact injective_of_spelling hpadded (Digits.unique (by decide))

theorem length_byteDigits (b : UInt8) : (byteDigits b).length = 2 := by
  have hdigits : (hexDigits b.toNat).length ≤ 2 :=
    (Nat.length_toDigits_le_iff (by decide) (by decide)).mpr b.toNat_lt
  rw [byteDigits, paddedDigits, List.length_append, List.length_replicate]
  exact Nat.sub_add_cancel hdigits

/-- Two digits for each byte, so that it is known where the next one begins. -/
theorem byteDigits_append_inj {b c : UInt8} {s t : List Char}
    (h : byteDigits b ++ s = byteDigits c ++ t) : b = c ∧ s = t := by
  obtain ⟨hdigits, htail⟩ :=
    List.append_inj h ((length_byteDigits b).trans (length_byteDigits c).symm)
  exact ⟨UInt8.toNat_inj.mp (paddedDigits_injective 2 hdigits), htail⟩

theorem spacedDigits_cons (b : UInt8) (rest : List UInt8) :
    spacedDigits (b :: rest) =
      byteDigits b ++ if rest = [] then [] else ' ' :: spacedDigits rest := by
  cases rest with
  | nil => exact (List.append_nil _).symm
  | cons c rest => rfl

theorem spacedDigits_ne_nil {bytes : List UInt8} (h : bytes ≠ []) : spacedDigits bytes ≠ [] := by
  cases bytes with
  | nil => contradiction
  | cons b rest =>
    rw [spacedDigits_cons]
    apply List.append_ne_nil_of_left_ne_nil
    exact List.ne_nil_of_length_pos (by rw [length_byteDigits]; decide)

theorem spacedDigits_injective : Function.Injective spacedDigits := by
  intro first
  induction first with
  | nil =>
    intro second h
    by_contra hne
    exact spacedDigits_ne_nil (Ne.symm hne) h.symm
  | cons b rest ih =>
    intro second h
    cases second with
    | nil => exact absurd h (spacedDigits_ne_nil (List.cons_ne_nil b rest))
    | cons c more =>
      rw [spacedDigits_cons, spacedDigits_cons] at h
      obtain ⟨rfl, htail⟩ := byteDigits_append_inj h
      by_cases hrest : rest = [] <;> by_cases hmore : more = []
      · rw [hrest, hmore]
      · simp [hrest, hmore] at htail
      · simp [hrest, hmore] at htail
      · rw [if_neg hrest, if_neg hmore, List.cons.injEq] at htail
        rw [ih htail.2]

/-- The characters with an escape of their own, and the letters of these escapes. -/
def escapes : List (Char × Char) :=
  [('\t', 't'), ('\r', 'r'), ('\n', 'n'), ('\'', '\''), ('"', '"'), ('\\', '\\')]

/-- The three ways in which characters are written. -/
inductive Escaped : List Char → Char → Prop
  | named {c letter : Char} (h : (c, letter) ∈ escapes) : Escaped ['\\', letter] c
  | plain (c : Char) : Escaped [c] c
  | coded (c : Char) : Escaped ('\\' :: 'u' :: '\x7b' :: (hexDigits c.toNat ++ ['\x7d'])) c

theorem escaped_escapeChar (c : Char) : Escaped (escapeChar c).toList c := by
  unfold escapeChar
  split
  · exact .named (by decide)
  · exact .named (by decide)
  · exact .named (by decide)
  · exact .named (by decide)
  · exact .named (by decide)
  · exact .named (by decide)
  · split
    · rw [String.toList_singleton]
      exact .plain c
    · have hhex : (hex c.toNat).toList = hexDigits c.toNat := String.toList_ofList
      rw [String.toList_append, String.toList_append, hhex]
      exact .coded c

/-- The three ways differ in their lengths. -/
theorem Escaped.unique {c d : Char} {cs : List Char} (hc : Escaped cs c) (hd : Escaped cs d) :
    c = d := by
  cases hc with
  | named hletter =>
    cases hd with
    | named hother =>
      have hnodup : (escapes.map Prod.snd).Nodup := by decide
      exact congrArg Prod.fst (List.inj_on_of_nodup_map hnodup hletter hother rfl)
  | plain =>
    cases hd with
    | plain => rfl
  | coded =>
    generalize hcs : '\\' :: 'u' :: '\x7b' :: (hexDigits c.toNat ++ ['\x7d']) = cs at hd
    cases hd with
    | named => simp at hcs
    | plain => simp at hcs
    | coded =>
      simp only [List.cons.injEq, true_and] at hcs
      exact Char.toNat_inj.mp (hexDigits_injective (List.append_cancel_right hcs))

theorem escapeChar_injective : Function.Injective escapeChar := by
  have hlists : Function.Injective fun c => (escapeChar c).toList :=
    injective_of_spelling escaped_escapeChar Escaped.unique
  intro c d h
  exact hlists (congrArg String.toList h)

end FrameLens.Text
