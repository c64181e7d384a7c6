import FrameLens.Proofs.Text.Distinct
import FrameLens.Proofs.Variable.Decoding

/-!
Values and their texts. What is found for a variable is shown as a value of its type, as bytes, or
as unavailable. The first character tells which of these it is, and the rest tells the value, unless
the type is one of the floating point types.
-/
namespace FrameLens.Value

open Text

/-- What can be shown for a variable of a type. -/
inductive Decoded (type : CType) : Value → Prop
  | unavailable : Decoded type unavailable
  | bytes (raw : List UInt8) : Decoded type (bytes raw)
  | typed {value : Value} (h : OfType type value) : Decoded type value

theorem decoded_decode (type : CType) (raw : RawValue) : Decoded type (decode type raw) := by
  cases raw with
  | unavailable => exact .unavailable
  | bytes raw address =>
    simp only [decode]
    split
    · exact .bytes raw
    · by_cases hscalar : type.isScalar
      · exact .typed (ofType_ofBytes hscalar _)
      · cases type with
        | void | named => exact .bytes _
        | integer | single | double | bool | char | pointer => exact absurd rfl hscalar

theorem head_text_unavailable : unavailable.text.toList.head? = some '<' := by decide

theorem head_text_bytes (raw : List UInt8) : (bytes raw).text.toList.head? = some 'b' := by
  simp only [text, String.toList_append]
  rfl

theorem eq_of_bytes_text_eq {first second : List UInt8}
    (h : (bytes first).text = (bytes second).text) : first = second := by
  have hlist := congrArg String.toList h
  simp only [text, String.toList_append, String.toList_ofList] at hlist
  exact spacedDigits_injective (List.append_cancel_left (List.append_cancel_right hlist))

section
variable {type : CType} {v w : Value} (hsingle : type ≠ .single) (hdouble : type ≠ .double)
include hsingle hdouble

/-- Numbers begin with a digit or a sign, truth values with a letter of their own, characters with a
quote and pointers with a zero. -/
theorem OfType.head_text_ne (h : OfType type v) :
    v.text.toList.head? ≠ some '<' ∧ v.text.toList.head? ≠ some 'b' := by
  have hnumber (n : Int) :
      (toString n).toList.head? ≠ some '<' ∧ (toString n).toList.head? ≠ some 'b' :=
    ⟨fun h => absurd (isDigit_or_sign (List.mem_of_head? h)) (by decide),
      fun h => absurd (isDigit_or_sign (List.mem_of_head? h)) (by decide)⟩
  cases h with
  | signed width value => exact hnumber value.toInt
  | unsigned width value => exact hnumber value.toNat
  | single => exact absurd rfl hsingle
  | double => exact absurd rfl hdouble
  | bool value => cases value <;> decide
  | char value | pointer target address =>
    simp only [text, String.toList_append]
    exact ⟨by simp, by simp⟩

theorem OfType.eq_of_text_eq (hv : OfType type v) (hw : OfType type w) (h : v.text = w.text) :
    v = w := by
  cases hv with
  | signed width value =>
    cases hw with
    | signed _ other => rw [Int64.toInt_inj.mp (toString_int_injective h)]
  | unsigned width value =>
    cases hw with
    | unsigned _ other => rw [UInt64.toNat_inj.mp (Int.ofNat.inj (toString_int_injective h))]
  | single => exact absurd rfl hsingle
  | double => exact absurd rfl hdouble
  | bool value =>
    cases hw with
    | bool other =>
      have hdistinct : (Value.bool true).text ≠ (Value.bool false).text := by decide
      cases value <;> cases other
      · rfl
      · exact absurd h.symm hdistinct
      · exact absurd h hdistinct
      · rfl
  | char value =>
    cases hw with
    | char other =>
      have hlist := congrArg String.toList h
      simp only [text, String.toList_append] at hlist
      have hescaped := List.append_cancel_left (List.append_cancel_right hlist)
      rw [escapeChar_injective (String.toList_inj.mp hescaped)]
  | pointer target address =>
    cases hw with
    | pointer _ other =>
      have hlist := congrArg String.toList h
      simp only [text, hexPadded, String.toList_append, String.toList_ofList] at hlist
      have hdigits := paddedDigits_injective 16 (List.append_cancel_left hlist)
      rw [UInt64.toNat_inj.mp hdigits]

/-- The three forms differ in their first characters. -/
theorem Decoded.eq_of_text_eq (hv : Decoded type v) (hw : Decoded type w) (h : v.text = w.text) :
    v = w := by
  have hhead : v.text.toList.head? = w.text.toList.head? := by rw [h]
  cases hv with
  | unavailable =>
    rw [head_text_unavailable] at hhead
    cases hw with
    | unavailable => rfl
    | bytes raw => simp [head_text_bytes] at hhead
    | typed hw => exact absurd hhead.symm (hw.head_text_ne hsingle hdouble).1
  | bytes raw =>
    rw [head_text_bytes] at hhead
    cases hw with
    | unavailable => simp [head_text_unavailable] at hhead
    | bytes other => rw [eq_of_bytes_text_eq h]
    | typed hw => exact absurd hhead.symm (hw.head_text_ne hsingle hdouble).2
  | typed hv =>
    cases hw with
    | unavailable =>
      exact absurd (hhead.trans head_text_unavailable) (hv.head_text_ne hsingle hdouble).1
    | bytes other =>
      exact absurd (hhead.trans (head_text_bytes other)) (hv.head_text_ne hsingle hdouble).2
    | typed hw => exact hv.eq_of_text_eq hsingle hdouble hw h

end

/-- Whatever is found for a variable, as many bytes as there may be or none, the text that is shown
for it is the text of one value only, if the type is no floating point type. -/
theorem text_identifies_value (type : CType) (hsingle : type ≠ .single) (hdouble : type ≠ .double)
    (first second : RawValue) :
    (decode type first).text = (decode type second).text ↔
      decode type first = decode type second := by
  constructor
  · intro h
    exact (decoded_decode type first).eq_of_text_eq hsingle hdouble (decoded_decode type second) h
  · intro h
    rw [h]

/-- A quote from two places is one value; a number that is cut short is shown otherwise than the
number. -/
theorem shown_values_told_apart :
    (decode .char (.bytes [0x27, 0xff] none)).text = "'\\''" ∧
    decode .char (.bytes [0x27, 0xff] none) = decode .char (.bytes [0x27] (some 0x1000)) ∧
    (decode (.integer false .w16) (.bytes [0x31] none)).text ≠
      (decode (.integer false .w16) (.bytes [0x31, 0] none)).text := by
  refine ⟨rfl, ?_, ?_⟩
  · exact (text_identifies_value .char (by decide) (by decide) _ _).mp rfl
  · rw [ne_eq, text_identifies_value (.integer false .w16) (by decide) (by decide)]
    decide

end FrameLens.Value
