import FrameLens.CType
import Mathlib.Data.List.Nodup

/-!
Types and their spelling in C. The spelling of a type behind pointers is its own, a blank and one
asterisk for each pointer. Apart from names that debug information gives, no type has an asterisk in
its own spelling, so that the asterisks tell the pointers and what stands in front of them the type.
-/
namespace FrameLens.CType

theorem isPointer_stripPointers (type : CType) : type.stripPointers.1.isPointer = false := by
  induction type with
  | pointer target ih => exact ih
  | void | integer | single | double | bool | char | named => rfl

theorem pointers_stripPointers (type : CType) :
    type.stripPointers.1.pointers type.stripPointers.2 = type := by
  induction type with
  | pointer target ih => exact congrArg pointer ih
  | void | integer | single | double | bool | char | named => rfl

section
variable {base : CType} (hbase : base.isPointer = false)
include hbase

/-- The blank comes with the first pointer only. -/
theorem text_pointers_succ (depth : Nat) :
    (base.pointers (depth + 1)).text =
      base.text ++ " " ++ String.ofList (List.replicate (depth + 1) '*') := by
  induction depth with
  | zero =>
    show base.text ++ (if base.isPointer then "*" else " *") = _
    rw [hbase, String.append_assoc]
    rfl
  | succ depth ih =>
    have hmore : List.replicate (depth + 2) '*' = List.replicate (depth + 1) '*' ++ ['*'] :=
      List.replicate_succ'
    show (base.pointers (depth + 1)).text ++ "*" = _
    rw [ih, hmore, String.ofList_append, ← String.append_assoc]

theorem text_pointers {depth : Nat} (hdepth : 1 ≤ depth) :
    (base.pointers depth).text = base.text ++ " " ++ String.ofList (List.replicate depth '*') := by
  obtain ⟨n, rfl⟩ := Nat.exists_eq_add_of_le' hdepth
  exact text_pointers_succ hbase n

/-- What is written behind the type itself depends on the number of pointers alone. -/
theorem toList_text_pointers (depth : Nat) :
    (base.pointers depth).text.toList =
      base.text.toList ++ if depth = 0 then [] else ' ' :: List.replicate depth '*' := by
  cases depth with
  | zero => exact (List.append_nil _).symm
  | succ depth =>
    rw [text_pointers_succ hbase, String.append_assoc, String.toList_append, String.toList_append,
      String.toList_ofList, String.toList_ofList]
    rfl

theorem count_asterisks (hplain : '*' ∉ base.text.toList) (depth : Nat) :
    (base.pointers depth).text.toList.count '*' = depth := by
  rw [toList_text_pointers hbase, List.count_append, List.count_eq_zero_of_not_mem hplain]
  cases depth with
  | zero => rfl
  | succ depth => simp [List.count_replicate_self]

end

/-- The asterisks give the number of pointers, and the rest is the text of the type behind them. -/
theorem of_text_pointers_eq {base other : CType} (hbase : base.isPointer = false)
    (hother : other.isPointer = false) (hplain : '*' ∉ base.text.toList)
    (hplain' : '*' ∉ other.text.toList) {depth depth' : Nat}
    (h : (base.pointers depth).text = (other.pointers depth').text) :
    depth = depth' ∧ base.text = other.text := by
  have hdepth : depth = depth' := by
    rw [← count_asterisks hbase hplain depth, h, count_asterisks hother hplain']
  have hlist := congrArg String.toList h
  rw [toList_text_pointers hbase, toList_text_pointers hother, hdepth] at hlist
  exact ⟨hdepth, String.toList_inj.mp (List.append_cancel_right hlist)⟩

/-- Types without a named type in them, behind however many pointers. -/
def isUnnamed : CType → Bool
  | named _ _ => false
  | pointer target => target.isUnnamed
  | _ => true

theorem isUnnamed_stripPointers (type : CType) :
    type.stripPointers.1.isUnnamed = type.isUnnamed := by
  induction type with
  | pointer target ih => exact ih
  | void | integer | single | double | bool | char | named => rfl

/-- The types that are neither named nor pointers. -/
def unnamedBases : List CType :=
  [void, integer true .w8, integer true .w16, integer true .w32, integer true .w64,
    integer false .w8, integer false .w16, integer false .w32, integer false .w64, single, double,
    bool, char]

theorem mem_unnamedBases {base : CType} (hunnamed : base.isUnnamed)
    (hbase : base.isPointer = false) : base ∈ unnamedBases := by
  cases base with
  | integer signed width => cases signed <;> cases width <;> decide
  | pointer | named => contradiction
  | void | single | double | bool | char => decide

theorem nodup_texts : (unnamedBases.map text).Nodup := by decide

theorem asterisk_not_mem : ∀ base ∈ unnamedBases, '*' ∉ base.text.toList := by decide

theorem eq_of_text_eq {first second : CType} (hfirst : first.isUnnamed) (hsecond : second.isUnnamed)
    (h : first.text = second.text) : first = second := by
  have hmem : first.stripPointers.1 ∈ unnamedBases :=
    mem_unnamedBases (by rwa [isUnnamed_stripPointers]) (isPointer_stripPointers first)
  have hmem' : second.stripPointers.1 ∈ unnamedBases :=
    mem_unnamedBases (by rwa [isUnnamed_stripPointers]) (isPointer_stripPointers second)
  rw [← pointers_stripPointers first, ← pointers_stripPointers second] at h ⊢
  obtain ⟨hdepth, htext⟩ := of_text_pointers_eq (isPointer_stripPointers first)
    (isPointer_stripPointers second) (asterisk_not_mem _ hmem) (asterisk_not_mem _ hmem') h
  rw [hdepth, List.inj_on_of_nodup_map nodup_texts hmem hmem' htext]

/-- The spelling of a type behind pointers is that of the type, one blank, and an asterisk for each
pointer. Types without names in them are told apart by their spelling. -/
theorem spelling_unambiguous :
    (∀ (base : CType) (depth : Nat), base.isPointer = false → 1 ≤ depth →
      (base.pointers depth).text =
        base.text ++ " " ++ String.ofList (List.replicate depth '*')) ∧
    ∀ first second : CType, first.isUnnamed → second.isUnnamed → first.text = second.text →
      first = second :=
  ⟨fun _ _ hbase hdepth => text_pointers hbase hdepth,
    fun _ _ hfirst hsecond h => eq_of_text_eq hfirst hsecond h⟩

/-- A pointer to a pointer to a named type; and characters of either sign behind two pointers, which
are spelled alike and are one type. -/
theorem spelling_of_double_pointers :
    ((named "node" 16).pointers 2).text = "node **" ∧
    (ofBase "signed char" 6 1).pointers 2 = (ofBase "unsigned char" 8 1).pointers 2 :=
  ⟨spelling_unambiguous.1 (named "node" 16) 2 rfl (by decide),
    spelling_unambiguous.2 _ _ rfl rfl rfl⟩

end FrameLens.CType
