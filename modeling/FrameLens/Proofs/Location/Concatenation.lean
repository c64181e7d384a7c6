import FrameLens.Proofs.Location.Forms

/-!
Location bytes put one behind the other. Every operation tells by its own bytes where it ends, so
what is read from the front does not depend on what follows, and neither does a failure behind it.
Of two descriptions that are put together nothing is left but a number that becomes the value. The
frame base matters to a single operation and to no other bytes.
-/
namespace FrameLens

namespace Operation

theorem AllSpelled.append {encoding : Encoding} {front back : List Operation} {x y : List UInt8}
    (hx : AllSpelled encoding front x) (hy : AllSpelled encoding back y) :
    AllSpelled encoding (front ++ back) (x ++ y) := by
  rcases hx with ⟨parts, hparts, rfl⟩
  rcases hy with ⟨others, hothers, rfl⟩
  exact ⟨parts ++ others, List.rel_append hparts hothers, List.flatten_append.symm⟩

theorem AllSpelled.ne_nil {encoding : Encoding} {ops : List Operation} {bytes : List UInt8}
    (h : AllSpelled encoding ops bytes) (hbytes : bytes ≠ []) : ops ≠ [] := by
  rcases h with ⟨parts, hparts, rfl⟩
  rintro rfl
  cases hparts
  exact hbytes rfl

end Operation

namespace Location
open Operation

section
variable {encoding : Encoding} {frameBase : Option Register} {x y : List UInt8}

theorem exists_ofBytes_iff :
    (∃ location, ofBytes encoding frameBase x = .ok location) ↔
      ∃ ops, AllSpelled encoding ops x := by
  simp only [← readAll_eq_ok_iff]
  constructor
  · rintro ⟨location, hlocation⟩
    cases hread : readAll encoding x with
    | ok ops => exact ⟨ops, rfl⟩
    | error e =>
      rw [ofBytes_eq_error_iff.mpr hread] at hlocation
      contradiction
  · rintro ⟨ops, hread⟩
    cases hlocation : ofBytes encoding frameBase x with
    | ok location => exact ⟨location, rfl⟩
    | error e =>
      rw [ofBytes_eq_error_iff.mp hlocation] at hread
      contradiction

/-- Operations from two sides can only be a number and the mark that it is the value. -/
theorem Gives.of_append {front back : List Operation} {location : Location}
    (h : Gives encoding frameBase (front ++ back) location) (hfront : front ≠ [])
    (hback : back ≠ []) :
    ∃ word, front = [push word] ∧ back = [stackValue] := by
  obtain ⟨op, front, rfl⟩ := List.exists_cons_of_ne_nil hfront
  obtain ⟨next, back, rfl⟩ := List.exists_cons_of_ne_nil hback
  generalize hops : op :: front ++ next :: back = ops at h
  cases h with
  | value word =>
    cases front with
    | nil =>
      simp only [List.cons_append, List.nil_append, List.cons.injEq] at hops
      obtain ⟨rfl, rfl, rfl⟩ := hops
      exact ⟨word, rfl, rfl⟩
    | cons => simp at hops
  | nothing | register | memory | frame | block => simp at hops

theorem ofBytes_append_error {e : DecodeError} {ops : List Operation}
    (hx : AllSpelled encoding ops x) (hy : ofBytes encoding frameBase y = .error e) :
    ofBytes encoding frameBase (x ++ y) = .error e := by
  rw [ofBytes_eq_error_iff] at hy ⊢
  rw [readAll_allSpelled hx, hy]
  rfl

theorem ofBytes_append_unavailable {front back : List Operation} (hx : AllSpelled encoding front x)
    (hy : AllSpelled encoding back y) (hfront : front ≠ []) (hback : back ≠ [])
    (hvalue : ¬ ((∃ v, Pushes v x) ∧ y = [0x9f])) :
    ofBytes encoding frameBase (x ++ y) = .ok unavailable := by
  cases hgives : ofOperations encoding frameBase (front ++ back) with
  | error cause => exact ofBytes_of_unusable (hx.append hy) hgives
  | ok location =>
    obtain ⟨word, rfl, rfl⟩ := (ofOperations_eq_ok_iff.mp hgives).of_append hfront hback
    obtain ⟨v, hpush, -⟩ := spelled_push_iff.mp (allSpelled_singleton.mp hx)
    have hmark := spelled_stackValue_iff.mp (allSpelled_singleton.mp hy)
    exact absurd ⟨⟨v, hpush⟩, hmark⟩ hvalue

end

theorem ofBytes_pushed (encoding : Encoding) (frameBase : Option Register) {v : Int}
    {x : List UInt8} (h : Pushes v x) :
    ofBytes encoding frameBase (x ++ [0x9f]) =
      .ok (constant (Bytes.ofWord encoding.addressSize (UInt64.ofInt v))) :=
  ofBytes_of_gives (allSpelled_value_iff.mpr ⟨v, x, h, rfl, rfl⟩) (.value _)

theorem ofOperations_eq_of_ne {ops : List Operation} (h : ∀ offset, ops ≠ [.frameOffset offset])
    (encoding : Encoding) (f g : Option Register) :
    ofOperations encoding f ops = ofOperations encoding g ops := by
  unfold ofOperations
  split
  case h_4 offset => exact absurd rfl (h offset)
  all_goals rfl

/-- With two different frame bases, an offset from the frame base gives two locations. -/
theorem ofBytes_frameBase_iff (encoding : Encoding) (bytes : List UInt8) :
    (∀ f g, ofBytes encoding f bytes = ofBytes encoding g bytes) ↔
      ¬ ∃ offset, Spelled encoding (frameOffset offset) bytes := by
  constructor
  · intro hsame ⟨offset, hspelled⟩
    have hops := allSpelled_singleton.mpr hspelled
    have hbase : ofBytes encoding (some ⟨0⟩) bytes = .ok (stack ⟨0⟩ offset) :=
      ofBytes_of_gives hops (.frame rfl offset)
    have hnone : ofBytes encoding none bytes = .ok unavailable := ofBytes_of_unusable hops rfl
    rw [hsame none (some ⟨0⟩), hbase] at hnone
    simp at hnone
  · intro hother f g
    unfold ofBytes
    cases hread : readAll encoding bytes with
    | error e => rfl
    | ok ops =>
      have hne (offset : Int64) : ops ≠ [.frameOffset offset] := by
        rintro rfl
        have hops := (readAll_eq_ok_iff encoding bytes _).mp hread
        exact hother ⟨offset, allSpelled_singleton.mp hops⟩
      simp only [ofOperations_eq_of_ne hne encoding f g]

/-- Two readable descriptions make a readable one. It is a constant if the first is a number on the
stack and the second makes it the value, and has no location otherwise. A failure of the second is
the failure of both. Only an offset from the frame base depends on the frame base. -/
theorem ofBytes_self_delimiting (encoding : Encoding) :
    (∀ (frameBase : Option Register) (x y : List UInt8) (location : Location), x ≠ [] → y ≠ [] →
      ofBytes encoding frameBase x = .ok location →
      (∀ other, ofBytes encoding frameBase y = .ok other →
        ∃ whole, ofBytes encoding frameBase (x ++ y) = .ok whole ∧
          ((∃ c, whole = constant c) ↔ (∃ v, Pushes v x) ∧ y = [0x9f]) ∧
          (∀ v, Pushes v x → y = [0x9f] →
            whole = constant (Bytes.ofWord encoding.addressSize (UInt64.ofInt v))) ∧
          (¬ ((∃ v, Pushes v x) ∧ y = [0x9f]) → whole = unavailable)) ∧
      ∀ e, ofBytes encoding frameBase y = .error e →
        ofBytes encoding frameBase (x ++ y) = .error e) ∧
    ∀ bytes, (∀ f g, ofBytes encoding f bytes = ofBytes encoding g bytes) ↔
      ¬ ∃ (offset : Int64) (back : List UInt8),
        Leb128.Signed offset.toInt back ∧ bytes = 0x91 :: back := by
  refine ⟨?_, ?_⟩
  · intro frameBase x y location hx hy hlocation
    obtain ⟨front, hfront⟩ := exists_ofBytes_iff.mp ⟨location, hlocation⟩
    refine ⟨?_, fun e he => ofBytes_append_error hfront he⟩
    intro other hother
    obtain ⟨back, hback⟩ := exists_ofBytes_iff.mp ⟨other, hother⟩
    by_cases hvalue : (∃ v, Pushes v x) ∧ y = [0x9f]
    · obtain ⟨⟨v, hpush⟩, rfl⟩ := hvalue
      have hwhole := ofBytes_pushed encoding frameBase hpush
      refine ⟨_, hwhole, iff_of_true ⟨_, rfl⟩ ⟨⟨v, hpush⟩, rfl⟩, ?_, ?_⟩
      · intro w hw _
        exact Except.ok.inj (hwhole.symm.trans (ofBytes_pushed encoding frameBase hw))
      · intro hnot
        exact absurd ⟨⟨v, hpush⟩, rfl⟩ hnot
    · refine ⟨unavailable, ofBytes_append_unavailable hfront hback (hfront.ne_nil hx)
        (hback.ne_nil hy) hvalue, iff_of_false (by simp) hvalue, ?_, fun _ => rfl⟩
      intro v hpush hmark
      exact absurd ⟨⟨v, hpush⟩, hmark⟩ hvalue
  · intro bytes
    simp only [ofBytes_frameBase_iff, spelled_frameOffset_iff]

/-- The number -1 and the mark that it is the value, each of which has no location alone; and the
number before an operation that has lost its operand. -/
theorem pushed_number_delimited :
    ofBytes ⟨5, 8, .dwarf32⟩ none [0x11, 0x7f] = .ok unavailable ∧
    ofBytes ⟨5, 8, .dwarf32⟩ none [0x9f] = .ok unavailable ∧
    ofBytes ⟨5, 8, .dwarf32⟩ none [0x76] = .error .endOfInput ∧
    ofBytes ⟨5, 8, .dwarf32⟩ none [0x11, 0x7f, 0x9f] =
      .ok (constant [0xff, 0xff, 0xff, 0xff, 0xff, 0xff, 0xff, 0xff]) ∧
    ofBytes ⟨5, 8, .dwarf32⟩ none [0x11, 0x7f, 0x76] = .error .endOfInput ∧
    ofBytes ⟨5, 8, .dwarf32⟩ none [0x11, 0x7f] =
      ofBytes ⟨5, 8, .dwarf32⟩ (some ⟨6⟩) [0x11, 0x7f] := by
  have hnumber : ofBytes ⟨5, 8, .dwarf32⟩ none [0x11, 0x7f] = .ok unavailable := by cbv
  have hmark : ofBytes ⟨5, 8, .dwarf32⟩ none [0x9f] = .ok unavailable := by cbv
  have hcut : ofBytes ⟨5, 8, .dwarf32⟩ none [0x76] = .error .endOfInput := by cbv
  have hpush : Pushes (-1) [0x11, 0x7f] :=
    .signed ⟨.last (by decide), by decide, by decide, by decide, by decide⟩
  obtain ⟨hparts, hbase⟩ := ofBytes_self_delimiting ⟨5, 8, .dwarf32⟩
  obtain ⟨hvalue, -⟩ := hparts none [0x11, 0x7f] [0x9f] _ (by simp) (by simp) hnumber
  obtain ⟨-, hfail⟩ := hparts none [0x11, 0x7f] [0x76] _ (by simp) (by simp) hnumber
  obtain ⟨whole, hwhole, -, hconstant, -⟩ := hvalue _ hmark
  refine ⟨hnumber, hmark, hcut, ?_, hfail _ hcut, ?_⟩
  · rw [hconstant (-1) hpush rfl] at hwhole
    exact hwhole
  · exact (hbase _).mpr (by simp) none (some ⟨6⟩)

end Location

end FrameLens
