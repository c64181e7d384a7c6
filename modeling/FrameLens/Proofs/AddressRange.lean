import FrameLens.AddressRange

/-!
Ranges by the addresses that are in them, and what their ends tell about this.
-/
namespace FrameLens

namespace AddressRange

theorem contains_iff {r : AddressRange} {a : UInt64} :
    r.contains a ↔ r.start.toNat ≤ a.toNat ∧ a.toNat < r.stop.toNat := by
  simp [contains, UInt64.le_iff_toNat_le, UInt64.lt_iff_toNat_lt]

theorem isEmpty_eq_false_iff {r : AddressRange} : r.isEmpty = false ↔ r.start < r.stop := by
  simp [isEmpty]

/-- When the inner range has an address at all, its ends decide for all its addresses. -/
theorem encloses_iff {outer inner : AddressRange} (hi : inner.start < inner.stop) :
    outer.encloses inner ↔ ∀ a, inner.contains a → outer.contains a := by
  rw [UInt64.lt_iff_toNat_lt] at hi
  simp only [encloses, Bool.and_eq_true, decide_eq_true_eq, UInt64.le_iff_toNat_le, contains_iff]
  constructor
  · intro h a ha
    omega
  · intro h
    have hle : (1 : UInt64) ≤ inner.stop := by
      rw [UInt64.le_iff_toNat_le, UInt64.toNat_one]
      omega
    have hpred : (inner.stop - 1).toNat = inner.stop.toNat - 1 := by
      rw [UInt64.toNat_sub_of_le _ _ hle, UInt64.toNat_one]
    have hstart := h inner.start (by omega)
    have hlast := h (inner.stop - 1) (by omega)
    omega

/-- No address is in both. -/
def Disjoint (r q : AddressRange) : Prop := ∀ a, ¬ (r.contains a ∧ q.contains a)

theorem Disjoint.symm {r q : AddressRange} (h : r.Disjoint q) : q.Disjoint r :=
  fun a ha => h a ha.symm

/-- Of two ranges in order, the first ends before the second starts just when they do not meet. -/
theorem stop_le_start_iff {r q : AddressRange} (hq : q.start < q.stop) (h : r.start ≤ q.start) :
    r.stop ≤ q.start ↔ r.Disjoint q := by
  rw [UInt64.lt_iff_toNat_lt] at hq
  rw [UInt64.le_iff_toNat_le] at h ⊢
  simp only [Disjoint, contains_iff]
  constructor
  · intro hs a ha
    omega
  · intro hd
    have hm := hd q.start
    omega

end AddressRange

end FrameLens
