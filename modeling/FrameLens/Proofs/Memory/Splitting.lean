import FrameLens.Proofs.Memory.Coverage

/-!
Reads in parts. The front of a request is read as it is read with the rest behind it. The back is
not always: a read that starts further on may find a region that was added earlier and begins there,
while a read that comes from before stays in the region that it has.
-/
namespace FrameLens

theorem Region.take_between (r : Region) {cursor mid stop : UInt64} (h : mid.toNat ≤ stop.toNat) :
    (r.between cursor stop).take (mid.toNat - cursor.toNat) = r.between cursor mid := by
  rw [between, List.take_take, Nat.min_eq_left (Nat.sub_le_sub_right h _)]
  rfl

/-- If the first region begins inside the second, both store the same where their ranges meet. -/
def Region.AgreesInside (r outer : Region) : Prop :=
  outer.base < r.base → ∀ x, r.range.contains x → outer.range.contains x →
    r.byteAt? x = outer.byteAt? x

theorem Region.agreesInside_of_limit_le {r outer : Region}
    (h : outer.base < r.base → outer.limit ≤ r.base) : r.AgreesInside outer := by
  intro hbase x hx houter
  have hlimit := UInt64.le_iff_toNat_le.mp (h hbase)
  have hlow := (AddressRange.contains_iff.mp hx).1
  have hhigh := (AddressRange.contains_iff.mp houter).2
  exact absurd (Nat.le_trans hlimit hlow) (Nat.not_le.mpr hhigh)

namespace MemoryMap

/-- The byte that an address has in the first region that contains it. -/
def byteAt? (m : MemoryMap) (x : UInt64) : Option UInt8 := (m.find? x).bind (·.byteAt? x)

/-- A shorter walk is the start of a longer one. -/
theorem collect_take {m : MemoryMap} {cursor mid stop : UInt64} {bytes : List UInt8}
    (h : m.collect cursor stop = some bytes) (hmid : mid.toNat ≤ stop.toNat) :
    m.collect cursor mid = some (bytes.take (mid.toNat - cursor.toNat)) := by
  have hpast {cursor : UInt64} (hle : mid.toNat ≤ cursor.toNat) (bytes : List UInt8) :
      m.collect cursor mid = some (bytes.take (mid.toNat - cursor.toNat)) := by
    rw [collect_of_le (UInt64.le_iff_toNat_le.mpr hle), Nat.sub_eq_zero_of_le hle, List.take_zero]
  induction cursor using walk_induction m stop generalizing bytes with
  | arrived cursor hend => exact hpast (Nat.le_trans hmid (UInt64.le_iff_toNat_le.mp hend)) bytes
  | lost cursor before hnone => simp [collect_of_find?_none before hnone] at h
  | step cursor r hstep ih =>
    by_cases hcursor : mid.toNat ≤ cursor.toNat
    · exact hpast hcursor bytes
    · have hshort : m.Step mid cursor r :=
        step_of_find? (UInt64.lt_iff_toNat_lt.mpr (Nat.lt_of_not_le hcursor)) hstep.found
      rw [hstep.collect_eq] at h
      obtain ⟨rest, hrest, rfl⟩ := Option.map_eq_some_iff.mp h
      have hlength := Region.length_between hstep.inside hstep.le_end
      have hend := toNat_chunkEnd r mid
      have hlong := toNat_chunkEnd r stop
      rw [hshort.collect_eq]
      by_cases hin : mid.toNat ≤ (chunkEnd r stop).toNat
      · -- the shorter walk ends in this piece
        have hmidEnd : chunkEnd r mid = mid := UInt64.toNat_inj.mp (by omega)
        rw [hmidEnd, collect_of_le (UInt64.le_refl mid), Option.map_some, List.append_nil,
          List.take_append_of_le_length (by omega), Region.take_between r hin]
      · -- both take the same piece
        have hsame : chunkEnd r mid = chunkEnd r stop := UInt64.toNat_inj.mp (by omega)
        have hforward := hstep.forward
        have hindex : mid.toNat - cursor.toNat - ((chunkEnd r stop).toNat - cursor.toNat) =
            mid.toNat - (chunkEnd r stop).toNat := by omega
        have hwhole : (r.between cursor (chunkEnd r stop)).take (mid.toNat - cursor.toNat) =
            r.between cursor (chunkEnd r stop) := List.take_of_length_le (by omega)
        rw [hsame, ih hrest, Option.map_some, List.take_append, hlength, hindex, hwhole]

theorem toNat_span {y x : UInt64} (hyx : y.toNat ≤ x.toNat) (hlast : x.toNat < lastAddress) :
    (x + 1 - y).toNat = x.toNat - y.toNat + 1 := by
  have hnext : (x + 1).toNat = x.toNat + 1 := toNat_add_length hlast
  rw [UInt64.toNat_sub_of_le _ _ (UInt64.le_iff_toNat_le.mpr (by omega)), hnext]
  omega

/-- A read up to an address of the region that is found at its start ends with the byte of that
region. -/
theorem exists_read_to {m : MemoryMap} {y x : UInt64} {r : Region} (found : m.find? y = some r)
    (hyx : y.toNat ≤ x.toNat) (hcontains : r.contains x) (hlast : x.toNat < lastAddress)
    (hlength : x.toNat - y.toNat + 1 < lengthLimit) :
    ∃ piece, m.read y (x + 1 - y) = .ok piece ∧ piece[x.toNat - y.toNat]? = r.byteAt? x := by
  have hnext : (x + 1).toNat = x.toNat + 1 := toNat_add_length hlast
  have hspan := toNat_span hyx hlast
  have hstop : y + (x + 1 - y) = x + 1 := by rw [UInt64.add_comm, UInt64.sub_add_cancel]
  have hstep : m.Step (x + 1) y r := step_of_find? (UInt64.lt_iff_toNat_lt.mpr (by omega)) found
  have hinside := (Region.contains_iff.mp hcontains).2
  have hend : chunkEnd r (x + 1) = x + 1 := by
    apply UInt64.toNat_inj.mp
    rw [toNat_chunkEnd]
    omega
  have hcollect : m.collect y (y + (x + 1 - y)) = some (r.between y (x + 1)) := by
    rw [hstop, hstep.collect_eq, hend, collect_of_le (UInt64.le_refl _), Option.map_some,
      List.append_nil]
  exact ⟨_, read_eq_ok_iff.mpr ⟨by omega, by omega, hcollect⟩,
    Region.getElem?_between hstep.inside (by omega) hyx (by omega)⟩

/-- A region that is found at one address of a request has the bytes that are found at the later
ones, as far as it goes. -/
def Settled (m : MemoryMap) (a length : UInt64) : Prop :=
  ∀ y x r, Requested a length y → Requested a length x → y.toNat ≤ x.toNat →
    m.find? y = some r → r.contains x → r.byteAt? x = m.byteAt? x

/-- Every part of a request is read as that part of the bytes. -/
def PartsAgree (m : MemoryMap) (a : UInt64) (bytes : List UInt8) : Prop :=
  ∀ p q : UInt64, p.toNat + q.toNat ≤ bytes.length →
    m.read (a + p) q = .ok ((bytes.drop p.toNat).take q.toNat)

/-- Bytes for a request are told apart by the addresses of the request. -/
theorem ext_requested {a length : UInt64} (hend : a.toNat + length.toNat ≤ lastAddress)
    {bytes others : List UInt8} (hbytes : bytes.length = length.toNat)
    (hothers : others.length = length.toNat)
    (h : ∀ x, Requested a length x → bytes[x.toNat - a.toNat]? = others[x.toNat - a.toNat]?) :
    bytes = others := by
  apply List.ext_getElem?
  intro i
  by_cases hi : i < length.toNat
  · have hx : (UInt64.ofNat (a.toNat + i)).toNat = a.toNat + i := by
      apply UInt64.toNat_ofNat_of_lt'
      unfold lastAddress at hend
      unfold UInt64.size
      omega
    have hbyte := h (UInt64.ofNat (a.toNat + i)) ⟨by omega, by omega⟩
    rwa [hx, Nat.add_sub_cancel_left] at hbyte
  · rw [List.getElem?_eq_none (by omega), List.getElem?_eq_none (by omega)]

section
variable {m : MemoryMap} {a length : UInt64} {bytes : List UInt8}
  (h : m.read a length = .ok bytes)
include h

theorem read_take {front : UInt64} (hfront : front.toNat ≤ length.toNat) :
    m.read a front = .ok (bytes.take front.toNat) := by
  obtain ⟨hend, hlength, hcollect⟩ := read_eq_ok_iff.mp h
  have hfrontEnd : a.toNat + front.toNat ≤ lastAddress := by omega
  have hmid : (a + front).toNat ≤ (a + length).toNat := by
    rw [toNat_add_length hfrontEnd, toNat_add_length hend]
    omega
  have hpart := collect_take hcollect hmid
  rw [toNat_add_length hfrontEnd, Nat.add_sub_cancel_left] at hpart
  exact read_eq_ok_iff.mpr ⟨hfrontEnd, by omega, hpart⟩

section
variable {p q : UInt64} (hpart : p.toNat + q.toNat ≤ length.toNat)
include hpart

theorem toNat_add_part : (a + p).toNat = a.toNat + p.toNat := by
  have hend := (read_eq_ok_iff.mp h).1
  exact toNat_add_length (by omega)

theorem requested_of_part {x : UInt64} (hx : Requested (a + p) q x) : Requested a length x := by
  have hp := toNat_add_part h hpart
  have hlow := hx.low
  have hhigh := hx.high
  exact ⟨by omega, by omega⟩

/-- A part of what can be read can be read. -/
theorem exists_read_part : ∃ part, m.read (a + p) q = .ok part ∧ part.length = q.toNat := by
  have hp := toNat_add_part h hpart
  obtain ⟨hend, hlength, hheld⟩ := exists_read_iff.mp ⟨bytes, h⟩
  obtain ⟨part, hread⟩ := exists_read_iff.mpr
    ⟨by omega, by omega, fun x hx => hheld x (requested_of_part h hpart hx)⟩
  exact ⟨part, hread, length_read hread⟩

theorem Settled.part (hs : m.Settled a length) : m.Settled (a + p) q := by
  intro y x r hy hx
  exact hs y x r (requested_of_part h hpart hy) (requested_of_part h hpart hx)

end

theorem Settled.byte_eq (hs : m.Settled a length) {x : UInt64} (hx : Requested a length x) :
    bytes[x.toNat - a.toNat]? = m.byteAt? x := by
  obtain ⟨y, r, hy, hyx, hfound, hcontains, hbyte⟩ := read_source h hx
  rw [hbyte, hs y x r hy hx hyx hfound hcontains]

theorem Settled.partsAgree (hs : m.Settled a length) : m.PartsAgree a bytes := by
  intro p q hpart
  rw [length_read h] at hpart
  have hp := toNat_add_part h hpart
  have hend := (read_eq_ok_iff.mp h).1
  obtain ⟨part, hread, hpartLength⟩ := exists_read_part h hpart
  have hbytes := length_read h
  rw [hread, Except.ok.injEq]
  apply ext_requested (a := a + p) (by omega) hpartLength
    (by rw [List.length_take, List.length_drop]; omega)
  intro x hx
  have hlow := hx.low
  have hhigh := hx.high
  have hindex : p.toNat + (x.toNat - (a + p).toNat) = x.toNat - a.toNat := by omega
  rw [(hs.part h hpart).byte_eq hread hx, List.getElem?_take_of_lt (by omega),
    List.getElem?_drop, hindex, hs.byte_eq h (requested_of_part h hpart hx)]

/-- As a part of its own, the piece between two addresses is read from the region that is found at
the first. -/
theorem PartsAgree.byte_eq (hparts : m.PartsAgree a bytes) {y x : UInt64} {r : Region}
    (hy : Requested a length y) (hx : Requested a length x) (hyx : y.toNat ≤ x.toNat)
    (found : m.find? y = some r) (hcontains : r.contains x) :
    bytes[x.toNat - a.toNat]? = r.byteAt? x := by
  obtain ⟨hend, hlength, -⟩ := read_eq_ok_iff.mp h
  have hbytes := length_read h
  have hlow := hy.low
  have hhigh := hx.high
  obtain ⟨piece, hpiece, hbyte⟩ := exists_read_to found hyx hcontains (by omega) (by omega)
  have hspan := toNat_span hyx (by omega)
  have hskip : (y - a).toNat = y.toNat - a.toNat :=
    UInt64.toNat_sub_of_le _ _ (UInt64.le_iff_toNat_le.mpr hlow)
  have hstart : a + (y - a) = y := by rw [UInt64.add_comm, UInt64.sub_add_cancel]
  have hread := hparts (y - a) (x + 1 - y) (by omega)
  rw [hstart, hpiece, Except.ok.injEq] at hread
  have hindex : (y - a).toNat + (x.toNat - y.toNat) = x.toNat - a.toNat := by omega
  rw [← hbyte, hread, List.getElem?_take_of_lt (by omega), List.getElem?_drop, hindex]

/-- All parts of a request agree with the whole exactly if it makes no difference from where a walk
comes to an address. -/
theorem settled_iff_partsAgree : m.Settled a length ↔ m.PartsAgree a bytes := by
  constructor
  · intro hs
    exact hs.partsAgree h
  · intro hparts y x r hy hx hyx found hcontains
    obtain ⟨q, hq⟩ := (m.exists_find?_iff x).mpr ⟨r, List.mem_of_find?_eq_some found, hcontains⟩
    have hqx : q.contains x := by simpa using List.find?_some hq
    rw [byteAt?, hq, Option.bind_some,
      ← hparts.byte_eq h hy hx hyx found hcontains,
      hparts.byte_eq h hx hx (Nat.le_refl _) hq hqx]

end

/-- Of two regions that hold an address, the one that was not found there was added later, and the
first does not reach back to where the other was found. -/
theorem find?_order {m : MemoryMap} {y x : UInt64} {r q : Region} (hr : m.find? y = some r)
    (hq : m.find? x = some q) (hcontains : r.contains x) (hne : r ≠ q) :
    ¬ q.contains y ∧ ∃ earlier later, m.regions = earlier ++ q :: later ∧ r ∈ later := by
  obtain ⟨-, earlier, later, hregions, hnone⟩ := List.find?_eq_some_iff_append.mp hq
  have hearlier : r ∉ earlier := fun hmem => by simpa [hcontains] using hnone r hmem
  refine ⟨?_, earlier, later, hregions, ?_⟩
  · intro hqy
    have hsplit : earlier ++ q :: later = (earlier ++ [q]) ++ later := by simp
    obtain ⟨first, hfirst⟩ : ∃ first, (earlier ++ [q]).find? (·.contains y) = some first := by
      rw [← Option.isSome_iff_exists, List.find?_isSome]
      exact ⟨q, by simp, hqy⟩
    rw [find?, hregions, hsplit, List.find?_append, hfirst, Option.some_or, Option.some.injEq] at hr
    have hmem := List.mem_of_find?_eq_some hfirst
    rw [hr, List.mem_append, List.mem_singleton] at hmem
    exact hmem.elim hearlier hne
  · have hmem := List.mem_of_find?_eq_some hr
    rw [hregions, List.mem_append, List.mem_cons] at hmem
    exact (hmem.resolve_left hearlier).resolve_left hne

/-- Where no region begins inside one that was added later, unless with the same bytes, requests are
settled. -/
theorem settled_of_agreesInside {m : MemoryMap} (h : m.regions.Pairwise Region.AgreesInside)
    {a length : UInt64} (hend : a.toNat + length.toNat ≤ lastAddress) : m.Settled a length := by
  intro y x r _ hx hyx hr hcontains
  have hlast : x.toNat < lastAddress := Nat.lt_of_lt_of_le hx.high hend
  obtain ⟨q, hq⟩ := (m.exists_find?_iff x).mpr ⟨r, List.mem_of_find?_eq_some hr, hcontains⟩
  have hry : r.contains y := by simpa using List.find?_some hr
  have hqx : q.contains x := by simpa using List.find?_some hq
  rw [byteAt?, hq, Option.bind_some]
  by_cases hne : r = q
  · rw [hne]
  · obtain ⟨hqy, earlier, later, hregions, hlater⟩ := find?_order hr hq hcontains hne
    have hbase : r.base < q.base := by
      rw [Region.contains_iff] at hry hqx hqy
      rw [UInt64.lt_iff_toNat_lt]
      omega
    rw [hregions, List.pairwise_append, List.pairwise_cons] at h
    exact (h.2.1.1 r hlater hbase x (Region.range_contains_iff.mpr ⟨hqx, hlast⟩)
      (Region.range_contains_iff.mpr ⟨hcontains, hlast⟩)).symm

/-- If a request can be read, then its front is read as the front of the bytes, and its back can be
read as well. Each byte comes from a region that was found at its address or on the way to it. All
parts are read as parts of the bytes if and only if the request is settled; then each byte is the
one of the first region that contains its address, and another settled read has the same byte for
that address. Requests are settled where no region begins inside one that was added later, unless
with the same bytes. -/
theorem read_splits (m : MemoryMap) (a front back : UInt64)
    (hlength : front.toNat + back.toNat < lengthLimit) (bytes : List UInt8)
    (h : m.read a (front + back) = .ok bytes) :
    m.read a front = .ok (bytes.take front.toNat) ∧
    (∃ rest, m.read (a + front) back = .ok rest ∧ rest.length = back.toNat) ∧
    (∀ x, Requested a (front + back) x → ∃ y r, Requested a (front + back) y ∧
      y.toNat ≤ x.toNat ∧ m.find? y = some r ∧ r.contains x ∧
      bytes[x.toNat - a.toNat]? = r.byteAt? x) ∧
    (m.Settled a (front + back) ↔ m.PartsAgree a bytes) ∧
    (m.Settled a (front + back) → m.read (a + front) back = .ok (bytes.drop front.toNat) ∧
      (∀ x, Requested a (front + back) x → bytes[x.toNat - a.toNat]? = m.byteAt? x) ∧
      ∀ b length others, m.Settled b length → m.read b length = .ok others →
        ∀ x, Requested a (front + back) x → Requested b length x →
          others[x.toNat - b.toNat]? = bytes[x.toNat - a.toNat]?) ∧
    (m.regions.Pairwise Region.AgreesInside → m.Settled a (front + back)) := by
  have hsum : (front + back).toNat = front.toNat + back.toNat := by
    apply toNat_add_length
    unfold lengthLimit at hlength
    unfold lastAddress
    omega
  have hback : front.toNat + back.toNat ≤ (front + back).toNat := Nat.le_of_eq hsum.symm
  have hbytes := length_read h
  refine ⟨read_take h (by omega), exists_read_part h hback, fun x hx => read_source h hx,
    settled_iff_partsAgree h, ?_,
    fun hregions => settled_of_agreesInside hregions (read_eq_ok_iff.mp h).1⟩
  intro hs
  refine ⟨?_, fun x hx => hs.byte_eq h hx, ?_⟩
  · rw [hs.partsAgree h front back (by omega), List.take_of_length_le]
    rw [List.length_drop]
    omega
  · intro b length others hothers hread x hx hx'
    rw [hothers.byte_eq hread hx', hs.byte_eq h hx]

theorem topOfMemory_read_splits : topOfMemory.regions.Pairwise Region.AgreesInside ∧
    topOfMemory.read 0xfffffffffffffff9 2 = .ok [2, 3] ∧
    topOfMemory.read 0xfffffffffffffffb 4 = .ok [4, 5, 6, 7] := by
  have hlimits : topOfMemory.regions.Pairwise fun r outer =>
      outer.base < r.base → outer.limit ≤ r.base := by decide
  have hregions := hlimits.imp Region.agreesInside_of_limit_le
  have h : topOfMemory.read 0xfffffffffffffff9 (2 + 4) = .ok [2, 3, 4, 5, 6, 7] :=
    read_eq_ok_iff.mpr ⟨by decide, by decide, collect_topOfMemory⟩
  obtain ⟨hfront, -, -, -, hback, hsettled⟩ :=
    read_splits topOfMemory 0xfffffffffffffff9 2 4 (by decide) _ h
  exact ⟨hregions, hfront, (hback (hsettled hregions)).1⟩

/-- A region, and one around it that was added later and has other bytes. -/
def patched : MemoryMap where
  regions := [⟨0x1002, [0xbb, 0xbb], none⟩, ⟨0x1000, [0xaa, 0xaa, 0xaa, 0xaa, 0xaa], none⟩]

/-- A read from before the inner region passes its bytes by; a read that starts there finds them. -/
theorem patched_parts_differ : ∃ bytes, patched.read 0x1001 (1 + 2) = .ok bytes ∧
    patched.read (0x1001 + 1) 2 ≠ .ok (bytes.drop (1 : UInt64).toNat) ∧
    bytes[1]? ≠ patched.byteAt? (0x1001 + 1) := by
  have hwhole : patched.read 0x1001 (1 + 2) = .ok [0xaa, 0xaa, 0xaa] := by
    refine read_eq_ok_iff.mpr ⟨by decide, by decide, ?_⟩
    rw [collect_of_find? (by decide) rfl (collect_of_le (by decide))]
    decide
  have hback : patched.read (0x1001 + 1) 2 = .ok [0xbb, 0xbb] := by
    refine read_eq_ok_iff.mpr ⟨by decide, by decide, ?_⟩
    rw [collect_of_find? (by decide) rfl (collect_of_le (by decide))]
    decide
  refine ⟨_, hwhole, ?_, by decide⟩
  rw [hback]
  simp

end MemoryMap

end FrameLens
