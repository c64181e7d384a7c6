import FrameLens.Memory.Map
import FrameLens.Proofs.AddressRange
import Mathlib.Data.List.Pairwise

/-!
What captured memory can answer. A read goes from region to region; it comes to its end exactly if
every address on the way lies in some region, however the regions are ordered and wherever they
overlap.
-/
namespace FrameLens

namespace Region

theorem contains_iff {r : Region} {x : UInt64} :
    r.contains x ↔ r.base.toNat ≤ x.toNat ∧ x.toNat < r.base.toNat + r.size := by
  simp only [contains, Bool.and_eq_true, decide_eq_true_eq, UInt64.le_iff_toNat_le]
  omega

theorem toNat_limit (r : Region) : r.limit.toNat = min (r.base.toNat + r.size) lastAddress := by
  apply UInt64.toNat_ofNat_of_lt'
  unfold lastAddress UInt64.size
  omega

/-- A range cannot go past the last address, so it leaves that one out even where the region has a
byte for it. -/
theorem range_contains_iff {r : Region} {x : UInt64} :
    r.range.contains x ↔ r.contains x ∧ x.toNat < lastAddress := by
  have hlimit := r.toNat_limit
  rw [AddressRange.contains_iff, contains_iff]
  change r.base.toNat ≤ x.toNat ∧ x.toNat < r.limit.toNat ↔ _
  omega

/-- The byte that a region stores for an address. -/
def byteAt? (r : Region) (x : UInt64) : Option UInt8 :=
  if r.contains x then r.data[x.toNat - r.base.toNat]? else none

/-- The bytes of a region from one address to another. -/
def between (r : Region) (cursor stop : UInt64) : List UInt8 :=
  (r.data.drop (cursor.toNat - r.base.toNat)).take (stop.toNat - cursor.toNat)

section
variable {r : Region} {cursor stop : UInt64} (inside : r.contains cursor)
  (hstop : stop.toNat ≤ r.base.toNat + r.size)
include inside hstop

theorem length_between : (r.between cursor stop).length = stop.toNat - cursor.toNat := by
  have h := contains_iff.mp inside
  unfold size at h hstop
  rw [between, List.length_take, List.length_drop]
  omega

theorem slice?_eq_between :
    r.slice? cursor (stop.toNat - cursor.toNat) = some (r.between cursor stop) := by
  have h := contains_iff.mp inside
  have hcount : cursor.toNat - r.base.toNat + (stop.toNat - cursor.toNat) ≤ r.size := by omega
  exact if_pos ⟨inside, hcount⟩

variable {x : UInt64} (hlow : cursor.toNat ≤ x.toNat) (hhigh : x.toNat < stop.toNat)
include hlow hhigh

theorem contains_of_between : r.contains x := by
  rw [contains_iff] at inside ⊢
  omega

theorem getElem?_between : (r.between cursor stop)[x.toNat - cursor.toNat]? = r.byteAt? x := by
  have hcontains := contains_of_between inside hstop hlow hhigh
  have h := contains_iff.mp inside
  have hindex : cursor.toNat - r.base.toNat + (x.toNat - cursor.toNat) =
      x.toNat - r.base.toNat := by omega
  rw [byteAt?, if_pos hcontains, between, List.getElem?_take_of_lt (by omega),
    List.getElem?_drop, hindex]

end

end Region

namespace MemoryMap

theorem exists_find?_iff (m : MemoryMap) (x : UInt64) :
    (∃ r, m.find? x = some r) ↔ ∃ r ∈ m.regions, r.contains x := by
  rw [← Option.isSome_iff_exists, find?, List.find?_isSome]

/-- The end of the address space, where the end of a region is cut off, does not come before the end
of a request. -/
theorem toNat_chunkEnd (r : Region) (stop : UInt64) :
    (chunkEnd r stop).toNat = min stop.toNat (r.base.toNat + r.size) := by
  have hlast : stop.toNat ≤ lastAddress := Nat.le_of_lt_succ stop.toNat_lt
  have hlimit := r.toNat_limit
  unfold chunkEnd
  split
  · next h =>
    rw [UInt64.le_iff_toNat_le] at h
    omega
  · next h =>
    rw [UInt64.le_iff_toNat_le] at h
    omega

/-- A step of a read that is to end at `stop`: the region that is found at the cursor answers for
the addresses up to the end of the piece. -/
structure Step (m : MemoryMap) (stop cursor : UInt64) (r : Region) : Prop where
  before : cursor < stop
  found : m.find? cursor = some r
  mem : r ∈ m.regions
  inside : r.contains cursor
  forward : cursor.toNat < (chunkEnd r stop).toNat
  le_stop : (chunkEnd r stop).toNat ≤ stop.toNat
  le_end : (chunkEnd r stop).toNat ≤ r.base.toNat + r.size

theorem step_of_find? {m : MemoryMap} {stop cursor : UInt64} {r : Region} (before : cursor < stop)
    (found : m.find? cursor = some r) : m.Step stop cursor r := by
  have inside : r.contains cursor := by simpa using List.find?_some found
  refine ⟨before, found, List.mem_of_find?_eq_some found, inside,
    UInt64.lt_iff_toNat_lt.mp (lt_chunkEnd inside before), ?_, ?_⟩
  · rw [toNat_chunkEnd]
    exact Nat.min_le_left _ _
  · rw [toNat_chunkEnd]
    exact Nat.min_le_right _ _

section
variable {m : MemoryMap} {stop cursor : UInt64}

theorem collect_of_le (h : stop ≤ cursor) : m.collect cursor stop = some [] := by
  rw [collect, dif_neg (UInt64.not_lt.mpr h)]

theorem collect_of_find?_none (before : cursor < stop) (lost : m.find? cursor = none) :
    m.collect cursor stop = none := by
  rw [collect, dif_pos before]
  split
  · rfl
  · next r found => simp [lost] at found

/-- A step takes the whole piece from its region and goes on behind it. -/
theorem Step.collect_eq {r : Region} (h : m.Step stop cursor r) :
    m.collect cursor stop =
      (m.collect (chunkEnd r stop) stop).map (r.between cursor (chunkEnd r stop) ++ ·) := by
  have hslice := Region.slice?_eq_between h.inside h.le_end
  rw [collect, dif_pos h.before]
  split
  · next lost => simp [h.found] at lost
  · next q hq =>
    obtain rfl : r = q := by simpa [h.found] using hq
    simp [hslice]

theorem collect_of_find? {r : Region} {rest : List UInt8} (before : cursor < stop)
    (found : m.find? cursor = some r) (hrest : m.collect (chunkEnd r stop) stop = some rest) :
    m.collect cursor stop = some (r.between cursor (chunkEnd r stop) ++ rest) := by
  rw [(step_of_find? before found).collect_eq, hrest, Option.map_some]

end

/-- What holds behind the end of a request and where no region is found, and at the start of every
step if it holds at its end, holds at every address. -/
theorem walk_induction (m : MemoryMap) (stop : UInt64) {motive : UInt64 → Prop}
    (arrived : ∀ cursor, stop ≤ cursor → motive cursor)
    (lost : ∀ cursor, cursor < stop → m.find? cursor = none → motive cursor)
    (step : ∀ cursor r, m.Step stop cursor r → motive (chunkEnd r stop) → motive cursor)
    (cursor : UInt64) : motive cursor := by
  induction hn : stop.toNat - cursor.toNat using Nat.strongRecOn generalizing cursor with
  | ind n ih =>
    subst hn
    by_cases before : cursor < stop
    · cases found : m.find? cursor with
      | none => exact lost cursor before found
      | some r =>
        exact step cursor r (step_of_find? before found)
          (ih _ (chunkEnd_forward found before) _ rfl)
    · exact arrived cursor (UInt64.not_lt.mp before)

/-- A read gets through exactly if some region holds each address that it passes. -/
theorem exists_collect_iff (m : MemoryMap) (cursor stop : UInt64) :
    (∃ bytes, m.collect cursor stop = some bytes) ↔
      ∀ x : UInt64, cursor.toNat ≤ x.toNat → x.toNat < stop.toNat →
        ∃ r ∈ m.regions, r.contains x := by
  induction cursor using walk_induction m stop with
  | arrived cursor h =>
    refine iff_of_true ⟨[], collect_of_le h⟩ ?_
    intro x hlow hhigh
    rw [UInt64.le_iff_toNat_le] at h
    omega
  | lost cursor before hnone =>
    refine iff_of_false (by simp [collect_of_find?_none before hnone]) ?_
    intro hall
    have hheld := hall cursor (Nat.le_refl _) (UInt64.lt_iff_toNat_lt.mp before)
    obtain ⟨r, hr⟩ := (m.exists_find?_iff cursor).mpr hheld
    simp [hnone] at hr
  | step cursor r h ih =>
    have hrest : (∃ bytes, m.collect cursor stop = some bytes) ↔
        ∃ bytes, m.collect (chunkEnd r stop) stop = some bytes := by
      rw [← Option.isSome_iff_exists, ← Option.isSome_iff_exists, h.collect_eq, Option.isSome_map]
    rw [hrest, ih]
    constructor
    · intro hall x hlow hhigh
      by_cases hx : x.toNat < (chunkEnd r stop).toNat
      · exact ⟨r, h.mem, Region.contains_of_between h.inside h.le_end hlow hx⟩
      · exact hall x (Nat.le_of_not_lt hx) hhigh
    · intro hall x hlow
      exact hall x (Nat.le_trans (Nat.le_of_lt h.forward) hlow)

theorem length_collect {m : MemoryMap} {cursor stop : UInt64} {bytes : List UInt8}
    (h : m.collect cursor stop = some bytes) : bytes.length = stop.toNat - cursor.toNat := by
  induction cursor using walk_induction m stop generalizing bytes with
  | arrived cursor hend =>
    obtain rfl : [] = bytes := by simpa [collect_of_le hend] using h
    rw [UInt64.le_iff_toNat_le] at hend
    exact (Nat.sub_eq_zero_of_le hend).symm
  | lost cursor before hnone => simp [collect_of_find?_none before hnone] at h
  | step cursor r hstep ih =>
    rw [hstep.collect_eq] at h
    obtain ⟨rest, hrest, rfl⟩ := Option.map_eq_some_iff.mp h
    have hforward := hstep.forward
    have hstop := hstep.le_stop
    rw [List.length_append, ih hrest, Region.length_between hstep.inside hstep.le_end]
    omega

/-- Every byte of a read comes from a region that was found on the way, at the address of the byte
or before it. -/
theorem exists_source {m : MemoryMap} {cursor stop : UInt64} {bytes : List UInt8}
    (h : m.collect cursor stop = some bytes) {x : UInt64} (hlow : cursor.toNat ≤ x.toNat)
    (hhigh : x.toNat < stop.toNat) :
    ∃ y r, cursor.toNat ≤ y.toNat ∧ y.toNat ≤ x.toNat ∧ m.find? y = some r ∧ r.contains x ∧
      bytes[x.toNat - cursor.toNat]? = r.byteAt? x := by
  induction cursor using walk_induction m stop generalizing bytes with
  | arrived cursor hend =>
    rw [UInt64.le_iff_toNat_le] at hend
    omega
  | lost cursor before hnone => simp [collect_of_find?_none before hnone] at h
  | step cursor r hstep ih =>
    rw [hstep.collect_eq] at h
    obtain ⟨rest, hrest, rfl⟩ := Option.map_eq_some_iff.mp h
    have hlength := Region.length_between hstep.inside hstep.le_end
    by_cases hx : x.toNat < (chunkEnd r stop).toNat
    · refine ⟨cursor, r, Nat.le_refl _, hlow, hstep.found,
        Region.contains_of_between hstep.inside hstep.le_end hlow hx, ?_⟩
      rw [List.getElem?_append_left (by omega)]
      exact Region.getElem?_between hstep.inside hstep.le_end hlow hx
    · have hforward := hstep.forward
      obtain ⟨y, q, hy, hyx, hq, hcontains, hbyte⟩ := ih hrest (Nat.le_of_not_lt hx)
      refine ⟨y, q, by omega, hyx, hq, hcontains, ?_⟩
      have hindex : x.toNat - cursor.toNat - ((chunkEnd r stop).toNat - cursor.toNat) =
          x.toNat - (chunkEnd r stop).toNat := by omega
      rw [List.getElem?_append_right (by omega), hlength, hindex, hbyte]

/-- The addresses that a request for so many bytes asks for. -/
structure Requested (a length x : UInt64) : Prop where
  low : a.toNat ≤ x.toNat
  high : x.toNat < a.toNat + length.toNat

theorem toNat_add_length {a length : UInt64} (h : a.toNat + length.toNat ≤ lastAddress) :
    (a + length).toNat = a.toNat + length.toNat := by
  rw [UInt64.toNat_add]
  apply Nat.mod_eq_of_lt
  unfold lastAddress at h
  omega

theorem read_eq_ok_iff {m : MemoryMap} {a length : UInt64} {bytes : List UInt8} :
    m.read a length = .ok bytes ↔ a.toNat + length.toNat ≤ lastAddress ∧
      length.toNat < lengthLimit ∧ m.collect a (a + length) = some bytes := by
  unfold read
  by_cases hend : a.toNat + length.toNat > lastAddress
  · simp only [if_pos hend, reduceCtorEq, false_iff]
    omega
  · rw [if_neg hend, and_iff_right (Nat.not_lt.mp hend)]
    by_cases hlength : length.toNat ≥ lengthLimit
    · simp only [if_pos hlength, reduceCtorEq, false_iff]
      omega
    · rw [if_neg hlength, and_iff_right (Nat.lt_of_not_le hlength)]
      cases m.collect a (a + length) <;> simp

theorem exists_read_iff {m : MemoryMap} {a length : UInt64} :
    (∃ bytes, m.read a length = .ok bytes) ↔ a.toNat + length.toNat ≤ lastAddress ∧
      length.toNat < lengthLimit ∧ ∀ x, Requested a length x → ∃ r ∈ m.regions, r.contains x := by
  simp only [read_eq_ok_iff, exists_and_left, exists_collect_iff]
  apply and_congr_right
  intro hend
  rw [toNat_add_length hend]
  exact and_congr_right fun _ =>
    ⟨fun h x hx => h x hx.low hx.high, fun h x hlow hhigh => h x ⟨hlow, hhigh⟩⟩

section
variable {m : MemoryMap} {a length : UInt64} {bytes : List UInt8}
  (h : m.read a length = .ok bytes)
include h

theorem length_read : bytes.length = length.toNat := by
  obtain ⟨hend, -, hcollect⟩ := read_eq_ok_iff.mp h
  rw [length_collect hcollect, toNat_add_length hend, Nat.add_sub_cancel_left]

theorem read_source {x : UInt64} (hx : Requested a length x) :
    ∃ y r, Requested a length y ∧ y.toNat ≤ x.toNat ∧ m.find? y = some r ∧ r.contains x ∧
      bytes[x.toNat - a.toNat]? = r.byteAt? x := by
  obtain ⟨hend, -, hcollect⟩ := read_eq_ok_iff.mp h
  have hhigh : x.toNat < (a + length).toNat := by
    rw [toNat_add_length hend]
    exact hx.high
  obtain ⟨y, r, hy, hyx, hfound⟩ := exists_source hcollect hx.low hhigh
  exact ⟨y, r, ⟨hy, Nat.lt_of_le_of_lt hyx hx.high⟩, hyx, hfound⟩

end

section
variable {r : Region} {a length : UInt64} (hpos : 0 < length.toNat)
  (hlength : length.toNat < lengthLimit)
include hpos hlength

/-- A single region answers each request for bytes that it has. -/
theorem read_within (hlow : r.base.toNat ≤ a.toNat)
    (hdata : a.toNat + length.toNat ≤ r.base.toNat + r.size)
    (hend : a.toNat + length.toNat ≤ lastAddress) :
    (MemoryMap.mk [r]).read a length =
      .ok ((r.data.drop (a.toNat - r.base.toNat)).take length.toNat) := by
  have hstop := toNat_add_length hend
  have before : a < a + length := UInt64.lt_iff_toNat_lt.mpr (by omega)
  have inside : r.contains a := Region.contains_iff.mpr (by omega)
  have found : (MemoryMap.mk [r]).find? a = some r := by simp [find?, inside]
  have hchunk : chunkEnd r (a + length) = a + length := by
    apply UInt64.toNat_inj.mp
    rw [toNat_chunkEnd]
    omega
  have hcollect := collect_of_find? before found (collect_of_le (by
    rw [hchunk]
    exact UInt64.le_refl _))
  rw [hchunk, Region.between, hstop, Nat.add_sub_cancel_left, List.append_nil] at hcollect
  exact read_eq_ok_iff.mpr ⟨hend, hlength, hcollect⟩

theorem exists_read_within_iff :
    (∃ bytes, (MemoryMap.mk [r]).read a length = .ok bytes) ↔ r.base.toNat ≤ a.toNat ∧
      a.toNat + length.toNat ≤ r.base.toNat + r.size ∧ a.toNat + length.toNat ≤ lastAddress := by
  constructor
  · intro h
    obtain ⟨hend, -, hall⟩ := exists_read_iff.mp h
    have hstop := toNat_add_length hend
    have hlast : (a + length - 1).toNat = a.toNat + length.toNat - 1 := by
      rw [UInt64.toNat_sub_of_le _ _ (UInt64.le_iff_toNat_le.mpr (by rw [UInt64.toNat_one]; omega)),
        hstop, UInt64.toNat_one]
    -- the region holds the first and the last byte
    obtain ⟨q, hq, hfirst⟩ := hall a ⟨by omega, by omega⟩
    obtain ⟨p, hp, hfinal⟩ := hall (a + length - 1) ⟨by omega, by omega⟩
    obtain rfl := List.mem_singleton.mp hq
    obtain rfl := List.mem_singleton.mp hp
    rw [Region.contains_iff] at hfirst hfinal
    omega
  · rintro ⟨hlow, hdata, hend⟩
    exact ⟨_, read_within hpos hlength hlow hdata hend⟩

end

/-- A single region answers a request at its start as far as its data go. -/
theorem read_region {r : Region} {length : UInt64} (hpos : 0 < length.toNat)
    (hdata : length.toNat ≤ r.size) (hend : r.base.toNat + length.toNat ≤ lastAddress)
    (hlength : length.toNat < lengthLimit) :
    (MemoryMap.mk [r]).read r.base length = .ok (r.data.take length.toNat) := by
  have hread := read_within hpos hlength (Nat.le_refl r.base.toNat) (by omega) hend
  rwa [Nat.sub_self, List.drop_zero] at hread

theorem eq_of_disjoint {m : MemoryMap}
    (hd : m.regions.Pairwise fun r q => r.range.Disjoint q.range) {r q : Region}
    (hr : r ∈ m.regions) (hq : q ∈ m.regions) {x : UInt64} (hx : x.toNat < lastAddress)
    (hrx : r.contains x) (hqx : q.contains x) : r = q := by
  have : Std.Symm fun r q : Region => r.range.Disjoint q.range :=
    ⟨fun _ _ => AddressRange.Disjoint.symm⟩
  by_contra hne
  exact hd.forall hr hq hne x
    ⟨Region.range_contains_iff.mpr ⟨hrx, hx⟩, Region.range_contains_iff.mpr ⟨hqx, hx⟩⟩

/-- Memory can be read exactly where the request ends inside the address space and regions hold all
of its addresses. Then each address has its byte, from a region that holds it; where no two regions
meet there is one such region. A failure names the request as it was made. -/
theorem read_succeeds_iff_covered (m : MemoryMap) (a length : UInt64)
    (hlength : length.toNat < lengthLimit) :
    ((∃ bytes, m.read a length = .ok bytes) ↔ a.toNat + length.toNat ≤ lastAddress ∧
      ∀ x, Requested a length x → ∃ r ∈ m.regions, r.contains x) ∧
    (∀ bytes, m.read a length = .ok bytes → bytes.length = length.toNat ∧
      (∀ x, Requested a length x →
        ∃ r ∈ m.regions, r.contains x ∧ bytes[x.toNat - a.toNat]? = r.byteAt? x) ∧
      (m.regions.Pairwise (fun r q => r.range.Disjoint q.range) →
        ∀ x, Requested a length x → ∀ r ∈ m.regions, r.contains x →
          bytes[x.toNat - a.toNat]? = r.byteAt? x)) ∧
    ∀ e, m.read a length = .error e → e = .unreadable a length := by
  refine ⟨by rw [exists_read_iff, and_iff_right hlength], ?_, ?_⟩
  · intro bytes h
    have hsource (x : UInt64) (hx : Requested a length x) :
        ∃ r ∈ m.regions, r.contains x ∧ bytes[x.toNat - a.toNat]? = r.byteAt? x := by
      obtain ⟨y, r, -, -, hfound, hcontains, hbyte⟩ := read_source h hx
      exact ⟨r, List.mem_of_find?_eq_some hfound, hcontains, hbyte⟩
    refine ⟨length_read h, hsource, ?_⟩
    intro hd x hx r hr hrx
    obtain ⟨q, hq, hqx, hbyte⟩ := hsource x hx
    have hlast : x.toNat < lastAddress := Nat.lt_of_lt_of_le hx.high (read_eq_ok_iff.mp h).1
    rw [hbyte, eq_of_disjoint hd hq hr hlast hqx hrx]
  · intro e he
    unfold read at he
    rw [if_neg (Nat.not_le.mpr hlength)] at he
    split at he
    · exact (Except.error.inj he).symm
    · cases hc : m.collect a (a + length) with
      | none =>
        rw [hc] at he
        exact (Except.error.inj he).symm
      | some bytes => simp [hc] at he

/-- Two regions that adjoin, the later one added first, and a third behind them that goes on past
the last address. -/
def topOfMemory : MemoryMap where
  regions := [⟨0xfffffffffffffffa, [3, 4], none⟩, ⟨0xfffffffffffffff8, [1, 2], none⟩,
    ⟨0xfffffffffffffffc, [5, 6, 7, 8, 9], none⟩]

theorem collect_topOfMemory :
    topOfMemory.collect 0xfffffffffffffff9 0xffffffffffffffff = some [2, 3, 4, 5, 6, 7] := by
  rw [collect_of_find? (by decide) rfl (collect_of_find? (by decide) rfl
    (collect_of_find? (by decide) rfl (collect_of_le (by decide))))]
  decide

theorem topOfMemory_read : topOfMemory.read 0xfffffffffffffff9 6 = .ok [2, 3, 4, 5, 6, 7] ∧
    (∀ x, Requested 0xfffffffffffffff9 6 x → ∃ r ∈ topOfMemory.regions, r.contains x) ∧
    ∃ r ∈ topOfMemory.regions, r.contains 0xfffffffffffffffb ∧
      r.byteAt? 0xfffffffffffffffb = some 4 := by
  have h : topOfMemory.read 0xfffffffffffffff9 6 = .ok [2, 3, 4, 5, 6, 7] :=
    read_eq_ok_iff.mpr ⟨by decide, by decide, collect_topOfMemory⟩
  obtain ⟨hok, hbytes, -⟩ := read_succeeds_iff_covered topOfMemory 0xfffffffffffffff9 6 (by decide)
  obtain ⟨r, hr, hcontains, hbyte⟩ :=
    (hbytes _ h).2.1 0xfffffffffffffffb ⟨by decide, by decide⟩
  exact ⟨h, (hok.mp ⟨_, h⟩).2, r, hr, hcontains, hbyte.symm⟩

theorem requested_one_iff {a x : UInt64} : Requested a 1 x ↔ x = a := by
  constructor
  · intro hx
    have hlow := hx.low
    have hhigh := hx.high
    rw [UInt64.toNat_one] at hhigh
    exact UInt64.toNat_inj.mp (by omega)
  · rintro rfl
    exact ⟨Nat.le_refl _, Nat.lt_succ_self _⟩

/-- A single byte can be read where a region holds its address, unless that is the last address. -/
theorem exists_read_one_iff (m : MemoryMap) (a : UInt64) :
    (∃ bytes, m.read a 1 = .ok bytes) ↔
      a.toNat < lastAddress ∧ ∃ r ∈ m.regions, r.contains a := by
  have hlength : (1 : UInt64).toNat < lengthLimit := by decide
  rw [exists_read_iff, and_iff_right hlength]
  simp only [requested_one_iff, forall_eq, UInt64.toNat_one, Nat.succ_le_iff]

/-- Before the last address it is all the same whether one looks for a region, at the ranges of the
regions, or tries to read. The last address is in no range and cannot be read, but it has a region
if one reaches that far. -/
theorem coverage_views_agree (m : MemoryMap) (a : UInt64) :
    (a.toNat < lastAddress →
      ((∃ r, m.find? a = some r) ↔ ∃ r ∈ m.regions, r.range.contains a) ∧
      ((∃ r ∈ m.regions, r.range.contains a) ↔ ∃ bytes, m.read a 1 = .ok bytes) ∧
      ∀ r : Region, r.contains a ↔ r.range.contains a) ∧
    (a.toNat = lastAddress →
      ((∃ r, m.find? a = some r) ↔ ∃ r ∈ m.regions, lastAddress < r.base.toNat + r.size) ∧
      (∀ r : Region, ¬ r.range.contains a) ∧ m.read a 1 = .error (.unreadable a 1)) := by
  refine ⟨?_, ?_⟩
  · intro ha
    have hrange (r : Region) : r.contains a ↔ r.range.contains a := by
      rw [Region.range_contains_iff, and_iff_left ha]
    simp only [exists_find?_iff, exists_read_one_iff, ← hrange, and_iff_right ha, implies_true,
      and_self]
  · intro ha
    have hreach (r : Region) : r.contains a ↔ lastAddress < r.base.toNat + r.size := by
      have hbase : r.base.toNat ≤ lastAddress := Nat.le_of_lt_succ r.base.toNat_lt
      rw [Region.contains_iff]
      omega
    refine ⟨by simp only [exists_find?_iff, hreach], ?_, ?_⟩
    · intro r
      rw [Region.range_contains_iff, ha]
      exact fun h => Nat.lt_irrefl _ h.2
    · have hend : a.toNat + (1 : UInt64).toNat > lastAddress := ha ▸ Nat.lt_succ_self _
      rw [read, if_pos hend]

theorem topOfMemory_views :
    (∃ r, topOfMemory.find? 0xfffffffffffffffe = some r) ∧
    (∃ r ∈ topOfMemory.regions, r.range.contains 0xfffffffffffffffe) ∧
    ∃ bytes, topOfMemory.read 0xfffffffffffffffe 1 = .ok bytes := by
  obtain ⟨hbefore, -⟩ := coverage_views_agree topOfMemory 0xfffffffffffffffe
  obtain ⟨hfind, hread, -⟩ := hbefore (by decide)
  have hranges : ∃ r ∈ topOfMemory.regions, r.range.contains 0xfffffffffffffffe := by decide
  exact ⟨hfind.mpr hranges, hranges, hread.mp hranges⟩

/-- The last address is found in a region, is in no range and cannot be read. -/
theorem last_address_views_differ :
    (∃ r ∈ topOfMemory.regions, topOfMemory.find? 0xffffffffffffffff = some r ∧
      r.contains 0xffffffffffffffff ∧ ¬ r.range.contains 0xffffffffffffffff) ∧
    (¬ ∃ r ∈ topOfMemory.regions, r.range.contains 0xffffffffffffffff) ∧
    ∀ bytes, topOfMemory.read 0xffffffffffffffff 1 ≠ .ok bytes := by
  refine ⟨by decide, by decide, ?_⟩
  have hfails : topOfMemory.read 0xffffffffffffffff 1 =
      .error (.unreadable 0xffffffffffffffff 1) := rfl
  simp [hfails]

end MemoryMap

end FrameLens
