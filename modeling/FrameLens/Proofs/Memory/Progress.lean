import FrameLens.Proofs.Memory.Coverage

/-!
A read taken turn by turn, with the lengths of its pieces as differences of words. Every turn goes
forward and gets the whole of its piece, also where a region reaches past the last address; a read
therefore ends after at most as many turns as it asks for bytes, and an address without a region is
the only thing that can stop it on the way.
-/
namespace FrameLens.MemoryMap

/-- Where a read stands: the address that comes next, and the bytes up to there. -/
structure Standing where
  cursor : UInt64
  bytes : List UInt8

/-- What a turn of a read comes to. -/
inductive Turn where
  /-- nothing is left to be read -/
  | arrived
  /-- no region holds the cursor -/
  | lost
  /-- the region at the cursor does not have the piece that it is asked for -/
  | short (r : Region)
  | onward (r : Region) (next : Standing)

/-- A turn of a read that is to end at `stop`. The difference would wrap around if a piece ended
before the cursor. -/
def turn (m : MemoryMap) (stop : UInt64) (s : Standing) : Turn :=
  if s.cursor < stop then
    match m.find? s.cursor with
    | none => .lost
    | some r =>
      match r.slice? s.cursor (chunkEnd r stop - s.cursor).toNat with
      | none => .short r
      | some piece => .onward r ⟨chunkEnd r stop, s.bytes ++ piece⟩
  else .arrived

/-- Where a read from `start` to `stop` stands after so many turns. -/
inductive Reaches (m : MemoryMap) (start stop : UInt64) : Nat → Standing → Prop
  | start : Reaches m start stop 0 ⟨start, []⟩
  | onward {count : Nat} {s next : Standing} {r : Region} (reached : Reaches m start stop count s)
      (moves : m.turn stop s = .onward r next) : Reaches m start stop (count + 1) next

section
variable {m : MemoryMap} {stop : UInt64} {s : Standing}

theorem Step.toNat_sub {cursor : UInt64} {r : Region} (h : m.Step stop cursor r) :
    (chunkEnd r stop - cursor).toNat = (chunkEnd r stop).toNat - cursor.toNat :=
  UInt64.toNat_sub_of_le _ _ (UInt64.le_iff_toNat_le.mpr (Nat.le_of_lt h.forward))

theorem Step.slice? {cursor : UInt64} {r : Region} (h : m.Step stop cursor r) :
    r.slice? cursor (chunkEnd r stop - cursor).toNat =
      some (r.between cursor (chunkEnd r stop)) := by
  rw [h.toNat_sub, Region.slice?_eq_between h.inside h.le_end]

theorem turn_of_le (h : stop ≤ s.cursor) : m.turn stop s = .arrived :=
  if_neg (UInt64.not_lt.mpr h)

theorem turn_of_find?_none (before : s.cursor < stop) (lost : m.find? s.cursor = none) :
    m.turn stop s = .lost := by
  rw [turn, if_pos before, lost]

theorem Step.turn_eq {r : Region} (h : m.Step stop s.cursor r) :
    m.turn stop s =
      .onward r ⟨chunkEnd r stop, s.bytes ++ r.between s.cursor (chunkEnd r stop)⟩ := by
  rw [turn, if_pos h.before, h.found]
  simp only [h.slice?]

/-- A turn is a step unless the read is at its end or no region holds the cursor. -/
theorem turn_cases (m : MemoryMap) (stop : UInt64) (s : Standing) :
    (stop ≤ s.cursor ∧ m.turn stop s = .arrived) ∨
    (s.cursor < stop ∧ m.find? s.cursor = none ∧ m.turn stop s = .lost) ∨
    ∃ r, m.Step stop s.cursor r ∧
      m.turn stop s =
        .onward r ⟨chunkEnd r stop, s.bytes ++ r.between s.cursor (chunkEnd r stop)⟩ := by
  by_cases before : s.cursor < stop
  · cases found : m.find? s.cursor with
    | none => exact .inr (.inl ⟨before, rfl, turn_of_find?_none before found⟩)
    | some r =>
      have h := step_of_find? before found
      exact .inr (.inr ⟨r, h, h.turn_eq⟩)
  · have h := UInt64.not_lt.mp before
    exact .inl ⟨h, turn_of_le h⟩

theorem turn_ne_short (m : MemoryMap) (stop : UInt64) (s : Standing) (r : Region) :
    m.turn stop s ≠ .short r := by
  rcases turn_cases m stop s with ⟨-, h⟩ | ⟨-, -, h⟩ | ⟨q, -, h⟩ <;> simp [h]

theorem step_of_onward {r : Region} {next : Standing} (h : m.turn stop s = .onward r next) :
    m.Step stop s.cursor r ∧
      next = ⟨chunkEnd r stop, s.bytes ++ r.between s.cursor (chunkEnd r stop)⟩ := by
  rcases turn_cases m stop s with ⟨-, hturn⟩ | ⟨-, -, hturn⟩ | ⟨q, hstep, hturn⟩
  · simp [hturn] at h
  · simp [hturn] at h
  · rw [hturn, Turn.onward.injEq] at h
    obtain ⟨rfl, rfl⟩ := h
    exact ⟨hstep, rfl⟩

theorem le_of_arrived (h : m.turn stop s = .arrived) : stop ≤ s.cursor := by
  rcases turn_cases m stop s with ⟨hend, -⟩ | ⟨-, -, hturn⟩ | ⟨r, -, hturn⟩
  · exact hend
  · simp [hturn] at h
  · simp [hturn] at h

theorem find?_of_lost (h : m.turn stop s = .lost) :
    s.cursor < stop ∧ m.find? s.cursor = none := by
  rcases turn_cases m stop s with ⟨-, hturn⟩ | ⟨before, hnone, -⟩ | ⟨r, -, hturn⟩
  · simp [hturn] at h
  · exact ⟨before, hnone⟩
  · simp [hturn] at h

end

section
variable {m : MemoryMap} {start stop : UInt64} {count : Nat} {s : Standing}

theorem Reaches.le_stop (h : m.Reaches start stop count s) (hstart : start.toNat ≤ stop.toNat) :
    s.cursor.toNat ≤ stop.toNat := by
  cases h with
  | start => exact hstart
  | onward _ moves =>
    obtain ⟨hstep, rfl⟩ := step_of_onward moves
    exact hstep.le_stop

/-- The cursor is as far on as bytes were taken. -/
theorem Reaches.cursor_eq (h : m.Reaches start stop count s) :
    s.cursor.toNat = start.toNat + s.bytes.length := by
  induction h with
  | start => rfl
  | @onward count s next r _ moves ih =>
    obtain ⟨hstep, rfl⟩ := step_of_onward moves
    have hforward := hstep.forward
    show (chunkEnd r stop).toNat = _
    rw [List.length_append, Region.length_between hstep.inside hstep.le_end]
    omega

/-- Every turn takes one byte at least. -/
theorem Reaches.count_le (h : m.Reaches start stop count s) : count ≤ s.bytes.length := by
  induction h with
  | start => exact Nat.zero_le _
  | onward _ moves ih =>
    obtain ⟨hstep, rfl⟩ := step_of_onward moves
    have hforward := hstep.forward
    rw [List.length_append, Region.length_between hstep.inside hstep.le_end]
    omega

/-- The turns so far and the walk from where they lead are together the whole walk. -/
theorem Reaches.collect_eq (h : m.Reaches start stop count s) :
    m.collect start stop = (m.collect s.cursor stop).map (s.bytes ++ ·) := by
  induction h with
  | start => simp
  | onward _ moves ih =>
    obtain ⟨hstep, rfl⟩ := step_of_onward moves
    rw [ih, hstep.collect_eq, Option.map_map]
    congr 1
    funext rest
    exact (List.append_assoc _ _ _).symm

/-- From everywhere the turns come to an end. -/
theorem Reaches.finishes (h : m.Reaches start stop count s) :
    ∃ last final, m.Reaches start stop last final ∧
      (m.turn stop final = .arrived ∨ m.turn stop final = .lost) := by
  obtain ⟨cursor, bytes⟩ := s
  induction cursor using walk_induction m stop generalizing count bytes with
  | arrived cursor hend => exact ⟨count, _, h, .inl (turn_of_le hend)⟩
  | lost cursor before hnone => exact ⟨count, _, h, .inr (turn_of_find?_none before hnone)⟩
  | step cursor r hstep ih => exact ih _ (h.onward hstep.turn_eq)

end

/-- Wherever a read stands before its end and finds a region, the piece of that region ends behind
the cursor and not behind the request, its length is the difference of its ends, the region has all
of it, and the read goes on at its end; so no turn comes up short. After at most as many turns as
bytes are asked for the read is at its end and answers with what it took, or is at an address
without a region and fails. -/
theorem read_turns_advance (m : MemoryMap) (a length : UInt64)
    (hend : a.toNat + length.toNat ≤ lastAddress) (hlength : length.toNat < lengthLimit) :
    (∀ count s, m.Reaches a (a + length) count s →
      s.cursor.toNat = a.toNat + s.bytes.length ∧ s.cursor ≤ a + length ∧
      count ≤ s.bytes.length ∧
      m.collect a (a + length) = (m.collect s.cursor (a + length)).map (s.bytes ++ ·) ∧
      (∀ r, s.cursor < a + length → m.find? s.cursor = some r →
        s.cursor < chunkEnd r (a + length) ∧ chunkEnd r (a + length) ≤ a + length ∧
        (chunkEnd r (a + length) - s.cursor).toNat =
          (chunkEnd r (a + length)).toNat - s.cursor.toNat ∧
        ∃ piece, r.slice? s.cursor (chunkEnd r (a + length) - s.cursor).toNat = some piece ∧
          m.turn (a + length) s = .onward r ⟨chunkEnd r (a + length), s.bytes ++ piece⟩) ∧
      ∀ r, m.turn (a + length) s ≠ .short r) ∧
    ∃ count s, count ≤ length.toNat ∧ m.Reaches a (a + length) count s ∧
      ((m.turn (a + length) s = .arrived ∧ m.read a length = .ok s.bytes) ∨
        (m.turn (a + length) s = .lost ∧ m.find? s.cursor = none ∧
          m.read a length = .error (.unreadable a length))) := by
  have hstop := toNat_add_length hend
  have hstart : a.toNat ≤ (a + length).toNat := by omega
  constructor
  · intro count s h
    refine ⟨h.cursor_eq, UInt64.le_iff_toNat_le.mpr (h.le_stop hstart), h.count_le, h.collect_eq,
      ?_, turn_ne_short m _ s⟩
    intro r before found
    have hstep := step_of_find? before found
    exact ⟨UInt64.lt_iff_toNat_lt.mpr hstep.forward, chunkEnd_le r _, hstep.toNat_sub, _,
      hstep.slice?, hstep.turn_eq⟩
  · have hfirst : m.Reaches a (a + length) 0 ⟨a, []⟩ := .start
    obtain ⟨count, s, h, hturn⟩ := hfirst.finishes
    have hcount : count ≤ length.toNat := by
      have hcursor := h.cursor_eq
      have hwithin := h.le_stop hstart
      have hturns := h.count_le
      omega
    refine ⟨count, s, hcount, h, ?_⟩
    have hcollect := h.collect_eq
    rcases hturn with harrived | hlost
    · rw [collect_of_le (le_of_arrived harrived), Option.map_some, List.append_nil] at hcollect
      exact .inl ⟨harrived, read_eq_ok_iff.mpr ⟨hend, hlength, hcollect⟩⟩
    · obtain ⟨before, hnone⟩ := find?_of_lost hlost
      rw [collect_of_find?_none before hnone, Option.map_none] at hcollect
      refine .inr ⟨hlost, hnone, ?_⟩
      rw [read, if_neg (Nat.not_lt.mpr hend), if_neg (Nat.not_le.mpr hlength), hcollect]

/-- A read near the last address stands in front of its third piece after two turns. The region
there reaches past the last address and has the rest of the request. -/
theorem topOfMemory_third_turn :
    topOfMemory.Reaches 0xfffffffffffffff9 0xffffffffffffffff 2 ⟨0xfffffffffffffffc, [2, 3, 4]⟩ ∧
    (∃ r, topOfMemory.find? 0xfffffffffffffffc = some r ∧ lastAddress < r.base.toNat + r.size ∧
      0xfffffffffffffffc < chunkEnd r 0xffffffffffffffff ∧
      chunkEnd r 0xffffffffffffffff ≤ 0xffffffffffffffff) ∧
    ∃ count s, count ≤ 6 ∧
      topOfMemory.Reaches 0xfffffffffffffff9 0xffffffffffffffff count s ∧
      topOfMemory.turn 0xffffffffffffffff s = .arrived ∧
      topOfMemory.read 0xfffffffffffffff9 6 = .ok s.bytes := by
  obtain ⟨hturns, count, s, hcount, hreached, hends⟩ :=
    read_turns_advance topOfMemory 0xfffffffffffffff9 6 (by decide) (by decide)
  have hsecond : topOfMemory.Reaches 0xfffffffffffffff9 0xffffffffffffffff 2
      ⟨0xfffffffffffffffc, [2, 3, 4]⟩ := .onward (.onward .start rfl) rfl
  have hread : topOfMemory.read 0xfffffffffffffff9 6 = .ok [2, 3, 4, 5, 6, 7] :=
    read_eq_ok_iff.mpr ⟨by decide, by decide, collect_topOfMemory⟩
  obtain ⟨-, -, -, -, hpiece, -⟩ := hturns 2 _ hsecond
  obtain ⟨hforward, hwithin, -⟩ := hpiece _ (by decide) rfl
  refine ⟨hsecond, ⟨_, rfl, by decide, hforward, hwithin⟩, count, s, hcount, hreached, ?_⟩
  rcases hends with harrived | ⟨-, -, hfails⟩
  · exact harrived
  · simp [hread] at hfails

end FrameLens.MemoryMap
