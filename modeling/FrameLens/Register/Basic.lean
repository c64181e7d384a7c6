/-!
Machine registers by number, and the values captured from them at a stop.
-/
namespace FrameLens

/-- A register, by its number in the numbering of the target. -/
structure Register where
  number : UInt16
  deriving DecidableEq, Repr

/-- Captured register values in the order of their numbers. A register that was not captured has no
entry. -/
structure Registers where
  entries : List (Register × UInt64)
  deriving DecidableEq, Repr

namespace Registers

def empty : Registers := ⟨[]⟩

/-- Puts a value in its place among entries ordered by number. -/
def insertEntry (r : Register) (value : UInt64) :
    List (Register × UInt64) → List (Register × UInt64)
  | [] => [(r, value)]
  | (s, old) :: rest =>
    if r = s then (r, value) :: rest
    else if r.number < s.number then (r, value) :: (s, old) :: rest
    else (s, old) :: insertEntry r value rest

def set (registers : Registers) (r : Register) (value : UInt64) : Registers :=
  ⟨insertEntry r value registers.entries⟩

/-- Sets several registers in turn, so a later value of the same register wins. -/
def update (registers : Registers) (values : List (Register × UInt64)) : Registers :=
  values.foldl (fun rs entry => rs.set entry.1 entry.2) registers

def get? (registers : Registers) (r : Register) : Option UInt64 :=
  (registers.entries.find? fun entry => entry.1 = r).map Prod.snd

theorem find?_insertEntry (r s : Register) (value : UInt64) (entries : List (Register × UInt64)) :
    ((insertEntry r value entries).find? fun entry => entry.1 = s).map Prod.snd =
      if r = s then some value else (entries.find? fun entry => entry.1 = s).map Prod.snd := by
  induction entries with
  | nil => by_cases h : r = s <;> simp [insertEntry, h]
  | cons entry rest ih =>
    obtain ⟨t, old⟩ := entry
    by_cases same : r = t
    · subst same
      by_cases h : r = s <;> simp [insertEntry, h]
    · by_cases before : r.number < t.number
      · simp only [insertEntry, same, before, ↓reduceIte]
        by_cases h : r = s <;> simp [h]
      · by_cases h : t = s
        · subst h
          simp [insertEntry, same, before]
        · simpa [insertEntry, same, before, h] using ih

/-- A register that was set holds the value, and the others hold what they did. -/
@[simp] theorem get?_set (registers : Registers) (r s : Register) (value : UInt64) :
    (registers.set r value).get? s = if r = s then some value else registers.get? s :=
  find?_insertEntry r s value registers.entries

def count (registers : Registers) : Nat := registers.entries.length

def isEmpty (registers : Registers) : Bool := registers.entries.isEmpty

end Registers
end FrameLens
