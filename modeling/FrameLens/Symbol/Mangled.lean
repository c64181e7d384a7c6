import FrameLens.Symbol.Text

/-!
Reading of mangled symbols: plain and nested names, the types made of them, references to what was
named before, and marks of copies. Templates, operators and local names are not read.
-/
namespace FrameLens.Symbol

/-- What is still to be read, and what can be referred to by number, oldest first. -/
structure State where
  input : List Char
  known : List Entity

abbrev Scanner := StateT State Option

namespace Scanner

def input : Scanner (List Char) := do return (← get).input

def setInput (rest : List Char) : Scanner Unit := modify fun s => { s with input := rest }

def remember (e : Entity) : Scanner Entity := do
  modify fun s => { s with known := s.known ++ [e] }
  return e

def lookUp (index : Nat) : Scanner Entity := do
  match (← get).known[index]? with
  | some e => return e
  | none => failure

/-- Takes the character if it comes next. -/
def optional (c : Char) : Scanner Bool := do
  match ← input with
  | d :: rest => if c = d then do setInput rest; return true else return false
  | [] => return false

/-- Takes the characters of a class that come next. -/
def takeWhile (p : Char → Bool) : Scanner (List Char) := do
  let cs ← input
  setInput (cs.dropWhile p)
  return cs.takeWhile p

end Scanner

open Scanner

/-- The value of digits in a base, where letters come after the figures. -/
def digitsValue (base : Nat) (digits : List Char) : Nat :=
  digits.foldl
    (fun n c => n * base + if c.isDigit then c.toNat - '0'.toNat else c.toNat - 'A'.toNat + 10) 0

def isIdentifierChar (c : Char) : Bool := c.isAlphanum || c = '_'

/-- A positive number without leading zeros. -/
def length : Scanner Nat := do
  let digits ← takeWhile Char.isDigit
  match digits with
  | [] => failure
  | '0' :: _ => failure
  | _ => return digitsValue 10 digits

/-- A name after its length. -/
def sourceName : Scanner String := do
  let count ← length
  let cs ← input
  let name := cs.take count
  if name.length = count ∧ name.all isIdentifierChar then
    setInput (cs.drop count)
    return String.ofList name
  else failure

/-- What follows `S` in a reference: nothing for the first, else a number in base 36. -/
def reference : Scanner Entity := do
  let digits ← takeWhile fun c => c.isDigit || c.isUpper
  if ← optional '_' then
    match digits with
    | [] => lookUp 0
    | '0' :: _ :: _ => failure
    | _ => lookUp (digitsValue 36 digits + 1)
  else failure

/-- How deep types may stand in each other, the innermost included. -/
def typeNesting : Nat := 90

/-- The room below a type that the parts of its name need. -/
def partRoom : Nat := 6

/-- A part that may stand anywhere in a nested name. -/
def part (room : Nat) : Scanner Part := do
  if room < partRoom then failure
  match ← input with
  | 'C' :: '1' :: rest | 'C' :: '2' :: rest => setInput rest; return .constructor
  | 'D' :: '0' :: rest | 'D' :: '1' :: rest | 'D' :: '2' :: rest =>
    setInput rest; return .destructor
  | _ => return .source (← sourceName)

/-- The first part of a nested name, and whether it still has to get a number. -/
def firstPart (room : Nat) : Scanner (Entity × Bool) := do
  match ← input with
  | 'S' :: 't' :: rest => setInput rest; return (.std, false)
  | 'S' :: 's' :: rest => setInput rest; return (.stdString, false)
  | 'S' :: rest => setInput rest; return (← reference, false)
  | _ => return (.single (← part room), true)

/-- The parts up to the closing `E`. Each part that another one follows gets a number, unless it has
one or needs none. What stands alone has to be a name. There are no more parts than characters,
which bounds `left`. -/
def moreParts (room : Nat) : (left : Nat) → Entity → Bool → Scanner Entity
  | 0, _, _ => failure
  | left + 1, entity, fresh => do
    if ← optional 'E' then
      if entity.isName then return entity else failure
    else
      if fresh then let _ ← remember entity
      moreParts room left (.member entity (← part room)) true

/-- A nested name after its `N` and qualifiers, with room for that many types below. -/
def nestedName (room : Nat) : Scanner Entity := do
  let (first, fresh) ← firstPart room
  moreParts room ((← input).length + 1) first fresh

/-- Qualifiers stand in the order `V`, `K`. -/
def qualifiers : Scanner (Bool × Bool) := do
  let volatile ← optional 'V'
  let const ← optional 'K'
  return (volatile, const)

def builtinName? : Char → Option String
  | 'v' => some "void"
  | 'w' => some "wchar_t"
  | 'b' => some "bool"
  | 'c' => some "char"
  | 'a' => some "signed char"
  | 'h' => some "unsigned char"
  | 's' => some "short"
  | 't' => some "unsigned short"
  | 'i' => some "int"
  | 'j' => some "unsigned int"
  | 'l' => some "long"
  | 'm' => some "unsigned long"
  | 'x' => some "long long"
  | 'y' => some "unsigned long long"
  | 'n' => some "__int128"
  | 'o' => some "unsigned __int128"
  | 'f' => some "float"
  | 'd' => some "double"
  | 'e' => some "long double"
  | 'g' => some "__float128"
  | 'z' => some "..."
  | _ => none

/-- Built-in types with two letters, the first of them `D`. -/
def wideBuiltinName? : Char → Option String
  | 'i' => some "char32_t"
  | 's' => some "char16_t"
  | 'n' => some "std::nullptr_t"
  | _ => none

/-- The room that a type needs below it, by its first letter, to be read at all. Kinds of types that
are told apart late need more of it. -/
def roomBelow : List Char → Nat
  | 'P' :: _ | 'R' :: _ | 'O' :: _ | 'S' :: _ | 'N' :: _ => 5
  | c :: _ => if c.isDigit then 4 else 0
  | [] => 0

/-- A type with `left` types at most in each other, itself included. Composed types and named ones
get a number once they are complete. -/
def type : (left : Nat) → Scanner Entity
  | 0 => failure
  | left + 1 => do
    let cs ← input
    if left < roomBelow cs then failure
    match cs with
    | 'P' :: rest => setInput rest; remember (.marked .pointer (← type left))
    | 'R' :: rest => setInput rest; remember (.marked .reference (← type left))
    | 'O' :: rest => setInput rest; remember (.marked .rvalueReference (← type left))
    | 'V' :: _ | 'K' :: _ =>
      let (volatile, const) ← qualifiers
      remember (.marked (.qualified volatile const) (← type left))
    | 'N' :: rest => setInput rest; remember (.nestedType (← nestedName left))
    | 'S' :: 's' :: rest => setInput rest; return .stdString
    | 'S' :: rest => setInput rest; reference
    | 'D' :: c :: rest =>
      match wideBuiltinName? c with
      | some name => setInput rest; return .builtin name
      | none => failure
    | c :: rest =>
      match builtinName? c with
      | some name => setInput rest; return .builtin name
      | none => remember (.plainType (.source (← sourceName)))
    | [] => failure

/-- Types up to the end or to the first mark of a copy. -/
def parameterTypes : (left : Nat) → Scanner (List Entity)
  | 0 => failure
  | left + 1 => do
    match ← input with
    | [] | '.' :: _ => return []
    | _ =>
      let first ← type typeNesting
      return first :: (← parameterTypes left)

/-- Whether the digits are a number as a mark of a copy has it: without leading zeros, and less than
2 to the power 63. -/
def isCloneNumber : List Char → Bool
  | [] => false
  | ['0'] => true
  | '0' :: _ => false
  | digits => digitsValue 10 digits < 0x8000000000000000

/-- Numbers, each after a point. -/
def cloneNumbers : (left : Nat) → List Char → List Char × List Char
  | left + 1, '.' :: rest =>
    let digits := rest.takeWhile Char.isDigit
    if isCloneNumber digits then
      let (more, after) := cloneNumbers left (rest.dropWhile Char.isDigit)
      ('.' :: digits ++ more, after)
    else ([], '.' :: rest)
  | _, cs => ([], cs)

/-- Marks of copies up to the end: each a point and a word, which may be of digits, with numbers
after it. Digits that are no number begin a mark of their own. -/
def cloneMarks : (left : Nat) → List Char → Option (List String)
  | _, [] => some []
  | 0, _ :: _ => none
  | left + 1, c :: rest =>
    let word := rest.takeWhile isIdentifierChar
    if c = '.' ∧ word ≠ [] then
      let (numbers, after) := cloneNumbers rest.length (rest.dropWhile isIdentifierChar)
      (cloneMarks left after).map (String.ofList ('.' :: word ++ numbers) :: ·)
    else none

/-- What a symbol is for, without parameters and marks. Only a nested name has qualifiers. -/
def subjectName : Scanner Subject := do
  match ← input with
  | 'N' :: rest =>
    setInput rest
    let (volatile, const) ← qualifiers
    return ⟨← nestedName typeNesting, true, volatile, const, [], []⟩
  | 'S' :: 't' :: rest =>
    setInput rest
    return ⟨.member .std (.source (← sourceName)), false, false, false, [], []⟩
  | _ => return ⟨.single (.source (← sourceName)), false, false, false, [], []⟩

def subject : Scanner Subject := do
  let named ← subjectName
  let parameters ← parameterTypes ((← input).length + 1)
  let rest ← input
  match cloneMarks rest.length rest with
  | some clones => return { named with parameters, clones }
  | none => failure

/-- The subject of a mangled symbol; nothing may be left over. -/
def parse? (symbol : String) : Option Subject :=
  match symbol.toList with
  | '_' :: 'Z' :: rest => (subject.run ⟨rest, []⟩).map Prod.fst
  | _ => none

/-- The readable text of a symbol, if it is mangled in a way that is read here. -/
def demangle? (symbol : String) : Option String := (parse? symbol).bind Subject.text?

end FrameLens.Symbol
