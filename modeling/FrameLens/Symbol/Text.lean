import FrameLens.Symbol.Entity

/-!
The readable text of what a symbol refers to. The marks of a type are written after the name in it.
A nested name takes the nearest mark that waits, also where it is only the beginning of a longer
name; other marks stand after all that they are put on.
-/
namespace FrameLens.Symbol

/-- A name as it is shown. Namespaces without a name get one from the compiler that is not. -/
def shownName (name : String) : String :=
  if name.startsWith "_GLOBAL__N" then "(anonymous namespace)" else name

/-- Qualifiers as they stand after what they qualify. -/
def qualifierText (volatile const : Bool) : String :=
  (if const then " const" else "") ++ if volatile then " volatile" else ""

def Leaf.text : Leaf → String
  | source name => shownName name
  | stdString => "string"

/-- Constructors and destructors repeat `own`, and cannot be written without it. -/
def Part.text? (own : Option Leaf) : Part → Option String
  | source name => some (shownName name)
  | constructor => own.map Leaf.text
  | destructor => own.map fun leaf => "~" ++ leaf.text

namespace Mark

/-- The text of a reference before the marks that wait, and what still waits after it. References
that come together are one: it takes the rvalue references up to the next other mark with it, and
leaves the writing to a reference to an lvalue that comes then. -/
def referenceText (text : String) (waiting : List Mark) : String × List Mark :=
  let rest := waiting.dropWhile (· = rvalueReference)
  if rest.head? = some reference then ("", rest) else (text, rest)

/-- The text of a mark before the marks that wait, nearest first, and what still waits after it. -/
def text (waiting : List Mark) : Mark → String × List Mark
  | pointer => ("*", waiting)
  | reference => referenceText "&" waiting
  | rvalueReference => referenceText "&&" waiting
  | qualified volatile const => (qualifierText volatile const, waiting)

end Mark

/-- A text with the marks that still wait. -/
abbrev Written := String × List Mark

/-- Writes the nearest mark that waits. -/
def Written.takeMark (w : Written) : Written :=
  match w.2 with
  | [] => w
  | mark :: waiting =>
    let (text, rest) := mark.text waiting
    (w.1 ++ text, rest)

namespace Entity

/-- Writes an entity inside marks that wait, nearest first. Constructors and destructors repeat
`own`. -/
def write? (own : Option Leaf) : Entity → List Mark → Option Written
  | builtin name, waiting => some (name, waiting)
  | std, waiting => some ("std", waiting)
  | stdString, waiting => some ("std::string", waiting)
  | single part, waiting => (part.text? own).map (·, waiting)
  | member owner part, waiting => do
    let (text, rest) ← owner.write? own waiting
    return (text ++ "::" ++ (← part.text? own), rest)
  | plainType part, waiting => (part.text? own).map (·, waiting)
  | nestedType name, waiting => (name.write? own waiting).map Written.takeMark
  | marked mark target, waiting => do
    let written ← target.write? own (mark :: waiting)
    -- the mark may have been taken inside already
    return if waiting.length < written.2.length then written.takeMark else written

def text? (own : Option Leaf) (e : Entity) : Option String := (e.write? own []).map Prod.fst

end Entity

namespace Subject

/-- A single `void` means that there are no parameters; a variable has no list of them at all. -/
def parametersText? (own : Option Leaf) : List Entity → Option String
  | [] => some ""
  | [.builtin "void"] => some "()"
  | types => (types.mapM (Entity.text? own)).map fun texts => "(" ++ ", ".intercalate texts ++ ")"

def cloneText (clone : String) : String := " [clone " ++ clone ++ "]"

def text? (s : Subject) : Option String :=
  if s.isShallow then do
    return (← s.entity.text? s.ownName?) ++ (← parametersText? s.ownName? s.parameters) ++
      qualifierText s.volatile s.const ++ String.join (s.clones.map cloneText)
  else none

end Subject
end FrameLens.Symbol
