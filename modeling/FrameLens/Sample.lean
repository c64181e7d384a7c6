import FrameLens.Register.Names
import FrameLens.Scope.Builder
import FrameLens.Snapshot
import FrameLens.Variable.Entry

/-!
A small program stopped in an inlined call. Its function `main` takes `argc` and `argv` and calls
`f`, which was inlined and uses only one of its three parameters.
-/
namespace FrameLens.Sample

/-- The program counter of the stop, inside the inlined call. -/
def stopPc : UInt64 := 0x150

/-- What the frame pointer holds at the stop. -/
def frameBase : UInt64 := 0x1000

def int : CType := .integer true .w32

def parameter (name : String) (type : CType) (line : Nat) (location : Location) :
    Declaration where
  name := name
  type := type
  kind := .parameter
  location := location
  ranged := []
  scope := none
  line := some line

def mainRange : AddressRange := ⟨0x100, 0x200⟩

def callRange : AddressRange := ⟨0x140, 0x160⟩

def call : CallSite := ⟨"f", 11, some "main.c"⟩

/-- Both are passed in registers. -/
def mainParameters : List Declaration :=
  [parameter "argc" int 10 (.register ⟨5⟩),
    parameter "argv" (.pointer (.pointer .char)) 10 (.register ⟨4⟩)]

/-- They are in a register that serves something else by then, on the stack, and nowhere. -/
def callParameters : List Declaration :=
  [parameter "unused1" (.pointer .void) 4 (.register ⟨3⟩),
    parameter "used" int 4 (.stack Arch.x86_64.framePointer (-8)),
    parameter "unused2" int 4 .unavailable]

def encoding : Encoding := ⟨5, 8, .dwarf32⟩

/-- A parameter as it is spelled, with offsets counted from the frame pointer. -/
def entry (name : String) (type : CType) (line : Nat) (bytes : List UInt8) : VariableEntry where
  name := name
  type := type
  kind := .parameter
  location := .encoded encoding (some Arch.x86_64.framePointer) bytes
  ranged := []
  line := some line

def mainEntries : List VariableEntry :=
  [entry "argc" int 10 [0x55], entry "argv" (.pointer (.pointer .char)) 10 [0x54]]

def callEntries : List VariableEntry :=
  [entry "unused1" (.pointer .void) 4 [0x53], entry "used" int 4 [0x91, 0x78],
    entry "unused2" int 4 []]

/-- Why a description makes no tree. -/
inductive Fault where
  | location (cause : DecodeError)
  | scope (cause : ScopeFault)
  deriving DecidableEq, Repr

def Fault.message : Fault → String
  | location cause => cause.message
  | scope cause => cause.message

/-- Declares variables one after another, each when its location has been read. -/
def declareAll (scope : ScopeId) : List VariableEntry → ScopeBuilder → Except Fault ScopeBuilder
  | [], b => .ok b
  | e :: rest, b => do
    let d ← e.resolve.mapError .location
    let (b, declared) := b.declare scope d
    declared.mapError .scope
    declareAll scope rest b

/-- The construction of the tree, scope by scope. -/
def build : Except Fault ScopeTree := do
  let b ← declareAll 0 mainEntries (ScopeBuilder.start "main" mainRange)
  let (b, added) := b.addInlined 0 callRange call
  let inlined ← added.mapError .scope
  let b ← declareAll inlined callEntries b
  b.build.mapError .scope

/-- The tree that comes out: the function and the call in it. -/
def tree : ScopeTree where
  scopes := [
    { id := 0, parent := none, kind := .function "main", range := mainRange, children := [1]
      declarations := mainParameters.map fun d => { d with scope := some 0 } },
    { id := 1, parent := some 0, kind := .inlined call, range := callRange, children := []
      declarations := callParameters.map fun d => { d with scope := some 1 } }]
  nonempty := by simp

theorem build_eq_tree : build = .ok tree := by with_unfolding_all rfl

/-- The frame pointer and the two registers that `main` got its parameters in. -/
def registers : Registers :=
  Registers.empty.update [(⟨6⟩, frameBase), (⟨5⟩, 1), (⟨4⟩, 0x7ffee000)]

/-- The stack around the frame: zeros, apart from the 42 below the frame base. -/
def stack : Region where
  base := frameBase - 0x100
  data := List.replicate 0xf8 0 ++ Bytes.ofNat 4 42 ++ List.replicate 0x104 0
  name := some "[stack]"

def memory : MemoryMap := MemoryMap.empty.add stack

end FrameLens.Sample
