import FrameLens.Frame.Variables
import FrameLens.Sample
import FrameLens.Scope.Builder
import FrameLens.Variable.Entry

/-!
Sessions: scopes are described, registers and memory captured and questions asked, step by step. A
step that fails is answered with the failure, and the session goes on.
-/
namespace FrameLens

structure Session where
  builder : Option ScopeBuilder
  tree : Option ScopeTree
  registers : Registers
  map : MemoryMap
  /-- an answer that stands in for the memory map -/
  fixed : Option (Option (List UInt8))

/-- A step that changes the session. -/
inductive Change where
  | start (name : String) (range : AddressRange)
  | addBlock (parent : ScopeId) (range : AddressRange)
  | addInlined (parent : ScopeId) (range : AddressRange) (site : CallSite)
  | declare (scope : ScopeId) (entry : VariableEntry)
  | build
  | loadSample
  | setRegisters (values : List (Register × UInt64))
  | clearRegisters
  | addRegion (region : Region)
  | clearMemory
  | fixMemory (answer : Option (List UInt8))

/-- A step that leaves the session as it is. -/
inductive Question where
  | scope (id : ScopeId)
  | scopes
  | contains (id : ScopeId) (pc : UInt64)
  | chain (pc : UInt64)
  | frames (pc : UInt64)
  | visible (ids : List ScopeId)
  | locationAt (scope : ScopeId) (index : Nat) (pc : UInt64)
  | variablesAt (pc : UInt64)
  | frameVariablesAt (pc : UInt64) (index : Nat)
  | listing (pc : UInt64)
  | compare (first second : UInt64)
  | evaluate (location : LocationSource) (size : UInt64)
  | register (register : Register)
  | summary
  | regions
  | findRegion (address : UInt64)
  | read (address length : UInt64)

inductive Step where
  | change (change : Change)
  | ask (question : Question)

inductive Failure where
  | noBuilder
  | noTree
  | scope (fault : ScopeFault)
  | location (cause : DecodeError)
  | query (cause : QueryError)
  | memory (cause : ReadError)
  deriving DecidableEq, Repr

/-- A step that came too early needs no words. -/
def Failure.message : Failure → String
  | noBuilder | noTree => ""
  | scope fault => fault.message
  | location cause => cause.message
  | query cause => cause.message
  | memory cause => cause.message

inductive Reply where
  | done
  | added (id : ScopeId)
  | tree (tree : ScopeTree)
  | scope (scope : Option Scope)
  | scopes (scopes : List Scope)
  | contains (answer : Option Bool)
  | chain (scopes : List Scope)
  | frames (frames : List InlineFrame)
  | visible (declarations : List Declaration)
  | location (location : Option Location)
  | resolved (entries : List ResolvedVariable)
  | listing (listing : Listing)
  | compared (equal sameVariables : Bool)
  | evaluated (location : Location) (raw : RawValue)
  | registers (registers : Registers)
  | register (value : Option UInt64)
  | summary (text : Option String)
  | region (region : Region)
  | regions (regions : List Region)
  | memoryCleared
  | found (region : Option Region) (contains : List Bool)
  | bytes (bytes : List UInt8)
  | failed (failure : Failure)

namespace Session

def empty : Session where
  builder := none
  tree := none
  registers := .empty
  map := .empty
  fixed := none

def memory (s : Session) : MemoryReader :=
  match s.fixed with
  | some answer => .fixed answer
  | none => .captured s.map

def snapshot (s : Session) : Snapshot := ⟨s.registers, s.memory⟩

/-- The summary of a snapshot says something only if it does not depend on the order of
registers. -/
def summary? (s : Session) : Option String :=
  if s.registers.count < 2 then some s.snapshot.summary else none

/-- Answers with what a question about the tree gives. -/
def askTree {α : Type} (s : Session) (reply : α → Reply)
    (question : ScopeTree → Except QueryError α) : Reply :=
  match s.tree with
  | none => .failed .noTree
  | some t =>
    match question t with
    | .ok a => reply a
    | .error e => .failed (.query e)

/-- Makes a call on the builder and keeps what it leaves of it. -/
def callBuilder {α : Type} (s : Session) (reply : α → Reply)
    (call : ScopeBuilder → ScopeBuilder × Except ScopeFault α) : Session × Reply :=
  match s.builder with
  | none => (s, .failed .noBuilder)
  | some b =>
    let (b, answer) := call b
    ({ s with builder := some b },
      match answer with
      | .ok a => reply a
      | .error fault => .failed (.scope fault))

/-- The location of a variable is read before anything else is looked at. -/
def declare (s : Session) (scope : ScopeId) (entry : VariableEntry) : Session × Reply :=
  match entry.resolve with
  | .error e => (s, .failed (.location e))
  | .ok d => s.callBuilder (fun _ => .done) (·.declare scope d)

/-- Building uses the builder up, whether it succeeds or not. -/
def build (s : Session) : Session × Reply :=
  match s.builder with
  | none => (s, .failed .noBuilder)
  | some b =>
    match b.build with
    | .ok t => ({ s with builder := none, tree := some t }, .tree t)
    | .error fault => ({ s with builder := none }, .failed (.scope fault))

/-- The sample with its stop takes the place of everything. -/
def loadSample (s : Session) : Session × Reply :=
  match Sample.build with
  | .error (.location e) => (s, .failed (.location e))
  | .error (.scope fault) => (s, .failed (.scope fault))
  | .ok t =>
    ({ builder := none
       tree := some t
       registers := Sample.registers
       map := Sample.memory
       fixed := none }, .tree t)

def compare (s : Session) (first second : UInt64) : Reply :=
  s.askTree (fun (a, b) => .compared (a.equal b) (Listing.sameVariables a.entries b.entries))
    fun t => do
      let a ← t.listingAt first s.snapshot
      let b ← t.listingAt second s.snapshot
      return (a, b)

def evaluate (s : Session) (source : LocationSource) (size : UInt64) : Reply :=
  match source.resolve with
  | .error e => .failed (.location e)
  | .ok location =>
    match location.evaluate s.snapshot size with
    | .ok raw => .evaluated location raw
    | .error e => .failed (.memory e)

def read (s : Session) (address length : UInt64) : Reply :=
  match s.snapshot.read address length with
  | .ok bytes => .bytes bytes
  | .error e => .failed (.memory e)

/-- The location of the index-th variable of a scope. -/
def locationAt? (t : ScopeTree) (scope : ScopeId) (index : Nat) (pc : UInt64) :
    Option Location := do
  let found ← t.get? scope
  let d ← found.declarations[index]?
  return d.locationAt pc

def answer (s : Session) (demangler : Demangler) : Question → Reply
  | .scope id => s.askTree .scope fun t => .ok (t.get? id)
  | .scopes => s.askTree .scopes fun t => .ok t.scopes
  | .contains id pc => s.askTree .contains fun t => .ok ((t.get? id).map (·.contains pc))
  | .chain pc => s.askTree .chain (·.chain pc)
  | .frames pc => s.askTree .frames (·.frames demangler pc)
  | .visible ids => s.askTree .visible fun t => .ok (FrameLens.visible (ids.filterMap t.get?))
  | .locationAt scope index pc => s.askTree .location fun t => .ok (locationAt? t scope index pc)
  | .variablesAt pc => s.askTree .resolved (·.variablesAt pc s.snapshot)
  | .frameVariablesAt pc index =>
    s.askTree .resolved (·.frameVariablesAt demangler pc index s.snapshot)
  | .listing pc => s.askTree .listing (·.listingAt pc s.snapshot)
  | .compare first second => s.compare first second
  | .evaluate location size => s.evaluate location size
  | .register r => .register (s.registers.get? r)
  | .summary => .summary s.summary?
  | .regions => .regions s.map.regions
  | .findRegion a => .found (s.map.find? a) (s.map.regions.map (·.contains a))
  | .read address length => s.read address length

/-- The session after a change, and the answer to it. -/
def apply (s : Session) : Change → Session × Reply
  | .start name range =>
    ({ s with builder := some (.start name range), tree := none }, .added 0)
  | .addBlock parent range => s.callBuilder .added (·.addBlock parent range)
  | .addInlined parent range site => s.callBuilder .added (·.addInlined parent range site)
  | .declare scope entry => s.declare scope entry
  | .build => s.build
  | .loadSample => s.loadSample
  | .setRegisters values =>
    let registers := s.registers.update values
    ({ s with registers }, .registers registers)
  | .clearRegisters => ({ s with registers := .empty }, .registers .empty)
  | .addRegion r => ({ s with map := s.map.add r }, .region r)
  | .clearMemory => ({ s with map := .empty, fixed := none }, .memoryCleared)
  | .fixMemory answer => ({ s with fixed := some answer }, .done)

def step (s : Session) (demangler : Demangler) : Step → Session × Reply
  | .change change => s.apply change
  | .ask question => (s, s.answer demangler question)

end Session
end FrameLens
