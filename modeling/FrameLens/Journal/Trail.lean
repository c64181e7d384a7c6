import FrameLens.Frame.Variables
import FrameLens.Journal.Event
import FrameLens.Scope.Builder
import FrameLens.Variable.Entry

/-!
The events of each operation, in the order in which they happen. Operations themselves do not keep
a journal; what happens in one follows from what it is given.
-/
namespace FrameLens.Trail

/-- Reading of a location. -/
def ofSource : LocationSource → List Event
  | .given _ => []
  | .encoded encoding frameBase bytes =>
    match Operation.readAll encoding bytes with
    | .error _ => []
    | .ok operations =>
      match Location.ofOperations encoding frameBase operations with
      | .ok _ => []
      | .error .noFrameBase => [.frameBaseMissing]
      | .error .unsupported => [.locationUnsupported]

/-- Reading of locations one after another, up to the first that cannot be read. -/
def ofSources : List LocationSource → List Event
  | [] => []
  | source :: rest =>
    match source.resolve with
    | .ok _ => ofSource source ++ ofSources rest
    | .error _ => []

def ofEntry (e : VariableEntry) : List Event := ofSources e.sources

def ofBuild (b : ScopeBuilder) : List Event :=
  match b.build with
  | .ok t => [.treeBuilt t.functionName t.size]
  | .error _ => []

/-- Reading of captured memory. -/
def ofRead (map : MemoryMap) (address length : UInt64) : List Event :=
  match map.read address length with
  | .ok _ => [.bytesRead address length]
  | .error _ => []

section

-- what the reader of the snapshot itself notes about a request
variable (noted : UInt64 → UInt64 → List Event)

def ofEvaluation (location : Location) (snapshot : Snapshot) (size : UInt64) : List Event :=
  match location with
  | .register r =>
    match snapshot.register? r with
    | some _ => []
    | none => [.registerMissing r]
  | .stack base offset =>
    match snapshot.register? base with
    | some word =>
      let address := word + offset.toUInt64
      noted address size ++
        match snapshot.read address size with
        | .ok _ | .error .tooLong => []
        | .error (.unreadable a length) => [.readFailed (.unreadable a length)]
    | none => [.baseMissing base]
  | .constant _ | .unavailable => []

/-- Finding of the scopes at a program counter. -/
def ofChain (t : ScopeTree) (pc : UInt64) : List Event :=
  match t.chain pc with
  | .ok scopes => [.chainFound pc scopes.length t.functionName]
  | .error _ => []

def ofVisible (scopes : List Scope) : List Event :=
  (shadowed scopes).map fun entry => .shadowed entry.2 entry.1

/-- Evaluation of declarations one after another, up to one that fails. -/
def ofDeclarations (pc : UInt64) (snapshot : Snapshot) : List Declaration → List Event
  | [] => []
  | d :: rest =>
    let events := ofEvaluation noted (d.locationAt pc) snapshot d.type.size
    match d.resolve pc snapshot with
    | .ok _ => events ++ ofDeclarations pc snapshot rest
    | .error _ => events

/-- Resolution of the variables that are seen through scopes, with a summary at the end. -/
def ofResolution (t : ScopeTree) (pc : UInt64) (snapshot : Snapshot) (scopes : List Scope) :
    List Event :=
  let summary :=
    match ScopeTree.resolveScopes pc snapshot scopes with
    | .ok vs =>
      [Event.variablesResolved vs.length pc t.functionName
        (vs.filter (·.isUnavailable)).length]
    | .error _ => []
  ofVisible scopes ++ ofDeclarations noted pc snapshot (visible scopes) ++ summary

def ofVariables (t : ScopeTree) (pc : UInt64) (snapshot : Snapshot) : List Event :=
  ofChain t pc ++
    match t.chain pc with
    | .ok scopes => ofResolution noted t pc snapshot scopes
    | .error _ => []

def ofFrameVariables (t : ScopeTree) (demangler : Demangler) (pc : UInt64) (index : Nat)
    (snapshot : Snapshot) : List Event :=
  ofChain t pc ++
    match t.frameAt demangler pc index with
    | .ok frame => ofResolution noted t pc snapshot frame.scopes
    | .error _ => []

end

end FrameLens.Trail
