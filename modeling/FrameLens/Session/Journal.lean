import FrameLens.Journal.Trail
import FrameLens.Session.Basic

/-!
The events of the steps of a session.
-/
namespace FrameLens.Session

def treeEvents (s : Session) (events : ScopeTree → List Event) : List Event :=
  match s.tree with
  | some t => events t
  | none => []

/-- Reading of memory. Only the map keeps track of what was read from it. -/
def readEvents (s : Session) (address length : UInt64) : List Event :=
  match s.fixed with
  | some _ => []
  | none => Trail.ofRead s.map address length

/-- The second stop is looked at only if the first could be. -/
def compareEvents (s : Session) (first second : UInt64) (t : ScopeTree) : List Event :=
  Trail.ofVariables s.readEvents t first s.snapshot ++
    match t.variablesAt first s.snapshot with
    | .ok _ => Trail.ofVariables s.readEvents t second s.snapshot
    | .error _ => []

def evaluateEvents (s : Session) (source : LocationSource) (size : UInt64) : List Event :=
  Trail.ofSource source ++
    match source.resolve with
    | .ok location => Trail.ofEvaluation s.readEvents location s.snapshot size
    | .error _ => []

def changeEvents (s : Session) : Change → List Event
  | .declare _ entry => Trail.ofEntry entry
  | .build =>
    match s.builder with
    | some b => Trail.ofBuild b
    | none => []
  | .loadSample =>
    match Sample.build with
    | .ok t => [.treeBuilt t.functionName t.size]
    | .error _ => []
  | _ => []

def questionEvents (s : Session) (demangler : Demangler) : Question → List Event
  | .chain pc | .frames pc => s.treeEvents fun t => Trail.ofChain t pc
  | .visible ids => s.treeEvents fun t => Trail.ofVisible (ids.filterMap t.get?)
  | .variablesAt pc | .listing pc =>
    s.treeEvents fun t => Trail.ofVariables s.readEvents t pc s.snapshot
  | .frameVariablesAt pc index =>
    s.treeEvents fun t => Trail.ofFrameVariables s.readEvents t demangler pc index s.snapshot
  | .compare first second => s.treeEvents (s.compareEvents first second)
  | .evaluate location size => s.evaluateEvents location size
  | .read address length => s.readEvents address length
  | _ => []

/-- What happens while a step is taken. -/
def events (s : Session) (demangler : Demangler) : Step → List Event
  | .change change => s.changeEvents change
  | .ask question => s.questionEvents demangler question

end FrameLens.Session
