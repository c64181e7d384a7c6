import FrameLens.Command.Arguments
import FrameLens.Journal.Trail

/-!
What a run of the command gives: the variables of the sample at a stop, or help, or a complaint.
-/
namespace FrameLens.Command

/-- What is written beside the output: a complaint about the arguments, or an event. -/
inductive Notice where
  | complaint (text : String)
  | event (event : Event)
  deriving DecidableEq, Repr

/-- The line of a notice; only events carry the time. -/
def Notice.line (time : Option String) : Notice → String
  | complaint text => "error: " ++ text
  | event e => e.logLine time

/-- An exit code, the lines of the output, and the notices. -/
structure Outcome where
  exitCode : UInt32
  output : List String
  notices : List Notice
  deriving DecidableEq, Repr

def usage (program : String) : List String :=
  [About.title ++ " - variable resolution inside inlined frames",
    "Usage: " ++ program ++ " [options]",
    "",
    "Options:",
    "  --pc ADDR           Program counter to resolve at (default " ++ Text.address Sample.stopPc ++
      ")",
    "  --frame N           Only show inline frame N (0 = innermost)",
    "  --reg NAME=VALUE    Set a captured register, e.g. --reg rbx=0x10",
    "  --debug             Enable debug logging",
    "  -h, --help          Display this help message",
    "  -v, --version       Display version information"]

def versionLines : List String := [About.title ++ " v" ++ About.version, About.description]

/-- The registers of the sample with the values from the command line, of which the last counts. -/
def registers (options : Options) : Registers := Sample.registers.update options.registers

def snapshot (options : Options) : Snapshot := ⟨registers options, .captured Sample.memory⟩

def frameLine (index : Nat) (frame : InlineFrame) : String :=
  let title := "frame #" ++ toString index ++ ": " ++ frame.function
  match frame.site with
  | some site => title ++ " [inlined at line " ++ toString site.line ++ "]"
  | none => title

/-- The frames, numbered from `index` on, one to a line. -/
def frameLines (index : Nat) : List InlineFrame → List String
  | [] => []
  | frame :: rest => frameLine index frame :: frameLines (index + 1) rest

/-- The variables that were asked for. -/
def selected (demangler : Demangler) (tree : ScopeTree) (options : Options) :
    Except QueryError (List ResolvedVariable) :=
  match options.frame with
  | some index => tree.frameVariablesAt demangler options.pc index.toNat (snapshot options)
  | none => tree.variablesAt options.pc (snapshot options)

def events (demangler : Demangler) (tree : ScopeTree) (options : Options) : List Event :=
  let noted := Trail.ofRead Sample.memory
  let resolution :=
    match options.frame with
    | some index =>
      Trail.ofFrameVariables noted tree demangler options.pc index.toNat (snapshot options)
    | none => Trail.ofVariables noted tree options.pc (snapshot options)
  [.started, .treeBuilt tree.functionName tree.size] ++
    options.registers.map (fun entry => .registerOverridden entry.1 entry.2) ++ resolution

/-- The events that are serious enough to be told. -/
def notices (options : Options) (events : List Event) : List Notice :=
  let least := if options.debug then Level.debug else Level.info
  (events.filter fun e => least.rank ≤ e.level.rank).map Notice.event

/-- Shows the frames, then the variables. If the variables cannot be shown, the frames have been. -/
def report (demangler : Demangler) (tree : ScopeTree) (options : Options) : Outcome :=
  let events := events demangler tree options
  match tree.frames demangler options.pc with
  | .error e => ⟨1, [], notices options (events ++ [.failed e.message])⟩
  | .ok frames =>
    let title := frameLines 0 frames ++ [""]
    match selected demangler tree options with
    | .error e => ⟨1, title, notices options (events ++ [.failed e.message])⟩
    | .ok vs => ⟨0, title ++ vs.map (·.description), notices options events⟩

/-- The tree of the sample is built on every run. -/
def run (demangler : Demangler) (options : Options) : Outcome :=
  match Sample.build with
  | .error fault =>
    let message := "building demo scope tree: " ++ fault.message
    ⟨1, [], notices options [.started, .failed message]⟩
  | .ok tree => report demangler tree options

/-- The whole command, from its arguments to what it writes. -/
def outcome (demangler : Demangler) (program : String) (arguments : List String) : Outcome :=
  match parse .default arguments with
  | .error e => ⟨2, usage program, [.complaint e.message]⟩
  | .ok .version => ⟨0, versionLines, []⟩
  | .ok .help => ⟨0, usage program, []⟩
  | .ok (.run options) => run demangler options

end FrameLens.Command
