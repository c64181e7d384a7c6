import FrameLens.About
import FrameLens.Memory.Map
import FrameLens.Register.Basic
import FrameLens.Variable.Declaration

/-!
Events that are worth a line in a journal, and their text.
-/
namespace FrameLens

inductive Level where
  | trace
  | debug
  | info
  | error
  deriving DecidableEq, Repr

def Level.text : Level → String
  | trace => "TRACE"
  | debug => "DEBUG"
  | info => "INFO"
  | error => "ERROR"

/-- From the most talkative level to the most serious. -/
def Level.rank : Level → Nat
  | trace => 0
  | debug => 1
  | info => 2
  | error => 3

inductive Event where
  | bytesRead (address length : UInt64)
  | frameBaseMissing
  | locationUnsupported
  | registerMissing (register : Register)
  | baseMissing (register : Register)
  | readFailed (cause : ReadError)
  | treeBuilt (function : String) (scopes : Nat)
  | chainFound (pc : UInt64) (depth : Nat) (function : String)
  | shadowed (name : String) (scope : ScopeId)
  | variablesResolved (count : Nat) (pc : UInt64) (function : String) (unavailable : Nat)
  | started
  | registerOverridden (register : Register) (value : UInt64)
  | failed (message : String)
  deriving DecidableEq, Repr

namespace Event

def level : Event → Level
  | bytesRead _ _ | chainFound _ _ _ | shadowed _ _ => .trace
  | started => .info
  | failed _ => .error
  | _ => .debug

/-- The part of the program that an event comes from. -/
def source : Event → String
  | bytesRead _ _ => About.name ++ "::debugger::memory"
  | frameBaseMissing | locationUnsupported | registerMissing _ | baseMissing _ | readFailed _ =>
    About.name ++ "::debugger::location"
  | treeBuilt _ _ | chainFound _ _ _ => About.name ++ "::debugger::scope"
  | shadowed _ _ => About.name ++ "::debugger::variables"
  | variablesResolved _ _ _ _ => About.name ++ "::debugger::frame"
  | started | registerOverridden _ _ | failed _ => About.name

def message : Event → String
  | bytesRead address length =>
    "Read " ++ toString length.toNat ++ " bytes at " ++ Text.address address
  | frameBaseMissing => "DW_OP_fbreg without a frame base register"
  | locationUnsupported => "Unsupported location expression"
  | registerMissing r => "Register " ++ toString r.number.toNat ++ " not captured"
  | baseMissing r => "Base register " ++ toString r.number.toNat ++ " not captured"
  | readFailed cause => cause.message
  | treeBuilt function scopes =>
    "Built scope tree for " ++ function ++ " with " ++ toString scopes ++ " scopes"
  | chainFound pc depth function =>
    "PC " ++ Text.address pc ++ " is " ++ toString depth ++ " scopes deep in " ++ function
  | shadowed name scope => "'" ++ name ++ "' in scope " ++ toString scope ++ " is shadowed"
  | variablesResolved count pc function unavailable =>
    "Materialized " ++ toString count ++ " variables at " ++ Text.address pc ++ " in " ++
      function ++ " (" ++ toString unavailable ++ " unavailable)"
  | started => "Starting " ++ About.title ++ " v" ++ About.version
  | registerOverridden r value =>
    "Overriding register " ++ toString r.number.toNat ++ " = " ++ Text.address value
  | failed message => message

/-- Level, origin and message with blanks between them. -/
def line (e : Event) : String := e.level.text ++ " " ++ e.source ++ " " ++ e.message

/-- The line of a log, with the time if it is kept. Levels take five columns. -/
def logLine (time : Option String) (e : Event) : String :=
  let stamp :=
    match time with
    | some t => t ++ " "
    | none => ""
  let level := e.level.text
  let gap := String.ofList (List.replicate (5 - level.length) ' ')
  "[" ++ stamp ++ level ++ gap ++ " " ++ e.source ++ "] " ++ e.message

end Event
end FrameLens
