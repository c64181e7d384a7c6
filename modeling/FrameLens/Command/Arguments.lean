import FrameLens.Register.Names
import FrameLens.Sample
import FrameLens.Text.Blank
import FrameLens.Text.Numeral

/-!
Arguments of the command line.
-/
namespace FrameLens.Command

/-- What to show, and with which changes to the captured registers. -/
structure Options where
  pc : UInt64
  frame : Option UInt64
  /-- in the order in which they were given -/
  registers : List (Register × UInt64)
  debug : Bool
  deriving DecidableEq, Repr

def Options.default : Options := ⟨Sample.stopPc, none, [], false⟩

inductive Request where
  | version
  | help
  | run (options : Options)
  deriving DecidableEq, Repr

inductive ArgumentError where
  | missingAddress
  | missingIndex
  | missingAssignment
  | badNumber (text : String)
  | badIndex (text : String)
  | badAssignment (text : String)
  | unknownRegister (name : String)
  | unknownArgument (text : String)
  deriving DecidableEq, Repr

def ArgumentError.message : ArgumentError → String
  | missingAddress => "--pc needs an address"
  | missingIndex => "--frame needs an index"
  | missingAssignment => "--reg needs NAME=VALUE"
  | badNumber text => "invalid number '" ++ text ++ "'"
  | badIndex text => "invalid frame index '" ++ text ++ "'"
  | badAssignment text => "expected NAME=VALUE, got '" ++ text ++ "'"
  | unknownRegister name => "unknown register '" ++ name ++ "'"
  | unknownArgument text => "unknown argument '" ++ text ++ "'"

inductive Flag where
  | version | help | pc | frame | register | debug
  deriving DecidableEq, Repr

def Flag.ofText? (text : String) : Option Flag :=
  if text = "-v" ∨ text = "--version" then some .version
  else if text = "-h" ∨ text = "--help" then some .help
  else if text = "--pc" then some .pc
  else if text = "--frame" then some .frame
  else if text = "--reg" then some .register
  else if text = "--debug" then some .debug
  else none

def number (text : String) : Except ArgumentError UInt64 :=
  match Text.number? text with
  | some n => .ok n
  | none => .error (.badNumber text)

def frameIndex (text : String) : Except ArgumentError UInt64 :=
  match Text.decimal? text with
  | some n => .ok n
  | none => .error (.badIndex text)

/-- What stands before and after the first equals sign. -/
def splitAssignment? : List Char → Option (List Char × List Char)
  | [] => none
  | '=' :: rest => some ([], rest)
  | c :: rest => (splitAssignment? rest).map fun (name, value) => (c :: name, value)

/-- A register and its value. Blanks around either do not count, and the register has to exist
before its value is looked at. -/
def assignment (text : String) : Except ArgumentError (Register × UInt64) :=
  match splitAssignment? text.toList with
  | none => .error (.badAssignment text)
  | some (name, value) =>
    match Arch.x86_64.findRegister? (String.ofList (Text.trimChars name)) with
    | none => .error (.unknownRegister (String.ofList name))
    | some r =>
      match number (String.ofList (Text.trimChars value)) with
      | .ok n => .ok (r, n)
      | .error e => .error e

/-- Reads arguments after those that gave `options`. Help and version end the reading. -/
def parse (options : Options) : List String → Except ArgumentError Request
  | [] => .ok (.run options)
  | argument :: rest =>
    match Flag.ofText? argument with
    | none => .error (.unknownArgument argument)
    | some .version => .ok .version
    | some .help => .ok .help
    | some .debug => parse { options with debug := true } rest
    | some .pc =>
      match rest with
      | [] => .error .missingAddress
      | value :: rest =>
        match number value with
        | .ok pc => parse { options with pc } rest
        | .error e => .error e
    | some .frame =>
      match rest with
      | [] => .error .missingIndex
      | value :: rest =>
        match frameIndex value with
        | .ok index => parse { options with frame := some index } rest
        | .error e => .error e
    | some .register =>
      match rest with
      | [] => .error .missingAssignment
      | value :: rest =>
        match assignment value with
        | .ok entry => parse { options with registers := options.registers ++ [entry] } rest
        | .error e => .error e

end FrameLens.Command
