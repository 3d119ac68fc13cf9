import Sipl.CommandLine.Directory
import Sipl.Diagnostic.Terminal
import Sipl.Run.Machine
import Sipl.Token.Scan

namespace Sipl

/-- How results and diagnostics are written. -/
inductive OutputFormat where
  | text
  | json
  deriving DecidableEq, Inhabited

def OutputFormat.ofText? : String → Option OutputFormat
  | "text" => some text
  | "json" => some json
  | _ => none

/-- Why a command was not carried out. -/
inductive CommandError where
  | unreadable (path : String) (failure : ReadFailure)
  | usage (word : String)
  | invalidValue (flag value : String)
  | unknownOption (argument : String)
  | unknownCode (text : String)
  deriving DecidableEq, Inhabited

namespace CommandError

def message : CommandError → String
  | unreadable path failure => "cannot read '" ++ path ++ "': " ++ failure.message
  | usage word => "Usage: sipl " ++ word ++ " <file.sipl> [options]"
  | invalidValue flag value => "invalid value '" ++ value ++ "' for '" ++ flag ++ "'"
  | unknownOption argument => "unknown option '" ++ argument ++ "'"
  | unknownCode text => "unknown error code '" ++ text ++ "'"

def exitCode : CommandError → Nat
  | unreadable _ _ => 66
  | _ => 64

end CommandError

/-- What one option asks for. -/
inductive Setting where
  | depth (limit : Nat)
  | notes
  | format (format : OutputFormat)
  | color (mode : ColorMode)
  deriving DecidableEq, Inhabited

structure Options where
  depth : Nat := defaultCallDepth
  format : OutputFormat := .text
  notes : Bool := false
  color : ColorMode := .auto
  positional : List String := []
  deriving DecidableEq, Inhabited

namespace Options

/-- The largest number that an option can give. -/
def largestNumber : Nat := 18446744073709551615

/-- A positive decimal number, with a plus sign in front of it or not. -/
def depthOfText? (value : String) : Option Nat :=
  let digits := match value.toList with
    | '+' :: digits => digits
    | digits => digits
  let number := Scan.decimal digits
  if !digits.isEmpty && digits.all Scan.isDigit && 0 < number && number ≤ largestNumber then
    some number
  else
    none

/-- The name of an option and its value, which stand before and behind the first equals sign. -/
def splitFlag (flag : List Char) : String × String :=
  (String.ofList (flag.takeWhile (· != '=')), String.ofList ((flag.dropWhile (· != '=')).drop 1))

/-- The setting that an option asks for. -/
def settingOf (argument : String) (flag : List Char) : Except CommandError Setting :=
  let (name, value) := splitFlag flag
  let valueOf {α : Type} (setting? : Option α) : Except CommandError α :=
    match setting? with
    | some setting => .ok setting
    | none => .error (.invalidValue ("--" ++ name) value)
  match name with
  | "max-depth" => (valueOf (depthOfText? value)).map .depth
  | "format" => (valueOf (OutputFormat.ofText? value)).map .format
  | "color" => (valueOf (ColorMode.ofText? value)).map .color
  | "notes" => if value.isEmpty then .ok .notes else .error (.unknownOption argument)
  | _ => .error (.unknownOption argument)

def set (options : Options) : Setting → Options
  | .depth limit => { options with depth := limit }
  | .notes => { options with notes := true }
  | .format format => { options with format := format }
  | .color mode => { options with color := mode }

/-- Take one more argument into account. -/
def add (options : Options) (argument : String) : Except CommandError Options :=
  match argument.toList with
  | '-' :: '-' :: flag => (settingOf argument flag).map options.set
  | _ => .ok { options with positional := options.positional ++ [argument] }

/-- The options of an argument list, or the error of the first argument that has one. -/
def ofArguments (arguments : List String) : Except CommandError Options :=
  arguments.foldlM add {}

end Options

end Sipl
