import Sipl.Analysis
import Sipl.CommandLine.Options
import Sipl.Diagnostic.Catalogue
import Sipl.Diagnostic.Json
import Sipl.Tree.Outline
import Sipl.Tree.Printer

namespace Sipl

/-- What a command does with a file. -/
inductive Action where
  | run
  | check
  | lex
  | parse
  | format
  deriving DecidableEq, Inhabited

namespace Action

def all : List Action := [run, check, lex, parse, format]

def word : Action → String
  | run => "run"
  | check => "check"
  | lex => "lex"
  | parse => "parse"
  | format => "fmt"

def ofWord? (word : String) : Option Action := all.find? fun action => action.word == word

end Action

inductive Command where
  | file (action : Action) (arguments : List String)
  | explain (code? : Option String)
  | help
  | version
  | missing
  | unknown (word : String)
  deriving DecidableEq, Inhabited

namespace Command

/-- The last component of a path, unless the path ends in a directory that has no name of its
own. -/
def fileName? (path : String) : Option (List Char) :=
  let components := (path.toList.splitOn '/').filter fun component =>
    component != [] && component != ['.']
  components.getLast?.filter (· != ['.', '.'])

/-- What stands behind the last dot of a file name, unless the name starts with that dot. -/
def extension? (path : String) : Option (List Char) :=
  (fileName? path).bind fun name =>
    let behind := name.reverse.takeWhile (· != '.')
    let before := (name.reverse.dropWhile (· != '.')).drop 1
    if before.isEmpty then none else some behind.reverse

/-- Whether a path names a source file, whatever the case of its extension. -/
def isSourcePath (path : String) : Bool :=
  (extension? path).any fun extension => extension.map Char.toLower == "sipl".toList

def ofArguments : List String → Command
  | [] => missing
  | word :: rest =>
    match Action.ofWord? word with
    | some action => file action rest
    | none =>
      if word ∈ ["explain", "--explain"] then explain rest.head?
      else if word ∈ ["help", "--help", "-h"] then help
      else if word ∈ ["version", "--version", "-V"] then version
      else if isSourcePath word then file .run (word :: rest)
      else unknown word

end Command

structure Response where
  exitCode : Nat
  stdout : String := ""
  stderr : String := ""
  deriving DecidableEq, Inhabited

namespace Response

/-- Report an error of the command itself. -/
def ofError (error : CommandError) : Response :=
  { exitCode := error.exitCode, stderr := "error: " ++ error.message ++ "\n" }

/-- Report diagnostics behind what was written before: text on the error stream, JSON on the
output stream.  Neither stream is a terminal unless it is said to be. -/
def ofDiagnostics (options : Options) (terminal : Bool) (exitCode : Nat) (written : String)
    (diagnostics : List Diagnostic) : Response :=
  match options.format with
  | .text =>
    let style : TerminalStyle := ⟨options.color.colorful terminal, options.notes⟩
    { exitCode, stdout := written, stderr := style.diagnostics diagnostics }
  | .json => { exitCode, stdout := written ++ Diagnostic.jsonDocument diagnostics }

end Response

def Bindings.render (bindings : Bindings) : OutputFormat → String
  | .text => bindings.text
  | .json => bindings.json.inline

/-- One line of a token listing. -/
def Token.listing (token : Token) : String :=
  token.kind.label ++ " '" ++ token.lexeme ++ "' " ++ toString token.site.line ++ "\n"

namespace Action

/-- Answer with the program of a source text that has no problems, or with its problems. -/
def withProgram (source : String) (report : List Diagnostic → Response)
    (answer : Program → Response) : Response :=
  let analysis := Analysis.ofSource source
  if analysis.hasErrors then report analysis.diagnostics
  else
    match analysis.parsed.program? with
    | some program => answer program
    | none => { exitCode := 65 }

/-- Carry out an action on a source text; nothing if the fuel does not suffice for the run. -/
def respond (fuel : Nat) (terminal : Bool) (action : Action) (options : Options)
    (path source : String) : Option Response :=
  let compileErrors := Response.ofDiagnostics options terminal 65
  match action with
  | run =>
    (runSource fuel (some options.depth) source).map fun outcome =>
      match outcome with
      | .success bindings => { exitCode := 0, stdout := bindings.render options.format ++ "\n" }
      | failed => .ofDiagnostics options terminal failed.exitCode "" failed.diagnostics
  | check =>
    some (withProgram source (compileErrors "") fun _ =>
      match options.format with
      | .text => { exitCode := 0, stdout := path ++ ": no errors\n" }
      | .json => .ofDiagnostics options terminal 0 "" [])
  | lex =>
    let scanned := scan source
    let listing := String.join (scanned.tokens.map Token.listing)
    some (if scanned.hasErrors then
        compileErrors listing (scanned.errors.map LexicalError.diagnostic)
      else
        { exitCode := 0, stdout := listing })
  | parse =>
    some (withProgram source (compileErrors "") fun program =>
      { exitCode := 0, stdout := program.outline })
  | format =>
    some (withProgram source (compileErrors "") fun program =>
      { exitCode := 0, stdout := program.format })

end Action

namespace Command

def versionNumber : String := "0.1.0"

def usage : String :=
  String.join ([
    "SIPL interpreter",
    "",
    "Usage: sipl <command> [options]",
    "",
    "Commands:",
    "  run <file.sipl>      Run a program and print its final bindings",
    "  check <file.sipl>    Report lexical and syntax errors only",
    "  lex <file.sipl>      Print the token stream",
    "  parse <file.sipl>    Print the syntax tree",
    "  fmt <file.sipl>      Print the program in canonical layout",
    "  explain <code>       Explain an error code (e.g., E6002)",
    "  help                 Show this help message",
    "  version              Show version information",
    "",
    "Options:",
    "  --max-depth=<n>      Call depth limit, a positive integer (default: 10000)",
    "  --format=<fmt>       Output format: text, json (default: text)",
    "  --color=<when>       Diagnostic colors: auto, always, never",
    "  --notes              Print notes and call stacks under text diagnostics",
    "",
    "Environment:",
    "  SIPL_LOG             Tracing filter, e.g. SIPL_LOG=sipl_eval=trace",
    "",
    "Exit codes: 0 success, 64 usage, 65 syntax error, 66 unreadable file,",
    "            70 runtime error"].map fun line => line ++ "\n")

def explainUsage : String :=
  "Usage: sipl explain <ERROR_CODE>\nExample: sipl explain E6002\n"

/-- The options and the path of a command on a file. -/
def request (action : Action) (arguments : List String) :
    Except CommandError (Options × String) :=
  match Options.ofArguments arguments with
  | .error error => .error error
  | .ok options =>
    match options.positional with
    | [path] => .ok (options, path)
    | _ => .error (.usage action.word)

/-- The file that a command reads. -/
def path? : Command → Option String
  | file action arguments => (request action arguments).toOption.map Prod.snd
  | _ => none

def explanation (text : String) : Response :=
  match Code.ofText? text with
  | some code => { exitCode := 0, stdout := Catalogue.explain code ++ "\n" }
  | none => .ofError (.unknownCode text)

/-- Carry out a command, given what reading a file yields; nothing if the fuel does not suffice for
a run. -/
def respond (fuel : Nat) (terminal : Bool) (read : String → Except ReadFailure String) :
    Command → Option Response
  | file action arguments =>
    match request action arguments with
    | .error error => some (.ofError error)
    | .ok (options, path) =>
      match read path with
      | .error failure => some (.ofError (.unreadable path failure))
      | .ok source => action.respond fuel terminal options path source
  | explain (some code) => some (explanation code)
  | explain none => some { exitCode := 64, stderr := explainUsage }
  | help => some { exitCode := 0, stdout := usage }
  | version => some { exitCode := 0, stdout := "sipl " ++ versionNumber ++ "\n" }
  | missing => some { exitCode := 64, stdout := usage }
  | unknown word =>
    some { exitCode := 64, stdout := usage, stderr := "Unknown command: " ++ word ++ "\n\n" }

end Command

end Sipl
