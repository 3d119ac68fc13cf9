import Sipl.Diagnostic.Problem
import Sipl.Reader.Trees
import Sipl.Run.Machine

namespace Sipl

/-- What is known of a source text before it is run. -/
structure Analysis where
  tokens : List Token
  parsed : Parsed
  /-- The problems of scanning, then those of reading. -/
  diagnostics : List Diagnostic
  deriving Inhabited

namespace Analysis

/-- Scan and read a source text.  It is read even if it holds stray characters. -/
def ofSource (source : String) : Analysis :=
  let scanned := scan source
  let parsed := Parsed.ofTokens scanned.tokens (closed_scan source)
  { tokens := scanned.tokens
    parsed
    diagnostics := scanned.errors.map LexicalError.diagnostic
      ++ parsed.errors.map SyntaxError.diagnostic }

def hasErrors (analysis : Analysis) : Bool := !analysis.diagnostics.isEmpty

end Analysis

/-- What came of running a source text. -/
inductive RunOutcome where
  | success (bindings : Bindings)
  | compileErrors (diagnostics : List Diagnostic)
  | runtimeError (diagnostic : Diagnostic)
  deriving DecidableEq, Inhabited

namespace RunOutcome

def exitCode : RunOutcome → Nat
  | success _ => 0
  | compileErrors _ => 65
  | runtimeError _ => 70

def diagnostics : RunOutcome → List Diagnostic
  | success _ => []
  | compileErrors diagnostics => diagnostics
  | runtimeError diagnostic => [diagnostic]

end RunOutcome

/-- Analyse a source text and run it if it has no problems; nothing if the fuel does not
suffice. -/
def runSource (fuel : Nat) (limit? : Option Nat) (source : String) : Option RunOutcome :=
  let analysis := Analysis.ofSource source
  if analysis.hasErrors then
    some (.compileErrors analysis.diagnostics)
  else
    match analysis.parsed.program? with
    | none =>
      some (.runtimeError
        (RuntimeError.internalDiagnostic "parser produced no program and no errors"))
    | some program =>
      (evaluate fuel limit? program).map fun
        | .ok bindings => .success bindings
        | .error error => .runtimeError error.diagnostic

end Sipl
