import Sipl.Diagnostic.Code

namespace Sipl

namespace Catalogue

/-- The lines of an explanation, by code. -/
def lines : Code → List String
  | .unexpectedCharacter => [
    "# E0001: Unexpected character",
    "",
    "The source contains a character that does not start any SIPL token.",
    "",
    "SIPL accepts ASCII letters and `_` (identifiers and keywords), decimal",
    "digits (numbers), whitespace, and the operators",
    "`( ) , ; / * + - := = <> != < <= > >=`.",
    "",
    "```sipl",
    "program begin x := 3 # 4 end",
    "```",
    "",
    "Scanning continues after the bad character, so further errors on later",
    "lines are still reported. The program is not run."]
  | .loneColon => [
    "# E0002: `:` without `=`",
    "",
    "A lone `:` is not a token. Assignment is written `:=`.",
    "",
    "```sipl",
    "program begin x : 1 end",
    "```",
    "",
    "Write `x := 1` instead."]
  | .loneBang => [
    "# E0003: `!` without `=`",
    "",
    "A lone `!` is not a token. Inequality is written `!=` or `<>`, and",
    "boolean negation is the keyword `not`.",
    "",
    "```sipl",
    "program begin b := !true end",
    "```",
    "",
    "Write `b := not true` instead."]
  | .unexpectedToken => [
    "# E1001: Unexpected token",
    "",
    "The parser expected a specific token (such as `then`, `do`, `end`, `:=`,",
    "`(` or `)`) and found something else.",
    "",
    "```sipl",
    "program begin if x > 0 begin y := 1 end end",
    "```",
    "",
    "Here `then` is missing after the condition. After reporting, the parser",
    "skips ahead to the next `end`, `;`, `func`, `if`, or `while` (or to the next",
    "`;`, `func`, or `begin` inside a function declaration) and keeps going."]
  | .expectedExpression => [
    "# E1002: Expected expression",
    "",
    "An expression was required but the next token cannot start one.",
    "Expressions start with a number, `true`, `false`, an identifier, `(`, `-`,",
    "`not`, or `if`.",
    "",
    "```sipl",
    "program begin x := * 2 end",
    "```",
    "",
    "Note that parentheses contain an arithmetic or comparison expression:",
    "`(a or b)` is not accepted, while `a or b` on its own is."]
  | .invalidStatement => [
    "# E1003: Invalid statement",
    "",
    "A statement must be an assignment (`name := expr`), an `if`, or a `while`.",
    "",
    "```sipl",
    "program begin 42 end",
    "```"]
  | .expectedIdentifier => [
    "# E1004: Expected identifier",
    "",
    "A name was required: after `func`, or in a function's parameter list.",
    "",
    "```sipl",
    "program func (n) = n begin x := 1 end",
    "```"]
  | .trailingInput => [
    "# E1005: Input after end of program",
    "",
    "A program is exactly one main block. Tokens after its closing `end`",
    "are rejected.",
    "",
    "```sipl",
    "program begin x := 1 end y := 2",
    "```"]
  | .typeMismatch => [
    "# E6001: Type mismatch",
    "",
    "SIPL has two value types, integers and booleans, and never converts",
    "between them. Arithmetic and comparisons need integers; `and`, `or`,",
    "`not`, and every `if`/`while` condition need booleans.",
    "",
    "```sipl",
    "program begin x := 1 + true end",
    "```"]
  | .divisionByZero => [
    "# E6002: Division by zero",
    "",
    "The right operand of `/` evaluated to zero. This is checked every time",
    "the division runs, before the operand types are checked.",
    "",
    "```sipl",
    "program begin z := 0; x := 10 / z end",
    "```"]
  | .undefinedVariable => [
    "# E6003: Undefined variable",
    "",
    "A variable was read before anything was assigned to it in a visible scope.",
    "",
    "Function bodies only see their own parameters: globals and the caller's",
    "variables are not visible inside a function.",
    "",
    "```sipl",
    "program",
    "  func f() = g",
    "begin",
    "  g := 1;",
    "  x := f()",
    "end",
    "```"]
  | .undefinedFunction => [
    "# E6004: Undefined function",
    "",
    "A call names a function that no `func` declaration defines.",
    "",
    "```sipl",
    "program begin x := twice(2) end",
    "```"]
  | .arityMismatch => [
    "# E6005: Wrong number of arguments",
    "",
    "A call passed a different number of arguments than the function declares.",
    "",
    "```sipl",
    "program func add(a, b) = a + b begin x := add(1) end",
    "```"]
  | .missingElse => [
    "# E6006: Missing `else` branch",
    "",
    "An `if` expression without `else` is accepted by the parser, but it has no",
    "value when its condition is false. Taking that path stops the program.",
    "",
    "```sipl",
    "program begin x := if false then 1 end",
    "```",
    "",
    "Add an `else` branch to every `if` used as an expression."]
  | .callDepthExceeded => [
    "# E6007: Call depth limit exceeded",
    "",
    "Function calls nested deeper than the configured limit (10000 by default,",
    "`--max-depth=<n>` to change it). This usually means unbounded recursion.",
    "",
    "```sipl",
    "program func loop(n) = loop(n + 1) begin x := loop(0) end",
    "```"]
  | .internal => [
    "# E9001: Internal error",
    "",
    "The interpreter failed in a way that does not correspond to a problem in",
    "the program. Please report it together with the source that triggers it."]

/-- The explanation of a code, every line of it ended. -/
def explain (code : Code) : String := String.join ((lines code).map fun line => line ++ "\n")

/-- The place of a code in the catalogue. -/
def position (code : Code) : Nat := Code.all.idxOf code

end Catalogue

end Sipl
