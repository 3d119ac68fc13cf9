import Sipl.Proofs.Analysis.Ends
import Sipl.Proofs.Analysis.Positions
import Sipl.Proofs.Diagnostic.TerminalLines
import Sipl.Proofs.Run.Wording

namespace Sipl

open Scan Reference Terminal

theorem visible_prepend {offset line : Nat} {piece : Piece} {later : Scan} {text : List Char}
    (fronts : piece.Fronts text)
    (visible : ∀ error ∈ later.errors, isBlank error.fault.char = false) :
    ∀ error ∈ (prepend offset line piece later).errors, isBlank error.fault.char = false := by
  cases piece with
  | blank char => exact visible
  | token kind lexeme => exact visible
  | stray fault => exact List.forall_mem_cons.mpr ⟨fronts.1, visible⟩

/-- No blank is reported as a stray character. -/
theorem visible_scanFrom (offset line : Nat) (text : List Char) :
    ∀ error ∈ (scanFrom offset line text).errors, isBlank error.fault.char = false := by
  fun_induction scanFrom offset line text with
  | case1 => exact List.forall_mem_nil _
  | case2 offset line first rest piece ih =>
      exact visible_prepend (Piece.fronts_front first rest) ih

theorem LexicalError.tidy_diagnostic {error : LexicalError}
    (visible : isBlank error.fault.char = false) : error.diagnostic.Tidy where
  message := by
    have worded : Graphic error.fault.message := by
      cases error.fault with
      | unexpectedCharacter => exact (by decide : Graphic "unexpected character")
      | loneColon | loneBang => decide
    exact worded
  place := by
    rintro text ⟨⟩
    refine .inr ⟨error.fault.char, ?_, rfl⟩
    intro lineBreak
    rw [lineBreak] at visible
    exact absurd visible (by decide)
  notes := by
    have noted : ∀ note ∈ error.fault.notes, Lacks '\x1b' note := by
      cases error.fault with
      | unexpectedCharacter => exact List.forall_mem_nil _
      | loneColon | loneBang => exact List.forall_mem_singleton.mpr (by decide)
    exact noted

theorem Spelled.graphic_lexeme {tokens : List Token} {words : List String}
    (spelled : Spelled tokens words) :
    ∀ token ∈ tokens, token.kind ≠ .eof → Graphic token.lexeme := by
  induction spelled with
  | ended closed => exact List.forall_mem_singleton.mpr fun inside => absurd closed inside
  | token spells literal rest ih =>
      exact List.forall_mem_cons.mpr ⟨fun _ => .of_spells spells, ih⟩

theorem SyntaxError.tidy_diagnostic {error : SyntaxError} (worded : Graphic error.message)
    (written : error.token.kind ≠ .eof → Graphic error.token.lexeme) : error.diagnostic.Tidy where
  message := worded
  place := by
    intro text place
    by_cases mark : error.token.kind = .eof
    · simp [diagnostic, SyntaxError.place, mark] at place
    · simp [diagnostic, SyntaxError.place, mark] at place
      exact .inl (place ▸ written mark)
  notes := List.forall_mem_nil _

theorem Analysis.tidy_diagnostics (source : String) :
    ∀ diagnostic ∈ (ofSource source).diagnostics, diagnostic.Tidy := by
  obtain ⟨_, spelled⟩ := exists_spelled_scanFrom 0 1 source.toList
  obtain ⟨_, meets⟩ := Parsed.meets_ofCursor (.start _ (closed_scan source))
  rw [Parsed.upcoming_start] at meets
  refine List.forall_mem_append.mpr ⟨?_, ?_⟩
  · exact List.forall_mem_map.mpr fun error member =>
      error.tidy_diagnostic (visible_scanFrom _ _ _ error member)
  · exact List.forall_mem_map.mpr fun error member =>
      SyntaxError.tidy_diagnostic (meets.sorted error member)
        (spelled.graphic_lexeme _ (meets.token_mem error member))

theorem RuntimeError.tidy_diagnostic {program : Program} {limit? : Option Nat} {fuel : Nat}
    {error : RuntimeError} (writable : program.Writable)
    (failed : evaluate fuel limit? program = some (.error error)) : error.diagnostic.Tidy := by
  obtain ⟨trail, fails, rfl⟩ := exists_trail_of_evaluate failed
  have worded := fails.worded writable
  exact ⟨worded.message, nofun, worded.escapeless_notes⟩

theorem tidy_of_runSource {source : String} {fuel : Nat} {limit? : Option Nat}
    {outcome : RunOutcome} (ended : runSource fuel limit? source = some outcome) :
    ∀ diagnostic ∈ outcome.diagnostics, diagnostic.Tidy := by
  by_cases clean : (Analysis.ofSource source).diagnostics = []
  · obtain ⟨program, found⟩ :=
      Analysis.program?_of_isProgramText (Analysis.diagnostics_eq_nil_iff_isProgramText.mp clean)
    rw [runSource_of_clean fuel limit? clean found] at ended
    obtain ⟨answer, known, rfl⟩ := Option.map_eq_some_iff.mp ended
    cases answer with
    | ok bindings => exact List.forall_mem_nil _
    | error error =>
        exact List.forall_mem_singleton.mpr
          (RuntimeError.tidy_diagnostic (Program.writable_ofSource found) known)
  · rw [runSource_of_problems clean] at ended
    obtain rfl := Option.some.inj ended
    exact Analysis.tidy_diagnostics source

/-- What is reported of a run on the error stream. -/
def RunOutcome.report (outcome : RunOutcome) (options : Options) (terminal : Bool) : String :=
  (Response.ofDiagnostics options terminal outcome.exitCode "" outcome.diagnostics).stderr

theorem RunOutcome.report_eq {options : Options} (format : options.format = .text)
    (outcome : RunOutcome) (terminal : Bool) :
    outcome.report options terminal =
      TerminalStyle.diagnostics ⟨options.color.colorful terminal, options.notes⟩
        outcome.diagnostics := by
  rw [report, Response.ofDiagnostics, format]

/-- In text format and without notes there are as many lines as diagnostics.  Without colours they
are the headlines, in order.  With notes and without colours each diagnostic is displayed with its
notes.  With colours a terminal shows what is written without them. -/
theorem diagnostics_take_one_line_each {source : String} {fuel : Nat} {limit? : Option Nat}
    {outcome : RunOutcome} (ended : runSource fuel limit? source = some outcome)
    (options : Options) (format : options.format = .text) (terminal : Bool) :
    (options.notes = false →
      (outcome.report options terminal).toList.count '\n' = outcome.diagnostics.length ∧
        ∃ lines, Lines (outcome.report options terminal) lines ∧
          lines.length = outcome.diagnostics.length) ∧
      (options.color.colorful terminal = false →
        (options.notes = false →
          Lines (outcome.report options terminal) (outcome.diagnostics.map Diagnostic.headline)) ∧
          (options.notes = true → outcome.report options terminal =
            String.join (outcome.diagnostics.map fun diagnostic => diagnostic.display ++ "\n"))) ∧
      visible (outcome.report options terminal).toList =
        (outcome.report { options with color := .never } terminal).toList := by
  have tidy := tidy_of_runSource ended
  have plain : ({ options with color := .never } : Options).format = .text := format
  rw [RunOutcome.report_eq format, RunOutcome.report_eq plain]
  generalize options.color.colorful terminal = colors, options.notes = notes
  have brief (brief : notes = false) :
      Lines (TerminalStyle.diagnostics ⟨colors, notes⟩ outcome.diagnostics)
        (outcome.diagnostics.map (TerminalStyle.headline ⟨colors, notes⟩)) :=
    TerminalStyle.lines_diagnostics brief tidy
  refine ⟨fun silent => ?_, fun colorless => ⟨fun silent => ?_, fun noted => ?_⟩, ?_⟩
  · have lines := brief silent
    exact ⟨by simpa using lines.count, _, lines, List.length_map _⟩
  · have lines := brief silent
    rwa [funext (TerminalStyle.headline_colorless colorless)] at lines
  · rw [TerminalStyle.diagnostics, funext (TerminalStyle.diagnostic_colorless colorless noted)]
  · exact (TerminalStyle.appears_diagnostics tidy).visible_eq

/-- An escape character where no token can start, in front of the rest of a sequence. -/
def strayEscape : String := "program begin \x1b[1m x := 1 end"

theorem diagnostics_take_one_line_each_of_strayEscape :
    ∃ outcome, runSource 9 none strayEscape = some outcome ∧
      (outcome.report { color := .always } false).toList.count '\n' = 3 ∧
      visible (outcome.report { color := .always } false).toList =
        (outcome.report { color := .never } false).toList ∧
      Lines (outcome.report { color := .never } false)
        ["[line 1] error[E0001] at '\x1b': unexpected character",
          "[line 1] error[E0001] at '[': unexpected character",
          "[line 1] error[E1003] at '1': invalid statement"] := by
  have faults : (Analysis.ofSource strayEscape).diagnostics.map Diagnostic.headline =
      ["[line 1] error[E0001] at '\x1b': unexpected character",
        "[line 1] error[E0001] at '[': unexpected character",
        "[line 1] error[E1003] at '1': invalid statement"] := by
    with_unfolding_all rfl
  have count := congrArg List.length faults
  rw [List.length_map] at count
  have ended : runSource 9 none strayEscape =
      some (.compileErrors (Analysis.ofSource strayEscape).diagnostics) := by
    refine runSource_of_problems fun clean => ?_
    rw [clean] at count
    cases count
  obtain ⟨counted, _, shown⟩ :=
    diagnostics_take_one_line_each ended { color := .always } rfl false
  obtain ⟨_, plain, _⟩ := diagnostics_take_one_line_each ended { color := .never } rfl false
  exact ⟨_, ended, (counted rfl).1.trans count, shown, faults ▸ (plain rfl).1 rfl⟩

end Sipl
