import Sipl.Proofs.Format.Canonical
import Sipl.Proofs.Reader.Acceptance

namespace Sipl

open Grammar

namespace Spelled

variable {tokens : List Token} {words : List String}

theorem ne_nil (spelled : Spelled tokens words) : tokens ≠ [] := by
  cases spelled <;> simp

/-- Only the mark behind the last token is an end marker. -/
theorem ne_eof (spelled : Spelled tokens words) :
    ∀ token ∈ tokens.dropLast, token.kind ≠ .eof := by
  induction spelled with
  | ended closed => exact List.forall_mem_nil _
  | token spells literal rest ih =>
      rw [List.dropLast_cons_of_ne_nil rest.ne_nil]
      exact List.forall_mem_cons.mpr ⟨spells.ne_eof, ih⟩

theorem numbered (spelled : Spelled tokens words) :
    ∀ token ∈ tokens, token.kind = .number → ∃ value, token.literal? = some (.int value) := by
  induction spelled with
  | ended closed =>
      exact List.forall_mem_singleton.mpr fun number => by cases closed.symm.trans number
  | token spells literal rest ih =>
      refine List.forall_mem_cons.mpr ⟨fun number => ?_, ih⟩
      rw [literal, number]
      exact ⟨_, rfl⟩

end Spelled

/-- The text is scanned without a stray character, and its tokens are a program of the grammar. -/
structure IsProgramText (source : String) : Prop where
  scanned : (scan source).errors = []
  derived : Derives (.rule .program) ((scan source).tokens.dropLast.map Token.kind)

namespace Analysis

variable {source : String}

theorem errors_ofSource_eq_nil_iff :
    (ofSource source).parsed.errors = [] ↔
      Derives (.rule .program) ((scan source).tokens.dropLast.map Token.kind) := by
  obtain ⟨words, spelled⟩ := Scan.exists_spelled_scanFrom 0 1 source.toList
  exact Parsed.errors_ofTokens_eq_nil_iff (closed_scan source) spelled.ne_eof spelled.numbered

theorem diagnostics_eq_nil_iff_isProgramText :
    (ofSource source).diagnostics = [] ↔ IsProgramText source := by
  rw [diagnostics_eq_nil_iff, errors_ofSource_eq_nil_iff]
  exact ⟨fun ⟨scanned, derived⟩ => ⟨scanned, derived⟩, fun text => ⟨text.scanned, text.derived⟩⟩

theorem program?_of_isProgramText (text : IsProgramText source) :
    ∃ program, (ofSource source).parsed.program? = some program :=
  Option.isSome_iff_exists.mp
    (Parsed.isSome_program?_of_errors (errors_ofSource_eq_nil_iff.mpr text.derived))

end Analysis

theorem LexicalError.phase_diagnostic (error : LexicalError) :
    error.diagnostic.code.phase = .scanning := by
  rw [diagnostic]
  cases error.fault <;> rfl

theorem SyntaxError.phase_diagnostic (error : SyntaxError) :
    error.diagnostic.code.phase = .reading := by
  rw [diagnostic]
  cases error.fault <;> rfl

/-- Some problems of scanning, and then some of reading. -/
def CompileTimeOnly (diagnostics : List Diagnostic) : Prop :=
  ∃ lexical syntactic, diagnostics = lexical ++ syntactic ∧
    (∀ diagnostic ∈ lexical, diagnostic.code.phase = .scanning) ∧
    ∀ diagnostic ∈ syntactic, diagnostic.code.phase = .reading

theorem CompileTimeOnly.code_ne_internal {diagnostics : List Diagnostic}
    (known : CompileTimeOnly diagnostics) :
    ∀ diagnostic ∈ diagnostics, diagnostic.code ≠ .internal := by
  obtain ⟨lexical, syntactic, rfl, scanning, reading⟩ := known
  intro diagnostic member internal
  rcases List.mem_append.mp member with front | back
  · cases internal ▸ scanning diagnostic front
  · cases internal ▸ reading diagnostic back

theorem Analysis.compileTimeOnly_diagnostics (source : String) :
    CompileTimeOnly (ofSource source).diagnostics :=
  ⟨_, _, rfl, List.forall_mem_map.mpr fun error _ => error.phase_diagnostic,
    List.forall_mem_map.mpr fun error _ => error.phase_diagnostic⟩

end Sipl
