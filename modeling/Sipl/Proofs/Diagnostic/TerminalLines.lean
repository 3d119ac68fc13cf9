import Sipl.Diagnostic.Terminal
import Sipl.Proofs.Text.Graphic

namespace Sipl

open Scan

/-! A diagnostic takes one line if no text in it holds a control character, apart from one that is
quoted alone.  The escape sequences that colour the line can be told from such texts, and without
them it is the line that is written without colours. -/

/-- A text that consists of some lines, each ended by a line break. -/
structure Lines (text : String) (lines : List String) : Prop where
  ended : text = String.join (lines.map fun line => line ++ "\n")
  unbroken : ∀ line ∈ lines, Lacks '\n' line

theorem Lines.count {text : String} {lines : List String} (made : Lines text lines) :
    text.toList.count '\n' = lines.length := by
  obtain ⟨rfl, unbroken⟩ := made
  induction lines with
  | nil => rfl
  | cons line others ih =>
      obtain ⟨first, rest⟩ := List.forall_mem_cons.mp unbroken
      rw [List.map_cons, String.join_cons, String.toList_append, String.toList_append,
        List.count_append, List.count_append, List.count_eq_zero_of_not_mem first, ih rest,
        List.length_cons]
      exact Nat.add_comm _ _

namespace Terminal

/-- The parameters of an escape sequence are numbers with semicolons between them. -/
def isParameter (char : Char) : Bool := isDigit char || char == ';'

/-- What stands behind the escape sequence that a text starts with. -/
def behindSequence? : List Char → Option (List Char)
  | '\x1b' :: '[' :: rest =>
    match rest.dropWhile isParameter with
    | 'm' :: behind => some behind
    | _ => none
  | _ => none

theorem length_behindSequence?_lt {text behind : List Char}
    (found : behindSequence? text = some behind) : behind.length < text.length := by
  unfold behindSequence? at found
  split at found
  · next rest =>
      split at found
      · next after ended =>
          have shorter := (List.dropWhile_sublist isParameter (l := rest)).length_le
          rw [ended, Option.some.inj found] at shorter
          simp only [List.length_cons] at shorter ⊢
          omega
      · cases found
  · cases found

/-- The characters of a text that a terminal shows: all but those of the escape sequences. -/
def visible : List Char → List Char
  | [] => []
  | first :: rest =>
    match _ : behindSequence? (first :: rest) with
    | some behind => visible behind
    | none => first :: visible rest
termination_by text => text.length
decreasing_by
  · exact length_behindSequence?_lt ‹_›
  · exact Nat.lt_succ_self _

theorem visible_of_sequence {text behind : List Char}
    (found : behindSequence? text = some behind) : visible text = visible behind := by
  cases text with
  | nil => cases found
  | cons first rest =>
      rw [visible]
      split
      · next other same => rw [Option.some.inj (found.symm.trans same)]
      · next missing => cases found.symm.trans missing

theorem visible_cons {first : Char} {rest : List Char}
    (missing : behindSequence? (first :: rest) = none) :
    visible (first :: rest) = first :: visible rest := by
  rw [visible]
  split
  · next found => cases missing.symm.trans found
  · rfl

theorem behindSequence?_of_ne {first : Char} {rest : List Char} (other : first ≠ '\x1b') :
    behindSequence? (first :: rest) = none := by
  unfold behindSequence?
  split
  · next same => exact absurd (List.cons.inj same).1 other
  · rfl

/-- Whatever comes behind a text, the text is shown as the other one. -/
def AppearsAs (text shown : String) : Prop :=
  ∀ rest, visible (text.toList ++ rest) = shown.toList ++ visible rest

namespace AppearsAs

variable {left right text shown other : String}

theorem append (first : AppearsAs left shown) (second : AppearsAs right other) :
    AppearsAs (left ++ right) (shown ++ other) := by
  intro rest
  rw [String.toList_append, List.append_assoc, first, second, String.toList_append,
    List.append_assoc]

theorem visible_eq (appears : AppearsAs text shown) : visible text.toList = shown.toList := by
  have alone := appears []
  rwa [List.append_nil, visible, List.append_nil] at alone

theorem join {Item : Type} {items : List Item} {write plain : Item → String}
    (each : ∀ item ∈ items, AppearsAs (write item) (plain item)) :
    AppearsAs (String.join (items.map write)) (String.join (items.map plain)) := by
  induction items with
  | nil => exact fun rest => rfl
  | cons item others ih =>
      obtain ⟨first, later⟩ := List.forall_mem_cons.mp each
      rw [List.map_cons, List.map_cons, String.join_cons, String.join_cons]
      exact first.append (ih later)

theorem of_escapeless (escapeless : Lacks '\x1b' text) : AppearsAs text text := by
  intro rest
  rw [Lacks] at escapeless
  generalize text.toList = chars at escapeless ⊢
  induction chars with
  | nil => rfl
  | cons first others ih =>
      obtain ⟨front, later⟩ := List.ne_and_not_mem_of_not_mem_cons escapeless
      rw [List.cons_append, visible_cons (behindSequence?_of_ne front.symm), ih later,
        List.cons_append]

theorem of_graphic (graphic : Graphic text) : AppearsAs text text :=
  of_escapeless graphic.escapeless

/-- No sequence starts with a character that a quotation mark stands behind. -/
theorem quoted (char : Char) : AppearsAs (char.toString ++ "'") (char.toString ++ "'") := by
  intro rest
  have alone : (char.toString ++ "'").toList = [char, '\''] := by
    rw [String.toList_append, Char.toString_eq_singleton, String.toList_singleton]
    rfl
  have missing : behindSequence? (char :: '\'' :: rest) = none := by
    unfold behindSequence?
    split
    · next same => exact absurd (List.cons.inj (List.cons.inj same).2).1 (by decide)
    · rfl
  have mark : behindSequence? ('\'' :: rest) = none := behindSequence?_of_ne (by decide)
  rw [alone]
  change visible (char :: '\'' :: rest) = char :: '\'' :: visible rest
  rw [visible_cons missing, visible_cons mark]

theorem sequence {parameters : String}
    (listed : parameters.toList.all isParameter = true) :
    AppearsAs (TerminalStyle.sequence parameters) "" := by
  intro rest
  have whole : (TerminalStyle.sequence parameters).toList ++ rest =
      '\x1b' :: '[' :: (parameters.toList ++ 'm' :: rest) := by
    rw [TerminalStyle.sequence, String.toList_append, String.toList_append, List.append_assoc,
      List.append_assoc]
    rfl
  have behind : behindSequence? ('\x1b' :: '[' :: (parameters.toList ++ 'm' :: rest)) =
      some rest := by
    have stopped : ('m' :: rest).dropWhile isParameter = 'm' :: rest :=
      List.dropWhile_cons_of_neg (by decide)
    simp only [behindSequence?, List.dropWhile_append_of_pos (List.all_eq_true.mp listed),
      stopped]
  rw [whole, visible_of_sequence behind]
  rfl

end AppearsAs

end Terminal

/-- A text that can be quoted on a line: a graphic one, or one that is a character other than a line
break. -/
def Quotable (text : String) : Prop :=
  Graphic text ∨ ∃ char, char ≠ '\n' ∧ text = char.toString

namespace Quotable

open Terminal

variable {text : String}

theorem unbroken (quotable : Quotable text) : Lacks '\n' text := by
  rcases quotable with graphic | ⟨char, visible, rfl⟩
  · exact graphic.unbroken
  · rw [Lacks, Char.toString_eq_singleton, String.toList_singleton, List.mem_singleton]
    exact visible.symm

theorem appears_quoted (quotable : Quotable text) : AppearsAs (text ++ "'") (text ++ "'") := by
  rcases quotable with graphic | ⟨char, _, rfl⟩
  · exact .of_graphic (graphic.append (by decide))
  · exact .quoted char

end Quotable

/-- A diagnostic whose texts keep to their line and do not hide anything. -/
structure Diagnostic.Tidy (diagnostic : Diagnostic) : Prop where
  message : Graphic diagnostic.message
  place : ∀ text, diagnostic.place? = some (.token text) → Quotable text
  notes : ∀ note ∈ diagnostic.notes, Lacks '\x1b' note

theorem Code.graphic_text (code : Code) : Graphic code.text := by
  cases code <;> decide

theorem Severity.graphic_text (severity : Severity) : Graphic severity.text := by
  cases severity <;> decide

open Terminal

namespace Diagnostic

theorem graphic_linePart (diagnostic : Diagnostic) : Graphic diagnostic.linePart := by
  unfold linePart
  split
  · exact .append (.append (by decide) (.number _)) (by decide)
  · decide

theorem graphic_codePart (diagnostic : Diagnostic) : Graphic diagnostic.codePart :=
  .append (.append (by decide) diagnostic.code.graphic_text) (by decide)

namespace Tidy

variable {diagnostic : Diagnostic}

theorem graphic_words (tidy : diagnostic.Tidy) : Graphic (": " ++ diagnostic.message) :=
  .append (by decide) tidy.message

theorem unbroken_messagePart (tidy : diagnostic.Tidy) : Lacks '\n' diagnostic.messagePart := by
  rw [messagePart, String.append_assoc]
  refine .append ?_ tidy.graphic_words.unbroken
  split
  · next place found =>
      cases place with
      | inputEnd => decide
      | token text =>
          have quoted := (tidy.place text found).unbroken
          exact .append (by decide) (.append (.append (by decide) quoted) (by decide))
  · decide

theorem appears_messagePart (tidy : diagnostic.Tidy) :
    AppearsAs diagnostic.messagePart diagnostic.messagePart := by
  rw [messagePart, String.append_assoc]
  refine .append ?_ (.of_graphic tidy.graphic_words)
  split
  · next place found =>
      cases place with
      | inputEnd => exact .of_graphic (by decide)
      | token text =>
          rw [Place.text, ← String.append_assoc, String.append_assoc, String.append_assoc]
          exact (AppearsAs.of_graphic (by decide)).append
            ((AppearsAs.of_graphic (by decide)).append (tidy.place text found).appears_quoted)
  · exact .of_graphic (by decide)

end Tidy

end Diagnostic

namespace TerminalStyle

variable (style : TerminalStyle)

/-- The line of a diagnostic without the notes, and without the line break that ends it. -/
def headline (diagnostic : Diagnostic) : String :=
  diagnostic.linePart ++ style.severity diagnostic.severity ++ style.paint bold diagnostic.codePart
    ++ diagnostic.messagePart

variable {style} {parameters text : String} {diagnostic : Diagnostic}
  {diagnostics : List Diagnostic}

theorem unbroken_paint (plain : Lacks '\n' parameters) (graphic : Graphic text) :
    Lacks '\n' (style.paint parameters text) := by
  unfold paint
  split
  · have opened : Lacks '\n' (sequence parameters) :=
      .append (.append (by decide) plain) (by decide)
    exact .append (.append opened graphic.unbroken) (by decide)
  · exact graphic.unbroken

theorem appears_paint (listed : parameters.toList.all isParameter = true)
    (graphic : Graphic text) : AppearsAs (style.paint parameters text) text := by
  unfold paint
  split
  · have reset : AppearsAs (sequence "0") "" := .sequence (by decide)
    simpa using ((AppearsAs.sequence listed).append (.of_graphic graphic)).append reset
  · exact .of_graphic graphic

theorem unbroken_headline (tidy : diagnostic.Tidy) : Lacks '\n' (style.headline diagnostic) := by
  have severity : Lacks '\n' (style.severity diagnostic.severity) :=
    unbroken_paint (by cases diagnostic.severity <;> decide) diagnostic.severity.graphic_text
  have code : Lacks '\n' (style.paint bold diagnostic.codePart) :=
    unbroken_paint (by decide) diagnostic.graphic_codePart
  exact .append (.append (.append diagnostic.graphic_linePart.unbroken severity) code)
    tidy.unbroken_messagePart

theorem appears_headline (tidy : diagnostic.Tidy) :
    AppearsAs (style.headline diagnostic) diagnostic.headline := by
  have severity : AppearsAs (style.severity diagnostic.severity) diagnostic.severity.text :=
    appears_paint (by cases diagnostic.severity <;> decide) diagnostic.severity.graphic_text
  have code : AppearsAs (style.paint bold diagnostic.codePart) diagnostic.codePart :=
    appears_paint (by decide) diagnostic.graphic_codePart
  exact (((AppearsAs.of_graphic diagnostic.graphic_linePart).append severity).append code).append
    tidy.appears_messagePart

theorem lines_diagnostics (brief : style.notes = false)
    (tidy : ∀ diagnostic ∈ diagnostics, diagnostic.Tidy) :
    Lines (style.diagnostics diagnostics) (diagnostics.map style.headline) where
  ended := by
    rw [List.map_map, TerminalStyle.diagnostics]
    refine congrArg String.join (List.map_congr_left fun diagnostic _ => ?_)
    simp [TerminalStyle.diagnostic, headline, brief]
  unbroken := List.forall_mem_map.mpr fun diagnostic member => unbroken_headline (tidy _ member)

theorem headline_colorless (plain : style.colors = false) (diagnostic : Diagnostic) :
    style.headline diagnostic = diagnostic.headline := by
  simp [headline, Diagnostic.headline, severity, paint, plain]

/-- A line break in front of lines that end in one, or behind lines that start with one. -/
theorem lineBreak_join (lines : List String) :
    "\n" ++ String.join (lines.map fun line => line ++ "\n") =
      String.join (lines.map fun line => "\n" ++ line) ++ "\n" := by
  induction lines with
  | nil => rfl
  | cons line others ih =>
      simp only [List.map_cons, String.join_cons, String.append_assoc]
      rw [ih]

theorem diagnostic_colorless (plain : style.colors = false) (noted : style.notes = true)
    (diagnostic : Diagnostic) : style.diagnostic diagnostic = diagnostic.display ++ "\n" := by
  have lines : style.noteLine = (fun line => line ++ "\n") ∘ fun note => "  = note: " ++ note := by
    funext note
    simp [noteLine, paint, plain]
  have below : (fun note => "\n  = note: " ++ note) =
      (fun line => "\n" ++ line) ∘ fun note => "  = note: " ++ note := by
    funext note
    exact (String.append_assoc : "\n" ++ "  = note: " ++ note = _)
  calc
    style.diagnostic diagnostic =
        style.headline diagnostic ++ "\n" ++ String.join (diagnostic.notes.map style.noteLine) := by
      simp [TerminalStyle.diagnostic, headline, noted]
    _ = diagnostic.display ++ "\n" := by
      rw [headline_colorless plain, lines, String.append_assoc, ← List.map_map, lineBreak_join,
        List.map_map, ← below, ← String.append_assoc, Diagnostic.display]

def colorless (style : TerminalStyle) : TerminalStyle := { style with colors := false }

theorem appears_noteLine {note : String} (escapeless : Lacks '\x1b' note) :
    AppearsAs (style.noteLine note) (style.colorless.noteLine note) := by
  have dash : AppearsAs "  = " "  = " := .of_graphic (by decide)
  have word : AppearsAs (style.paint bold "note") "note" := appears_paint (by decide) (by decide)
  have colon : AppearsAs ": " ": " := .of_graphic (by decide)
  have lineBreak : AppearsAs "\n" "\n" := .of_escapeless (by decide)
  exact (((dash.append word).append colon).append (.of_escapeless escapeless)).append lineBreak

theorem appears_diagnostic (tidy : diagnostic.Tidy) :
    AppearsAs (style.diagnostic diagnostic) (style.colorless.diagnostic diagnostic) := by
  have plain : style.colorless.headline diagnostic = diagnostic.headline :=
    headline_colorless rfl diagnostic
  have line : AppearsAs (style.headline diagnostic) (style.colorless.headline diagnostic) :=
    plain ▸ appears_headline tidy
  have lineBreak : AppearsAs "\n" "\n" := .of_escapeless (by decide)
  refine (line.append lineBreak).append ?_
  cases noted : style.notes with
  | true =>
      have same : style.colorless.notes = true := noted
      rw [if_pos rfl, if_pos same]
      exact .join fun note member => appears_noteLine (tidy.notes note member)
  | false =>
      have same : ¬ style.colorless.notes = true := Bool.eq_false_iff.mp noted
      rw [if_neg Bool.false_ne_true, if_neg same]
      exact .of_graphic (by decide)

theorem appears_diagnostics (tidy : ∀ diagnostic ∈ diagnostics, diagnostic.Tidy) :
    AppearsAs (style.diagnostics diagnostics) (style.colorless.diagnostics diagnostics) :=
  .join fun diagnostic member => appears_diagnostic (tidy diagnostic member)

end TerminalStyle

end Sipl
