import Mathlib.Data.List.Forall2
import Sipl.Diagnostic.Json
import Sipl.Proofs.Text.JsonReading

namespace Sipl

open JsonGrammar

namespace JsonValue

/-- The names of an object's members. -/
def names : JsonValue → List String
  | object members => members.map Prod.fst
  | _ => []

/-- The value of an object's member. -/
def field? (value : JsonValue) (name : String) : Option JsonValue :=
  match value with
  | object members => members.lookup name
  | _ => none

end JsonValue

/-- A code is shown by its own text, by which it is found again. -/
inductive ShowsCode : JsonValue → Code → Prop where
  | intro {code : Code} {text : String} (own : text = code.text)
      (found : Code.ofText? text = some code) : ShowsCode (.string text) code

inductive ShowsSeverity : JsonValue → Severity → Prop where
  | error : ShowsSeverity (.string "error") .error
  | warning : ShowsSeverity (.string "warning") .warning
  | note : ShowsSeverity (.string "note") .note

inductive ShowsLine : JsonValue → Option Nat → Prop where
  | known (line : Nat) : ShowsLine (.number line) (some line)
  | unknown : ShowsLine .null none

inductive ShowsPlace : JsonValue → Option Place → Prop where
  | token (text : String) : ShowsPlace (.string text) (some (.token text))
  | inputEnd : ShowsPlace (.string "end") (some .inputEnd)
  | nowhere : ShowsPlace .null none

structure ShowsLabel (item : JsonValue) (label : Label) : Prop where
  names : item.names = ["start", "end", "message", "primary"]
  start : item.field? "start" = some (.number label.span.start)
  stop : item.field? "end" = some (.number label.span.stop)
  message : item.field? "message" = some (.string label.message)
  primary : item.field? "primary" = some (.bool label.primary)

structure Shows (item : JsonValue) (diagnostic : Diagnostic) : Prop where
  names : item.names = ["code", "severity", "message", "line", "at", "labels", "notes"]
  code : ∃ value ∈ item.field? "code", ShowsCode value diagnostic.code
  severity : ∃ value ∈ item.field? "severity", ShowsSeverity value diagnostic.severity
  message : item.field? "message" = some (.string diagnostic.message)
  line : ∃ value ∈ item.field? "line", ShowsLine value diagnostic.line?
  place : ∃ value ∈ item.field? "at", ShowsPlace value diagnostic.place?
  labels : ∃ items, item.field? "labels" = some (.array items) ∧
    List.Forall₂ ShowsLabel items diagnostic.labels
  notes : item.field? "notes" = some (.array (diagnostic.notes.map .string))

theorem Code.ofText?_text (code : Code) : Code.ofText? code.text = some code := by
  cases code <;> rfl

theorem showsSeverity (severity : Severity) :
    ShowsSeverity (.string severity.text) severity := by
  cases severity with
  | error => exact .error
  | warning => exact .warning
  | note => exact .note

theorem showsLine (line? : Option Nat) : ShowsLine (.ofOption line? .ofNat) line? := by
  cases line? with
  | none => exact .unknown
  | some line => exact .known line

theorem showsPlace (place? : Option Place) : ShowsPlace (.ofOption place? Place.json) place? := by
  match place? with
  | none => exact .nowhere
  | some (.token text) => exact .token text
  | some .inputEnd => exact .inputEnd

theorem Label.shows_json (label : Label) : ShowsLabel label.json label :=
  ⟨rfl, rfl, rfl, rfl, rfl⟩

theorem Label.shows_all (labels : List Label) :
    List.Forall₂ ShowsLabel (labels.map Label.json) labels := by
  rw [List.forall₂_map_left_iff]
  exact List.forall₂_same.mpr fun label _ => label.shows_json

namespace Diagnostic

theorem shows_json (diagnostic : Diagnostic) : Shows diagnostic.json diagnostic where
  names := rfl
  code := ⟨_, rfl, .intro rfl diagnostic.code.ofText?_text⟩
  severity := ⟨_, rfl, showsSeverity diagnostic.severity⟩
  message := rfl
  line := ⟨_, rfl, showsLine diagnostic.line?⟩
  place := ⟨_, rfl, showsPlace diagnostic.place?⟩
  labels := ⟨_, rfl, Label.shows_all diagnostic.labels⟩
  notes := rfl

theorem shows_all (diagnostics : List Diagnostic) :
    List.Forall₂ Shows (diagnostics.map json) diagnostics := by
  rw [List.forall₂_map_left_iff]
  exact List.forall₂_same.mpr fun diagnostic _ => diagnostic.shows_json

theorem document_jsonDocument (diagnostics : List Diagnostic) :
    Document (jsonDocument diagnostics) (.array (diagnostics.map json)) :=
  JsonValue.document_spread _

/-- Diagnostics are written as one document, and it is read as an array of objects that show them,
one after another. -/
theorem jsonDocument_shows_all (diagnostics : List Diagnostic) :
    ∃ items, Document (jsonDocument diagnostics) (.array items) ∧
      (∀ value, Document (jsonDocument diagnostics) value → value = .array items) ∧
      List.Forall₂ Shows items diagnostics :=
  ⟨_, document_jsonDocument diagnostics,
    fun _ document => document.unique (document_jsonDocument diagnostics), shows_all diagnostics⟩

end Diagnostic

/-- The place without what tells the end of the input from a token with the text `end`. -/
def Place.blurred : Place → Place
  | .token text => if text = "end" then .inputEnd else .token text
  | .inputEnd => .inputEnd

def Diagnostic.blurred (diagnostic : Diagnostic) : Diagnostic :=
  { diagnostic with place? := diagnostic.place?.map Place.blurred }

theorem ShowsCode.unique {value : JsonValue} {code other : Code} (shown : ShowsCode value code)
    (again : ShowsCode value other) : code = other := by
  cases shown with
  | intro _ found =>
      cases again with
      | intro _ foundAgain => exact Option.some.inj (found.symm.trans foundAgain)

theorem Severity.text_injective {severity other : Severity} (same : severity.text = other.text) :
    severity = other := by
  cases severity <;> cases other <;> first | rfl | exact absurd same (by decide)

theorem ShowsSeverity.eq_text {value : JsonValue} {severity : Severity}
    (shown : ShowsSeverity value severity) : value = .string severity.text := by
  cases shown <;> rfl

theorem ShowsSeverity.unique {value : JsonValue} {severity other : Severity}
    (shown : ShowsSeverity value severity) (again : ShowsSeverity value other) :
    severity = other :=
  Severity.text_injective (JsonValue.string.inj (shown.eq_text.symm.trans again.eq_text))

theorem ShowsLine.unique {value : JsonValue} {line? other? : Option Nat}
    (shown : ShowsLine value line?) (again : ShowsLine value other?) : line? = other? := by
  cases shown <;> cases again <;> rfl

theorem ShowsPlace.unique {value : JsonValue} {place? other? : Option Place}
    (shown : ShowsPlace value place?) (again : ShowsPlace value other?) :
    place?.map Place.blurred = other?.map Place.blurred := by
  cases shown <;> cases again <;> rfl

theorem ShowsLabel.unique {item : JsonValue} {label other : Label}
    (shown : ShowsLabel item label) (again : ShowsLabel item other) : label = other := by
  have start := Option.some.inj (shown.start.symm.trans again.start)
  have stop := Option.some.inj (shown.stop.symm.trans again.stop)
  have message := Option.some.inj (shown.message.symm.trans again.message)
  have primary := Option.some.inj (shown.primary.symm.trans again.primary)
  obtain ⟨⟨_, _⟩, _, _⟩ := label
  obtain ⟨⟨_, _⟩, _, _⟩ := other
  cases start
  cases stop
  cases message
  cases primary
  rfl

/-- An object shows one diagnostic only, up to what a document leaves open. -/
theorem Shows.unique {item : JsonValue} {diagnostic other : Diagnostic}
    (shown : Shows item diagnostic) (again : Shows item other) :
    diagnostic.blurred = other.blurred := by
  obtain ⟨_, codeFound, code⟩ := shown.code
  obtain ⟨_, codeAgain, otherCode⟩ := again.code
  obtain ⟨_, severityFound, severity⟩ := shown.severity
  obtain ⟨_, severityAgain, otherSeverity⟩ := again.severity
  have message := Option.some.inj (shown.message.symm.trans again.message)
  obtain ⟨lineValue, lineFound, line⟩ := shown.line
  obtain ⟨_, lineAgain, otherLine⟩ := again.line
  obtain ⟨placeValue, placeFound, place⟩ := shown.place
  obtain ⟨_, placeAgain, otherPlace⟩ := again.place
  obtain ⟨items, itemsFound, labels⟩ := shown.labels
  obtain ⟨_, itemsAgain, otherLabels⟩ := again.labels
  have notes := Option.some.inj (shown.notes.symm.trans again.notes)
  cases codeFound.symm.trans codeAgain
  cases severityFound.symm.trans severityAgain
  cases lineFound.symm.trans lineAgain
  cases placeFound.symm.trans placeAgain
  cases itemsFound.symm.trans itemsAgain
  have sameCode := code.unique otherCode
  have sameSeverity := severity.unique otherSeverity
  have sameMessage := JsonValue.string.inj message
  have sameLine := line.unique otherLine
  have samePlace := place.unique otherPlace
  have sameLabels : diagnostic.labels = other.labels :=
    List.right_unique_forall₂' (fun _ _ _ shown again => shown.unique again) labels otherLabels
  have sameNotes : diagnostic.notes = other.notes :=
    List.map_injective_iff.mpr (fun _ _ => JsonValue.string.inj) (JsonValue.array.inj notes)
  unfold Diagnostic.blurred
  rw [sameCode, sameSeverity, sameMessage, sameLine, samePlace, sameLabels, sameNotes]

theorem Shows.unique_all {items : List JsonValue} {first second : List Diagnostic}
    (shown : List.Forall₂ Shows items first) (again : List.Forall₂ Shows items second) :
    first.map Diagnostic.blurred = second.map Diagnostic.blurred := by
  induction shown generalizing second with
  | nil => cases again with | nil => rfl
  | cons shows _ ih =>
      cases again with
      | cons showsAgain others => exact congrArg₂ List.cons (shows.unique showsAgain) (ih others)

theorem Place.json_blurred (place : Place) : place.blurred.json = place.json := by
  cases place with
  | inputEnd => rfl
  | token text =>
      rw [blurred]
      split
      · next same => rw [same]; rfl
      · rfl

namespace Diagnostic

theorem json_blurred (diagnostic : Diagnostic) : diagnostic.blurred.json = diagnostic.json := by
  have place : JsonValue.ofOption diagnostic.blurred.place? Place.json =
      JsonValue.ofOption diagnostic.place? Place.json := by
    unfold blurred JsonValue.ofOption
    rw [Option.map_map]
    exact congrArg (Option.getD · _) (congrArg (Option.map · _) (funext Place.json_blurred))
  unfold json
  rw [place]
  rfl

theorem jsonDocument_blurred (diagnostics : List Diagnostic) :
    jsonDocument (diagnostics.map blurred) = jsonDocument diagnostics := by
  have same : json ∘ blurred = json := funext json_blurred
  rw [jsonDocument, jsonDocument, List.map_map, same]

/-- Two lists with one document differ at most in places that are the end of the input in one and a
token with the text `end` in the other. -/
theorem jsonDocument_eq_iff (first second : List Diagnostic) :
    jsonDocument first = jsonDocument second ↔ first.map blurred = second.map blurred := by
  constructor
  · intro same
    have document := document_jsonDocument first
    rw [same] at document
    have items := JsonValue.array.inj (document.unique (document_jsonDocument second))
    have shown := shows_all first
    rw [items] at shown
    exact Shows.unique_all shown (shows_all second)
  · intro same
    rw [← jsonDocument_blurred first, same, jsonDocument_blurred]

/-- The end of the input is written as the token `end` is. -/
theorem inputEnd_written_as_token :
    let atToken : Diagnostic := { code := .invalidStatement, place? := some (.token "end") }
    let atEnd : Diagnostic := { code := .invalidStatement, place? := some .inputEnd }
    [atToken] ≠ [atEnd] ∧ jsonDocument [atToken] = jsonDocument [atEnd] :=
  ⟨by decide, rfl⟩

end Diagnostic

end Sipl
