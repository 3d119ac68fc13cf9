import Sipl.CommandLine.Command
import Sipl.Proofs.Run.Agreement
import Sipl.Proofs.Run.NumberedNames
import Sipl.Proofs.Run.Reported
import Sipl.Proofs.Text.ByteOrder
import Sipl.Proofs.Tree.OutlineReading

namespace Sipl

open Machine Reference JsonGrammar

/-- The literal that a value is written as. -/
def Value.literal : Value → Literal
  | int value => .int value
  | bool value => .bool value

namespace Value

theorem text_literal (value : Value) : value.literal.text = value.text := by
  cases value <;> rfl

theorem text_injective {value other : Value} (same : value.text = other.text) : value = other := by
  rw [← text_literal, ← text_literal] at same
  have literals := Literal.text_injective same
  cases value <;> cases other <;> cases literals <;> rfl

theorem lacks_comma (value : Value) : Lacks ',' value.text := by
  cases value with
  | bool truth => cases truth <;> decide
  | int number =>
      intro member
      rcases Literal.char_of_mem_text member with sign | digit
      · cases sign
      · cases digit

end Value

namespace Bindings

/-- What is written of one variable. -/
def entryText (entry : String × Value) : String := entry.1 ++ ": " ++ entry.2.text

theorem text_eq (bindings : Bindings) :
    bindings.text = "\x7b" ++ ", ".intercalate (bindings.entries.map entryText) ++ "\x7d" := rfl

variable {entry other : String × Value}

theorem whole_entryText (word : IsWord entry.1) :
    entryText entry ≠ "" ∧ Lacks ',' (entryText entry) := by
  refine ⟨fun empty => ?_, ((word.lacks rfl).append (by decide)).append entry.2.lacks_comma⟩
  rw [entryText, String.append_assoc] at empty
  exact word.1 (String.append_eq_empty_iff.mp empty).1

theorem entryText_injective (word : IsWord entry.1) (wordToo : IsWord other.1)
    (same : entryText entry = entryText other) : entry = other := by
  rw [entryText, entryText, String.append_assoc, String.append_assoc] at same
  obtain ⟨names, values⟩ := word.append_inj wordToo (by simp; decide) (by simp; decide) same
  exact Prod.ext names (Value.text_injective ((String.append_right_inj ": ").mp values))

theorem text_injective {first second : Bindings} (words : ∀ name ∈ first.names, IsWord name)
    (wordsToo : ∀ name ∈ second.names, IsWord name) (same : first.text = second.text) :
    first = second := by
  have named : ∀ {bindings : Bindings}, (∀ name ∈ bindings.names, IsWord name) →
      ∀ entry ∈ bindings.entries, IsWord entry.1 := fun words entry member =>
    words entry.1 (List.mem_map_of_mem member)
  have whole : ∀ {bindings : Bindings}, (∀ name ∈ bindings.names, IsWord name) →
      ∀ text ∈ bindings.entries.map entryText, text ≠ "" ∧ Lacks ',' text := by
    intro bindings words text member
    obtain ⟨entry, inside, rfl⟩ := List.mem_map.mp member
    exact whole_entryText (named words entry inside)
  rw [text_eq, text_eq, String.append_left_inj, String.append_right_inj] at same
  have texts := intercalate_injective (whole words) (whole wordsToo) same
  have entries : first.entries.map id = second.entries.map id :=
    map_eq_of_map_eq texts fun entry member other memberToo =>
      entryText_injective (named words entry member) (named wordsToo other memberToo)
  rw [List.map_id, List.map_id] at entries
  exact congrArg mk entries

/-- The bindings as JSON are read as an object with these members and as nothing else. -/
theorem document_json_iff (bindings : Bindings) (value : JsonValue) :
    Document bindings.json.inline value ↔ value = bindings.json := by
  constructor
  · intro document
    exact document.unique bindings.json.document_inline
  · intro same
    rw [same]
    exact bindings.json.document_inline

end Bindings

variable {program : Program} {limit? : Option Nat} {fuel : Nat} {machine : Machine}

theorem distinct_globals (ran : execProgram fuel limit? program = (.ok (), machine)) :
    machine.scopes.globals.Distinct := by
  have known : (execProgram fuel limit? program).verdict = some (.ok ()) := by
    rw [ran]
    rfl
  obtain ⟨effect, leaves, _⟩ := (traced program limit? fuel).stmts (.start limit?)
    (Option.isSome_iff_exists.mpr ⟨_, known⟩)
  cases effect with
  | ok names =>
      have final : (execProgram fuel limit? program).2 = machine := by rw [ran]
      obtain ⟨distinct, _⟩ := leaves.2.scopes.get?_globals
      exact final ▸ distinct
  | error cause => cases known.symm.trans leaves

/-- The global variables are among the names of the program. -/
theorem mem_names_of_global (ran : execProgram fuel limit? program = (.ok (), machine))
    {entry : String × Value} (member : entry ∈ machine.scopes.globals) :
    entry.1 ∈ program.names := by
  have start : ({} : Environment).BindsGlobally fun _ => False := ⟨rfl, by simp⟩
  have binds := bindsGlobally_execAll (by exact start) ran
  rcases (binds.names entry.1).mp (List.mem_map_of_mem member) with found | nothing
  · obtain ⟨stmt, inside, site, value, rfl⟩ := found
    have listed : Stmt.assign site entry.1 value ∈ program.stmts := by
      refine List.mem_flatMap.mpr ⟨program.body, ?_, inside⟩
      cases program.body
      exact List.mem_cons_self
    have target : entry.1 ∈ program.stmts.filterMap Stmt.target? :=
      List.mem_filterMap.mpr ⟨_, listed, rfl⟩
    rw [Program.names]
    simp [target]
  · exact nothing.elim

theorem evaluate_eq_ok_iff {bindings : Bindings} :
    evaluate fuel limit? program = some (.ok bindings) ↔
      ∃ machine, execProgram fuel limit? program = (.ok (), machine) ∧
        .ofList machine.scopes.globals = bindings := by
  rw [evaluate]
  split
  · next machine ran => simp [ran]
  · next failed => simp [failed]
  · next unfinished => simp [unfinished]

theorem words_of_runSource {source : String} {bindings : Bindings}
    (ended : runSource fuel limit? source = some (.success bindings)) :
    ∀ name ∈ bindings.names, IsWord name := by
  intro name member
  rw [runSource] at ended
  split at ended
  · cases ended
  · split at ended
    · cases ended
    · next program found =>
        obtain ⟨answer, answered, same⟩ := Option.map_eq_some_iff.mp ended
        cases answer with
        | error error => cases same
        | ok reported =>
            obtain ⟨machine, ran, rfl⟩ := evaluate_eq_ok_iff.mp answered
            cases same
            obtain ⟨entry, inside, rfl⟩ :=
              List.mem_map.mp (Bindings.mem_names_ofList.mp member)
            exact (Program.writable_ofSource found).words entry.1 (mem_names_of_global ran inside)

/-- A run that succeeds reports its global variables, each of them once and in the byte order of
their names, whatever the order in which they are listed under the numbers of their names.  What is
written of bindings tells what they are: as JSON with any names, and as text with words for names,
which all names are that a source text can bind. -/
theorem globals_are_reported_in_full :
    (∀ program limit? fuel bindings, evaluate fuel limit? program = some (.ok bindings) →
      ∃ machine, execProgram fuel limit? program = (.ok (), machine) ∧
        bindings.entries.Perm machine.scopes.globals ∧
        bindings.names.Pairwise (fun first second => bytes first < bytes second) ∧
        ∀ read later listed, (∀ name ∈ program.names, name ∈ read) →
          listed.Perm ((NameTable.initial.internAll read).numbered machine.scopes.globals) →
          (listed.map Prod.fst).Nodup ∧
            .ofList ((NameTable.initial.internAll (read ++ later)).named listed) = bindings) ∧
    (∀ (bindings : Bindings) value, Document (bindings.render .json) value ↔
      value = .object (bindings.entries.map fun entry => (entry.1, entry.2.json))) ∧
    (∀ first second : Bindings, (∀ name ∈ first.names, IsWord name) →
      (∀ name ∈ second.names, IsWord name) →
      (first.render .text = second.render .text ↔ first = second)) ∧
    ∀ source limit? fuel bindings, runSource fuel limit? source = some (.success bindings) →
      ∀ name ∈ bindings.names, IsWord name := by
  refine ⟨?_, Bindings.document_json_iff, ?_, fun _ _ _ _ => words_of_runSource⟩
  · intro program limit? fuel bindings succeeded
    obtain ⟨machine, ran, rfl⟩ := evaluate_eq_ok_iff.mp succeeded
    have distinct := distinct_globals ran
    refine ⟨machine, ran, Bindings.perm_ofList distinct, ?_, ?_⟩
    · have listed : Lists (.ofList machine.scopes.globals) _ :=
        Bindings.lists_ofList distinct fun _ => rfl
      exact List.pairwise_map.mpr (listed.ordered.imp bytes_lt_bytes)
    · intro read later listed known listing
      have numbered : ∀ entry ∈ machine.scopes.globals,
          entry.1 ∈ (NameTable.initial.internAll read).names := fun entry member =>
        NameTable.mem_internAll (known entry.1 (mem_names_of_global ran member))
      rw [NameTable.internAll_append]
      exact Bindings.ofList_named distinct numbered (NameTable.prefix_internAll _ later) listing
  · intro first second words wordsToo
    exact ⟨Bindings.text_injective words wordsToo, fun same => by rw [same]⟩

/-- The tree of `program begin b := 1; a := 2 = 2 end`, which binds its variables in another order
than they are reported in. -/
def swappedProgram : Program where
  functions := []
  body := .mk ⟨8, 36⟩ [
    .assign ⟨1, ⟨14, 20⟩⟩ "b" (.literal ⟨1, ⟨19, 20⟩⟩ (.int 1)),
    .assign ⟨1, ⟨22, 32⟩⟩ "a" (.arith ⟨1, ⟨27, 32⟩⟩ .eq (.literal ⟨1, ⟨27, 28⟩⟩ (.int 2))
      (.literal ⟨1, ⟨31, 32⟩⟩ (.int 2)))]

def swappedBindings : Bindings := ⟨[("a", .bool true), ("b", .int 1)]⟩

/-- The variables are listed here as they are reported; they are numbered as they were read, behind
the empty text. -/
theorem globals_are_reported_in_full_of_swappedProgram :
    evaluate 3 none swappedProgram = some (.ok swappedBindings) ∧
      .ofList ((NameTable.initial.internAll ["b", "a", "c"]).named [(2, .bool true), (1, .int 1)]) =
        swappedBindings ∧
      runSource 3 none "program begin b := 1; a := 2 = 2 end" = some (.success swappedBindings) ∧
      (∀ name ∈ swappedBindings.names, IsWord name) ∧
      swappedBindings.render .text ≠ Bindings.render ⟨[("a", .bool true)]⟩ .text := by
  have succeeded : evaluate 3 none swappedProgram = some (.ok swappedBindings) := by rfl
  have ended : runSource 3 none "program begin b := 1; a := 2 = 2 end" =
      some (.success swappedBindings) := by with_unfolding_all rfl
  have words := globals_are_reported_in_full.2.2.2 _ none 3 swappedBindings ended
  have wordsToo : ∀ name ∈ Bindings.names ⟨[("a", .bool true)]⟩, IsWord name := by decide
  have known : ∀ name ∈ swappedProgram.names, name ∈ ["b", "a"] := by decide
  obtain ⟨machine, ran, _, _, listed⟩ :=
    globals_are_reported_in_full.1 swappedProgram none 3 swappedBindings succeeded
  cases ran
  refine ⟨succeeded, (listed ["b", "a"] ["c"] _ known (by decide)).2, ended, words, ?_⟩
  exact (not_congr (globals_are_reported_in_full.2.2.1 swappedBindings _ words wordsToo)).mpr
    (by decide)

end Sipl
