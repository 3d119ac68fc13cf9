import Sipl.Proofs.Reader.StoringAgreement
import Sipl.Proofs.Run.Divergence
import Sipl.Proofs.Tree.TextAgreement

namespace Sipl

namespace StoredProgram

/-- Every number in the arena leads to a node that stands before, and to no other place.  So the
program can be written, outlined and run as its tree, and a run goes on without end only if the
program does. -/
structure Usable (stored : StoredProgram) (program : Program) : Prop where
  holds : stored.Holds program
  forest : stored.arena.Forest stored.root
  formatted : ∀ fuel, stored.arena.exprs.length + stored.arena.stmts.length ≤ fuel →
    stored.format fuel = pure program.format
  outlined : ∀ fuel, stored.arena.exprs.length + stored.arena.stmts.length ≤ fuel →
    stored.outline fuel = pure program.outline
  evaluated : ∀ fuel limit?, stored.evaluate fuel limit? =
    .ok (Sipl.evaluate fuel limit? program)
  ends : ∀ limit,
    (∃ enough, ∀ fuel, enough ≤ fuel →
      ∃ answer, stored.evaluate fuel (some limit) = .ok (some answer)) ∨
    ComesToEndless program (some limit) .empty program.body.stmts

theorem Holds.usable {stored : StoredProgram} {program : Program} (holds : stored.Holds program)
    (forest : stored.arena.Forest stored.root) : stored.Usable program where
  holds := holds
  forest := forest
  formatted := fun fuel enough => format_eq forest enough holds
  outlined := fun fuel enough => outline_eq forest enough holds
  evaluated := holds.evaluate_eq
  ends := by
    intro limit
    refine (means_or_endless program limit).imp_left fun told => ?_
    obtain ⟨answer, means⟩ := told
    obtain ⟨enough, ends⟩ := evaluate_of_means means
    refine ⟨enough, fun fuel more => ?_⟩
    obtain ⟨found, known, -⟩ := ends fuel more
    exact ⟨found, by rw [holds.evaluate_eq, known]⟩

end StoredProgram

namespace StoredParse

/-- Reading a stream that is closed by an end marker never breaks off.  It meets the errors that
reading trees meets, and if there is a program, its numbers lead to what was read.  Nodes that were
stored for what could not be read are part of the forest too. -/
theorem builds_forest (tokens : List Token) (closed : Token.Closed tokens) :
    ∃ stored, ofTokens tokens closed = .ok stored ∧
      stored.errors = (Parsed.ofTokens tokens closed).errors ∧
      (stored.root? = none → stored.arena = {}) ∧
      Option.Rel (fun root program => StoredProgram.Usable ⟨stored.arena, root⟩ program)
        stored.root? (Parsed.ofTokens tokens closed).program? := by
  have anything : Span.Closed fun _ => True := ⟨trivial, fun _ _ => trivial⟩
  obtain ⟨⟨root?, errors, arena⟩, made, follows, -⟩ :=
    ofCursor_follows anything (Cursor.among_start closed fun _ _ => trivial)
  refine ⟨_, made, follows.errors, follows.empty, ?_⟩
  obtain ⟨-, held, -, tidy⟩ := follows
  rw [Parsed.ofTokens]
  generalize (Parsed.ofCursor (.start tokens closed)).program? = program? at held ⊢
  cases held with
  | none => exact .none
  | some held =>
      exact .some (StoredProgram.Holds.usable held (Arena.Tidy.forest tidy))

/-- The tokens of `program begin x := f(1, 2; y := g(3) end`, where a call is not closed. -/
def unclosedTokens : List Token :=
  [⟨.programWord, "program", ⟨1, ⟨0, 7⟩⟩, none⟩, ⟨.beginWord, "begin", ⟨1, ⟨8, 13⟩⟩, none⟩,
    ⟨.ident, "x", ⟨1, ⟨14, 15⟩⟩, none⟩, ⟨.assign, ":=", ⟨1, ⟨16, 18⟩⟩, none⟩,
    ⟨.ident, "f", ⟨1, ⟨19, 20⟩⟩, none⟩, ⟨.leftParen, "(", ⟨1, ⟨20, 21⟩⟩, none⟩,
    ⟨.number, "1", ⟨1, ⟨21, 22⟩⟩, some (.int 1)⟩, ⟨.comma, ",", ⟨1, ⟨22, 23⟩⟩, none⟩,
    ⟨.number, "2", ⟨1, ⟨24, 25⟩⟩, some (.int 2)⟩, ⟨.semicolon, ";", ⟨1, ⟨25, 26⟩⟩, none⟩,
    ⟨.ident, "y", ⟨1, ⟨27, 28⟩⟩, none⟩, ⟨.assign, ":=", ⟨1, ⟨29, 31⟩⟩, none⟩,
    ⟨.ident, "g", ⟨1, ⟨32, 33⟩⟩, none⟩, ⟨.leftParen, "(", ⟨1, ⟨33, 34⟩⟩, none⟩,
    ⟨.number, "3", ⟨1, ⟨34, 35⟩⟩, some (.int 3)⟩, ⟨.rightParen, ")", ⟨1, ⟨35, 36⟩⟩, none⟩,
    ⟨.endWord, "end", ⟨1, ⟨37, 40⟩⟩, none⟩, ⟨.eof, "", ⟨1, ⟨40, 40⟩⟩, none⟩]

theorem builds_forest_of_unclosedTokens :
    ∃ stored root program, ofTokens unclosedTokens (by decide) = .ok stored ∧
      stored.root? = some root ∧ StoredProgram.Usable ⟨stored.arena, root⟩ program := by
  obtain ⟨stored, made, -, -, usable⟩ := builds_forest unclosedTokens (by decide)
  have read : (Parsed.ofTokens unclosedTokens (by decide)).program? = some ⟨_, _⟩ := rfl
  rw [read] at usable
  generalize known : stored.root? = root? at usable
  cases usable with
  | some usable => exact ⟨stored, _, _, made, known, usable⟩

-- The arguments of the call that is not closed stay behind, and nothing refers to them.
example : (ofTokens unclosedTokens (by decide)).map
    (fun stored => (stored.arena.exprs.length, stored.root?.map stored.arena.exprUses)) =
    .ok (4, some [2, 3]) := by
  cbv

end StoredParse

end Sipl
