import Sipl.Proofs.Concrete.Faithfulness
import Sipl.Proofs.Concrete.Filled
import Sipl.Proofs.Format.Adjacent
import Sipl.Proofs.Format.Canonical

namespace Sipl

open Ink Scan

/-- In front of the end marker, the tokens have the depths of the words. -/
theorem Spelled.depths_eq {tokens : List Token} {words : List String}
    (spelled : Spelled tokens words) (depth : Nat) :
    depths Token.side depth (Concrete.beforeEnd tokens) = depths wordSide depth words := by
  induction spelled generalizing depth with
  | ended closed => simp [Concrete.beforeEnd, closed, depths]
  | @token token tokens words spells literal rest ih =>
      have inside : token.kind ≠ .eof := spells.ne_eof
      have same : token.side = wordSide token.lexeme := (wordSide_of_spells spells).symm
      have split : Concrete.beforeEnd (token :: tokens) = token :: Concrete.beforeEnd tokens :=
        List.takeWhile_cons_of_pos (bne_iff_ne.mpr inside)
      rw [split]
      cases turns : wordSide token.lexeme with
      | opening => rw [depths_opening turns, depths_opening (same.trans turns), ih]
      | closing => rw [depths_closing turns, depths_closing (same.trans turns), ih]
      | inner => rw [depths_inner turns, depths_inner (same.trans turns), ih]

namespace Program

variable {program again : Program} {front middle back : List Ink}

theorem pair_words (printed : program.inks = front ++ word "(" :: (middle ++ word ")" :: back))
    (matching : WellBracketed wordSide (words middle)) :
    Pair wordSide (words program.inks) (words front) (words middle) (words back) :=
  ⟨⟨"(", ")", rfl, rfl, by simp [printed, words]⟩, matching⟩

/-- Text that lacks a pair of parentheses is read as the same program only if the pair stood around
a conditional that is an operand. -/
theorem around_of_reread (writable : program.Writable)
    (printed : program.inks = front ++ word "(" :: (middle ++ word ")" :: back))
    (matching : WellBracketed wordSide (words middle)) (free : ¬ BehindName (words front))
    (clean : (Analysis.ofSource (render (front ++ (middle ++ back)))).diagnostics = [])
    (found : (Analysis.ofSource (render (front ++ (middle ++ back)))).parsed.program? = some again)
    (same : again.unplaced = program.unplaced) :
    AroundOperand (words front) (words middle) (words back) := by
  have legible : Legible none (front ++ (middle ++ back)) :=
    .without (printed ▸ legible_inks writable) (printed ▸ joined_inks writable) free
  obtain ⟨spelled, _⟩ := spelled_scanFrom 0 1 legible
  rw [← toList_render] at spelled
  obtain ⟨written, stop, tree, formed, passes, ended⟩ :=
    Concrete.exists_program (Analysis.diagnostics_eq_nil_iff.mp clean).2
  obtain rfl : written.tree = again := Option.some.inj (tree.symm.trans found)
  have whole := Concrete.beforeEnd_eq passes ended
  rw [Parsed.upcoming_start] at whole
  have alike : depths Token.side 0 written.tokens =
      depths wordSide 0 (words front ++ (words middle ++ words back)) := by
    rw [← whole, ← words_append, ← words_append]
    exact spelled.depths_eq 0
  -- A tree has a fixed number of words, which leaving out parentheses does not change.
  have pair := pair_words printed matching
  have ready := slots_ready writable
  have long : inners Token.side written.tokens = inners wordSide (words program.inks) := by
    rw [← pair.inners_without, ← length_depths 0, alike, length_depths]
  rw [words_slots writable] at pair long
  exact (written.fills formed same writable long).around ready pair free alike

/-- Canonical text of a source without problems holds no unnecessary parentheses.  If any pair is
left out that does not hold arguments or parameters and does not stand around a conditional that is
an operand, the rest has a problem or is read as another tree, also up to places. -/
theorem parentheses_are_needed (source : String)
    (clean : (Analysis.ofSource source).diagnostics = []) :
    ∃ program, (Analysis.ofSource source).parsed.program? = some program ∧
      ∀ front middle back : List Ink,
        program.inks = front ++ word "(" :: (middle ++ word ")" :: back) →
        WellBracketed wordSide (words middle) → ¬ BehindName (words front) →
        ¬ AroundOperand (words front) (words middle) (words back) →
        program.format = render front ++ "(" ++ render middle ++ ")" ++ render back ∧
          ((Analysis.ofSource (render front ++ render middle ++ render back)).diagnostics ≠ [] ∨
            ∃ again,
              (Analysis.ofSource (render front ++ render middle ++ render back)).parsed.program? =
                some again ∧ again.unplaced ≠ program.unplaced) := by
  obtain ⟨program, found, writable, _⟩ := exists_of_clean clean
  refine ⟨program, found, fun front middle back printed matching free operand => ⟨?_, ?_⟩⟩
  · apply String.toList_inj.mp
    rw [toList_format, printed]
    simp [toList_render, chars]
  · have rest :
        render front ++ render middle ++ render back = render (front ++ (middle ++ back)) := by
      apply String.toList_inj.mp
      simp [toList_render]
    rw [rest]
    by_cases fine : (Analysis.ofSource (render (front ++ (middle ++ back)))).diagnostics = []
    · obtain ⟨again, foundAgain, _⟩ := exists_of_clean fine
      exact .inr ⟨again, foundAgain, fun same =>
        operand (around_of_reread writable printed matching free fine foundAgain same)⟩
    · exact .inl fine

def groupedSource : String := "program begin x := if p then (if q then a) else (a + b) * c end"

/-- What is written up to the parentheses of the first branch. -/
def groupedFront : List Ink :=
  [word "program", line 0, word "begin", line 4, word "x", space, word ":=", space, word "if",
    space, word "p", space, word "then", space]

def groupedBranch : List Ink :=
  [word "if", space, word "q", space, word "then", space, word "a"]

def groupedSum : List Ink := [word "a", space, word "+", space, word "b"]

def groupedBack : List Ink :=
  [space, word "*", space, word "c", line 0, word "end", line 0]

theorem parentheses_are_needed_of_grouped :
    (Analysis.ofSource groupedSource).diagnostics = [] ∧
      ∃ program, (Analysis.ofSource groupedSource).parsed.program? = some program ∧
        program.format =
          "program\nbegin\n    x := if p then (if q then a) else (a + b) * c\nend\n" ∧
        ∀ text ∈ ["program\nbegin\n    x := if p then if q then a else (a + b) * c\nend\n",
            "program\nbegin\n    x := if p then (if q then a) else a + b * c\nend\n"],
          (Analysis.ofSource text).diagnostics ≠ [] ∨
            ∃ again, (Analysis.ofSource text).parsed.program? = some again ∧
              again.unplaced ≠ program.unplaced := by
  have clean : (Analysis.ofSource groupedSource).diagnostics = [] := by decide +kernel
  obtain ⟨program, found, needed⟩ := parentheses_are_needed groupedSource clean
  have read : (Analysis.ofSource groupedSource).parsed.program?.map Program.inks =
      some (groupedFront ++ word "(" :: (groupedBranch ++ word ")" ::
        ([space, word "else", space, word "("] ++ groupedSum ++ word ")" :: groupedBack))) := by
    decide +kernel
  rw [found] at read
  have printed := Option.some.inj read
  have behindThen : ¬ BehindName (words groupedFront) := by
    rintro ⟨name, last, named⟩
    obtain rfl : "then" = name := Option.some.inj last
    cases named.kind_unique (.of_reserved (by decide : Kind.thenWord ∈ _))
  have behindElse : ¬ BehindName (words (groupedFront ++ word "(" :: groupedBranch ++
      [word ")", space, word "else", space])) := by
    rintro ⟨name, last, named⟩
    obtain rfl : "else" = name := Option.some.inj last
    cases named.kind_unique (.of_reserved (by decide : Kind.elseWord ∈ _))
  obtain ⟨format, branch⟩ := needed _ _ _ printed (by decide) behindThen
    (by unfold AroundOperand; decide)
  obtain ⟨_, sum⟩ := needed (groupedFront ++ word "(" :: groupedBranch ++
      [word ")", space, word "else", space]) groupedSum groupedBack
    (printed.trans (by decide)) (by decide) behindElse (by unfold AroundOperand; decide)
  exact ⟨clean, program, found, format,
    List.forall_mem_cons.mpr ⟨branch, List.forall_mem_singleton.mpr sum⟩⟩

end Program

end Sipl
