import Mathlib.Data.List.Perm.Subperm
import Sipl.Proofs.Reader.Acceptance
import Sipl.Proofs.Reader.Tracks

namespace Sipl

namespace Keeper

section

open Reading

mutual

theorem tracked_disjunction {fuel : Nat} (cursor : Cursor)
    (enough : cursor.remaining * 16 + 8 ≤ fuel) :
    (trees.disjunction cursor).TrackedBy (watching.disjunction cursor) fuel
      Production.disjunction.rank 0 := by
  rw [disjunction, disjunction]
  apply tracked_enter .disjunction (by omega)
  apply tracked_andThen (tracked_conjunction cursor (by omega))
  · intro left later bound
    exact tracked_disjunctionTail left later (by omega)
  · exact Nat.le_refl 0
termination_by cursor.remaining * 16 + 11

theorem tracked_disjunctionTail {fuel : Nat} (left : Expr) (cursor : Cursor)
    (enough : cursor.remaining * 16 ≤ fuel) :
    (trees.disjunctionTail left cursor).TrackedBy (watching.disjunctionTail left cursor) fuel 0
      0 := by
  rw [disjunctionTail, disjunctionTail]
  split
  · apply tracked_turn .disjunction enough (Nat.zero_le _)
    intro operator behind less
    apply tracked_andThen (tracked_conjunction behind (by omega))
    · intro right later bound
      exact tracked_kept rfl (tracked_disjunctionTail _ later (by omega))
    · exact Nat.le_refl 0
  · exact tracked_done (Nat.le_refl 0)
termination_by cursor.remaining * 16 + 10

theorem tracked_conjunction {fuel : Nat} (cursor : Cursor)
    (enough : cursor.remaining * 16 + 7 ≤ fuel) :
    (trees.conjunction cursor).TrackedBy (watching.conjunction cursor) fuel
      Production.conjunction.rank 0 := by
  rw [conjunction, conjunction]
  apply tracked_enter .conjunction (by omega)
  apply tracked_andThen (tracked_comparison cursor (by omega))
  · intro left later bound
    exact tracked_conjunctionTail left later (by omega)
  · exact Nat.le_refl 0
termination_by cursor.remaining * 16 + 9

theorem tracked_conjunctionTail {fuel : Nat} (left : Expr) (cursor : Cursor)
    (enough : cursor.remaining * 16 ≤ fuel) :
    (trees.conjunctionTail left cursor).TrackedBy (watching.conjunctionTail left cursor) fuel 0
      0 := by
  rw [conjunctionTail, conjunctionTail]
  split
  · apply tracked_turn .conjunction enough (Nat.zero_le _)
    intro operator behind less
    apply tracked_andThen (tracked_unary behind (by omega))
    · intro right later bound
      exact tracked_kept rfl (tracked_conjunctionTail _ later (by omega))
    · exact Nat.le_refl 0
  · exact tracked_done (Nat.le_refl 0)
termination_by cursor.remaining * 16 + 8

theorem tracked_comparison {fuel : Nat} (cursor : Cursor)
    (enough : cursor.remaining * 16 + 6 ≤ fuel) :
    (trees.comparison cursor).TrackedBy (watching.comparison cursor) fuel
      Production.comparison.rank 0 := by
  rw [comparison, comparison]
  apply tracked_enter .comparison (by omega)
  apply tracked_andThen (tracked_additive cursor (by omega))
  · intro left later bound
    split
    · apply tracked_take (by omega) (Nat.zero_le 31)
      intro operator behind less
      exact tracked_finish (tracked_additive behind (by omega)) fun _ _ => rfl
    · exact tracked_done (Nat.le_refl 0)
  · exact Nat.le_refl 0
termination_by cursor.remaining * 16 + 7

theorem tracked_additive {fuel : Nat} (cursor : Cursor)
    (enough : cursor.remaining * 16 + 5 ≤ fuel) :
    (trees.additive cursor).TrackedBy (watching.additive cursor) fuel
      Production.additive.rank 0 := by
  rw [additive, additive]
  apply tracked_enter .additive (by omega)
  apply tracked_andThen (tracked_multiplicative cursor (by omega))
  · intro left later bound
    exact tracked_additiveTail left later (by omega)
  · exact Nat.le_refl 0
termination_by cursor.remaining * 16 + 6

theorem tracked_additiveTail {fuel : Nat} (left : Expr) (cursor : Cursor)
    (enough : cursor.remaining * 16 ≤ fuel) :
    (trees.additiveTail left cursor).TrackedBy (watching.additiveTail left cursor) fuel 0 0 := by
  rw [additiveTail, additiveTail]
  split
  · apply tracked_turn .additive enough (Nat.zero_le _)
    intro operator behind less
    apply tracked_andThen (tracked_multiplicative behind (by omega))
    · intro right later bound
      exact tracked_kept rfl (tracked_additiveTail _ later (by omega))
    · exact Nat.le_refl 0
  · exact tracked_done (Nat.le_refl 0)
termination_by cursor.remaining * 16 + 5

theorem tracked_multiplicative {fuel : Nat} (cursor : Cursor)
    (enough : cursor.remaining * 16 + 4 ≤ fuel) :
    (trees.multiplicative cursor).TrackedBy (watching.multiplicative cursor) fuel
      Production.multiplicative.rank 0 := by
  rw [multiplicative, multiplicative]
  apply tracked_enter .multiplicative (by omega)
  apply tracked_andThen (tracked_unary cursor (by omega))
  · intro left later bound
    split
    · apply tracked_take (by omega) (Nat.zero_le 31)
      intro operator behind less
      exact tracked_finish (tracked_multiplicative behind (by omega)) fun _ _ => rfl
    · exact tracked_done (Nat.le_refl 0)
  · exact Nat.le_refl 0
termination_by cursor.remaining * 16 + 4

theorem tracked_unary {fuel : Nat} (cursor : Cursor)
    (enough : cursor.remaining * 16 + 3 ≤ fuel) :
    (trees.unary cursor).TrackedBy (watching.unary cursor) fuel Production.unary.rank 0 := by
  rw [unary, unary]
  apply tracked_enter .unary (by omega)
  split
  · apply tracked_take (by omega) (by decide)
    intro operator behind less
    exact tracked_finish (tracked_unary behind (by omega)) fun _ _ => rfl
  · exact tracked_primary cursor (by omega)
termination_by cursor.remaining * 16 + 3

theorem tracked_primary {fuel : Nat} (cursor : Cursor)
    (enough : cursor.remaining * 16 + 2 ≤ fuel) :
    (trees.primary cursor).TrackedBy (watching.primary cursor) fuel Production.primary.rank 0 := by
  rw [primary, primary]
  apply tracked_enter .primary (by omega)
  split
  · apply tracked_take (by omega) (by decide)
    intro token behind less
    apply tracked_andThen (tracked_comparison behind (by omega))
    · intro inner later bound
      exact tracked_finish (tracked_expect (by decide) (by omega) (Nat.zero_le _)) fun _ _ => rfl
    · exact Nat.zero_le _
  · refine Reading.TrackedBy.weaken (tracked_enter .conditional (by omega) ?_) (by decide)
    apply tracked_take (by omega) (by decide)
    intro word behind less
    exact tracked_conditional word behind (by omega)
  · split
    · apply tracked_take (by omega) (by decide)
      intro token behind less
      exact tracked_kept rfl (tracked_done (Nat.le_refl 0))
    · exact tracked_fail (by decide)
  · apply tracked_take (by omega) (by decide)
    intro token behind less
    exact tracked_kept rfl (tracked_done (Nat.le_refl 0))
  · apply tracked_take (by omega) (by decide)
    intro token behind less
    exact tracked_kept rfl (tracked_done (Nat.le_refl 0))
  · split
    · refine Reading.TrackedBy.weaken (tracked_enter .call (by omega) ?_) (by decide)
      apply tracked_take (by omega) (by decide)
      intro name behind less
      exact tracked_call name behind (by omega)
    · apply tracked_take (by omega) (by decide)
      intro name behind less
      exact tracked_kept rfl (tracked_done (Nat.le_refl 0))
  · exact tracked_fail (by decide)
termination_by cursor.remaining * 16 + 2

theorem tracked_conditional {fuel : Nat} (word : Token) (cursor : Cursor)
    (enough : cursor.remaining * 16 + 8 ≤ fuel) :
    (trees.conditional word cursor).TrackedBy (watching.conditional word cursor) fuel 0 0 := by
  rw [conditional, conditional]
  apply tracked_andThen ((tracked_disjunction cursor (by omega)).weaken (Nat.zero_le _))
  · intro cond afterCond bound
    apply tracked_andThen (tracked_expect (by decide) (by omega) (Nat.zero_le _))
    · intro thenWord behindThen shorter
      apply tracked_andThen (tracked_comparison behindThen (by omega))
      · intro thenBranch afterThen rest
        split
        · apply tracked_take (by omega) (Nat.zero_le 31)
          intro elseWord behindElse less
          exact tracked_finish (tracked_comparison behindElse (by omega)) fun _ _ => rfl
        · exact tracked_kept rfl (tracked_done (Nat.le_refl 0))
      · exact Nat.le_refl 0
    · exact Nat.zero_le _
  · exact Nat.le_refl 0
termination_by cursor.remaining * 16 + 12

theorem tracked_call {fuel : Nat} (name : Token) (cursor : Cursor)
    (enough : cursor.remaining * 16 + 6 ≤ fuel) :
    (trees.call name cursor).TrackedBy (watching.call name cursor) fuel 0 0 := by
  rw [call, call]
  apply tracked_andThen (tracked_expect (by decide) (by omega) (Nat.zero_le _))
  · intro opening behind bound
    exact tracked_finish (tracked_arguments behind (by omega)) fun _ _ => rfl
  · exact Nat.le_refl 0
termination_by cursor.remaining * 16 + 15

theorem tracked_arguments {fuel : Nat} (cursor : Cursor)
    (enough : cursor.remaining * 16 + 6 ≤ fuel) :
    (trees.arguments cursor).TrackedBy (watching.arguments cursor) fuel 0 0 := by
  rw [arguments, arguments]
  split
  · apply tracked_take (by omega) (Nat.zero_le 31)
    intro token behind less
    exact tracked_done (Nat.le_refl 0)
  · apply tracked_andThen ((tracked_comparison cursor (by omega)).weaken (Nat.zero_le _))
    · intro first later bound
      exact tracked_finish (tracked_argumentsTail later (by omega)) fun _ _ => rfl
    · exact Nat.le_refl 0
termination_by cursor.remaining * 16 + 14

theorem tracked_argumentsTail {fuel : Nat} (cursor : Cursor)
    (enough : cursor.remaining * 16 ≤ fuel) :
    (trees.argumentsTail cursor).TrackedBy (watching.argumentsTail cursor) fuel 0 0 := by
  rw [argumentsTail, argumentsTail]
  split
  · apply tracked_take (by omega) (Nat.zero_le 31)
    intro token behind less
    exact tracked_done (Nat.le_refl 0)
  · split
    · apply tracked_turn .arguments enough (Nat.zero_le _)
      intro token behind less
      apply tracked_andThen (tracked_comparison behind (by omega))
      · intro next later bound
        exact tracked_finish (tracked_argumentsTail later (by omega)) fun _ _ => rfl
      · exact Nat.zero_le _
    · exact tracked_fail (Nat.zero_le _)
termination_by cursor.remaining * 16 + 13

end

theorem tracked_paramsTail {fuel : Nat} (cursor : Cursor) (enough : cursor.remaining * 16 ≤ fuel) :
    (trees.paramsTail cursor).TrackedBy (watching.paramsTail cursor) fuel 0 0 := by
  rw [paramsTail, paramsTail]
  split
  · apply tracked_turn .params enough (Nat.zero_le _)
    intro token behind less
    apply tracked_andThen (tracked_expectName (by omega) (Nat.zero_le _))
    · intro name later bound
      exact tracked_finish (tracked_paramsTail later (by omega)) fun _ _ => rfl
    · exact Nat.le_refl 0
  · exact tracked_done (Nat.le_refl 0)
termination_by cursor.remaining

theorem tracked_params {fuel : Nat} (cursor : Cursor) (enough : cursor.remaining * 16 + 1 ≤ fuel) :
    (trees.params cursor).TrackedBy (watching.params cursor) fuel Production.params.rank
      Production.disjunction.rank := by
  rw [params, params]
  apply tracked_enter .params (by omega)
  split
  · exact tracked_done (by decide)
  · apply tracked_andThen (tracked_expectName (by omega) (by decide))
    · intro name later bound
      exact (tracked_finish (tracked_paramsTail later (by omega)) fun _ _ => rfl).raise
        (Nat.zero_le _)
    · exact Nat.le_refl 0

theorem tracked_function {fuel : Nat} (word : Token) (cursor : Cursor)
    (enough : cursor.remaining * 16 + 6 ≤ fuel) :
    (trees.function word cursor).TrackedBy (watching.function word cursor) fuel 0 0 := by
  rw [function, function]
  apply tracked_andThen (tracked_expectName (by omega) (Nat.zero_le _))
  · intro name behindName bound
    apply tracked_andThen (tracked_expect (by decide) (by omega) (Nat.zero_le _))
    · intro leftParen behindOpen shorter
      refine tracked_andThen (tracked_params behindOpen (by omega)) ?_ (Nat.le_refl _)
      intro params afterParams rest
      apply tracked_andThen (tracked_expect (by decide) (by omega) (by decide))
      · intro rightParen behindClose less
        apply tracked_andThen (tracked_expect (by decide) (by omega) (Nat.zero_le _))
        · intro sign behindEq lessToo
          exact tracked_finish (tracked_comparison behindEq (by omega)) fun _ _ => rfl
        · exact Nat.zero_le _
      · exact Nat.zero_le _
    · exact Nat.zero_le _
  · exact Nat.le_refl 0

end

section

open Recovered

theorem tracked_abandonBlock {fuel : Nat} (cursor : Cursor) (missing : Kind) (message : String)
    (enough : cursor.remaining * 16 ≤ fuel) :
    (trees.abandonBlock cursor missing message).TrackedBy
      (watching.abandonBlock cursor missing message) fuel Loop.statements.rank
      Loop.statements.rank := by
  have fits : Loop.statements.rank ≤ 31 := by decide
  have skipped := tracked_skip .statementBoundary cursor enough fits
  have bound := (trees.skip .statementBoundary cursor).bound
  rw [abandonBlock, abandonBlock]
  refine Watched.ComesTo.bind skipped (.map (tracked_eat ?_ fits) rfl) (Nat.le_refl _)
  exact Nat.le_trans (Nat.mul_le_mul_right 16 bound) enough

theorem tracked_closeBlock {fuel : Nat} (cursor : Cursor)
    (enough : cursor.remaining * 16 ≤ fuel) :
    (trees.closeBlock cursor).TrackedBy (watching.closeBlock cursor) fuel Loop.statements.rank
      Loop.statements.rank := by
  rw [closeBlock, closeBlock]
  split
  · apply tracked_pass enough (by decide)
    intro behind less
    exact tracked_done (Nat.le_refl _)
  · exact tracked_abandonBlock cursor _ _ enough

mutual

theorem tracked_block {fuel : Nat} (cursor : Cursor) (enough : cursor.remaining * 16 + 1 ≤ fuel) :
    (trees.block cursor).TrackedBy (watching.block cursor) fuel Production.block.rank
      Loop.statements.rank := by
  rw [block, block]
  apply tracked_enter .block (by omega)
  split
  · apply tracked_pass (by omega) (by decide)
    intro behind less
    apply tracked_andThen (tracked_statements behind (by omega))
    · intro stmts later bound
      exact tracked_finish (tracked_closeBlock later (by omega)) fun _ _ => rfl
    · exact Nat.le_refl _
  · exact tracked_finish (tracked_abandonBlock cursor _ _ (by omega)) fun _ _ => rfl
termination_by cursor.remaining * 4 + 2

theorem tracked_statements {fuel : Nat} (cursor : Cursor)
    (enough : cursor.remaining * 16 + 1 ≤ fuel) :
    (trees.statements cursor).TrackedBy (watching.statements cursor) fuel
      Production.statement.rank Loop.statements.rank := by
  have first := tracked_orSkip .statementBoundary (by omega) (tracked_statement cursor enough)
    (Nat.le_refl _) (by decide)
  rw [statements, statements]
  refine tracked_andThen first ?_ (Nat.le_refl _)
  intro first later bound
  split
  · apply tracked_turn .statements (by omega) remaining_stop_pass_lt
    apply tracked_pass (by omega) (by decide)
    intro behind less
    exact tracked_finish (tracked_statements behind (by omega)) fun _ _ => rfl
  · exact tracked_done (Nat.le_refl _)
termination_by cursor.remaining * 4 + 1

theorem tracked_statement {fuel : Nat} (cursor : Cursor)
    (enough : cursor.remaining * 16 + 1 ≤ fuel) :
    (trees.statement cursor).TrackedBy (watching.statement cursor) fuel
      Production.statement.rank Loop.statements.rank := by
  rw [statement, statement]
  apply Reading.tracked_enter .statement (by omega)
  split
  · apply Reading.tracked_take (by omega) (by decide)
    intro word behind less
    apply Reading.tracked_andThen (tracked_disjunction behind (by omega))
    · intro cond afterCond bound
      apply Reading.tracked_andThen (Reading.tracked_expect (by decide) (by omega) (Nat.zero_le _))
      · intro thenWord behindThen shorter
        refine Reading.tracked_andThen (tracked_noted (tracked_block behindThen (by omega))) ?_
          (Nat.le_refl _)
        rintro ⟨thenBlock, errors⟩ afterThen rest
        dsimp only
        split
        · apply Reading.tracked_take (by omega) (by decide)
          intro elseWord behindElse lessToo
          exact Reading.tracked_finish (tracked_noted (tracked_block behindElse (by omega)))
            fun _ _ => rfl
        · exact Reading.tracked_kept rfl (Reading.tracked_done (Nat.le_refl _))
      · exact Nat.zero_le _
    · exact Nat.zero_le _
  · apply Reading.tracked_take (by omega) (by decide)
    intro word behind less
    apply Reading.tracked_andThen (tracked_disjunction behind (by omega))
    · intro cond afterCond bound
      apply Reading.tracked_andThen (Reading.tracked_expect (by decide) (by omega) (Nat.zero_le _))
      · intro doWord behindDo shorter
        exact Reading.tracked_finish (tracked_noted (tracked_block behindDo (by omega)))
          fun _ _ => rfl
      · exact Nat.zero_le _
    · exact Nat.zero_le _
  · apply Reading.tracked_take (by omega) (by decide)
    intro name behind less
    apply Reading.tracked_andThen (Reading.tracked_expect (by decide) (by omega) (Nat.zero_le _))
    · intro sign behindAssign bound
      exact (Reading.tracked_finish (tracked_disjunction behindAssign (by omega))
        fun _ _ => rfl).raise (Nat.zero_le _)
    · exact Nat.zero_le _
  · exact Reading.tracked_fail (by decide)
termination_by cursor.remaining * 4

end

/-- A turn of the loop takes a token also where the declaration cannot be read. -/
theorem tracked_functions {fuel : Nat} (cursor : Cursor)
    (enough : cursor.remaining * 16 + 2 ≤ fuel) :
    (trees.functions cursor).TrackedBy (watching.functions cursor) fuel Loop.functions.rank
      Loop.functions.rank := by
  rw [functions, functions]
  split
  · refine tracked_turn .functions (by omega) ?_ (tracked_enter .function (by omega) ?_)
    · exact remaining_stop_pass_lt
    apply tracked_pass (by omega) (by decide)
    intro behind less
    refine tracked_andThen (tracked_orSkip .declarationBoundary (by omega)
      (tracked_function cursor.current behind (by omega)) (Nat.zero_le _) (Nat.le_refl _)) ?_
      (Nat.le_refl Loop.functions.rank)
    intro declared later bound
    split
    · apply tracked_pass (by omega) (by decide)
      intro next lessToo
      exact tracked_finish (tracked_functions next (by omega)) fun _ _ => rfl
    · split
      · exact tracked_functions later (by omega)
      · exact tracked_done (Nat.le_refl _)
  · exact tracked_done (Nat.le_refl _)
termination_by cursor.remaining

theorem tracked_program {fuel : Nat} (cursor : Cursor) (enough : cursor.remaining * 16 + 1 ≤ fuel) :
    (trees.program cursor).TrackedBy (watching.program cursor) fuel Production.program.rank
      Loop.statements.rank := by
  rw [program, program]
  apply tracked_enter .program (by omega)
  split
  · apply tracked_pass (by omega) (by decide)
    intro behind less
    have bound := (trees.functions behind).bound
    refine Watched.ComesTo.bind (tracked_enter .functions (by omega)
      ((tracked_functions behind (by omega)).weaken (by decide))) ?_ (Nat.le_add_right _ 2)
    exact .map (tracked_block (trees.functions behind).stop (by omega)) rfl
  · exact Watched.ComesTo.pure _ _ cursor (Nat.add_le_add_left (by decide) _)

end

end Keeper

theorem Cursor.position_start {tokens : List Token} (closed : Token.Closed tokens) :
    (start tokens closed).position = 0 := by
  cases tokens with
  | nil => simp [Token.Closed] at closed
  | cons first others => rfl

/-- What a reader does over a stream of tokens, when it stops at a position. -/
structure Steady (tokens : List Token) (visits : List Visit) (stop : Nat) : Prop where
  /-- The cursor stays in the stream, and passes no end marker. -/
  inside : stop < tokens.length ∧ ∀ token ∈ tokens.take stop, token.kind ≠ .eof
  /-- The cursor never moves back. -/
  forward : visits.Pairwise fun earlier later => earlier.position ≤ later.position
  within : ∀ visit ∈ visits, visit.position ≤ stop
  /-- The tokens that are passed are taken, and no other one. -/
  taken : ∀ position, ⟨.take, position⟩ ∈ visits ↔ position < stop
  /-- Nothing is done twice at one place. -/
  nodup : visits.Nodup
  /-- A loop that goes round goes on to take the token where it does so. -/
  turns : ∀ front loop position back, visits = front ++ ⟨.turn loop, position⟩ :: back →
    ⟨.take, position⟩ ∈ back
  /-- Before a production is entered again, or a loop goes round again, the token is taken where
  that was done before. -/
  again : ∀ front activity position between later back, activity ≠ .take →
    visits = front ++ ⟨activity, position⟩ :: (between ++ ⟨activity, later⟩ :: back) →
    ⟨.take, position⟩ ∈ between
  /-- No more is done than the tokens allow. -/
  few : visits.length ≤ 32 * (stop + 1)

section

variable {front back : List Visit} {visit other : Visit}

theorem position_le_of_key_lt (before : visit.key < other.key) :
    visit.position ≤ other.position := by
  have ranks := And.intro visit.activity.rank_lt other.activity.rank_lt
  simp only [Visit.key] at before
  omega

theorem mem_after (ordered : (front ++ visit :: back).Pairwise fun one two => one.key < two.key)
    (member : other ∈ front ++ visit :: back) (after : visit.key < other.key) : other ∈ back := by
  rcases List.mem_append.mp member with inFront | behind
  · have before := (List.pairwise_append.mp ordered).2.2 other inFront visit List.mem_cons_self
    omega
  · rcases List.mem_cons.mp behind with same | inBack
    · rw [same] at after
      omega
    · exact inBack

theorem mem_before (ordered : (front ++ visit :: back).Pairwise fun one two => one.key < two.key)
    (member : other ∈ front ++ visit :: back) (before : other.key < visit.key) :
    other ∈ front := by
  rcases List.mem_append.mp member with inFront | behind
  · exact inFront
  · rcases List.mem_cons.mp behind with same | inBack
    · rw [same] at before
      omega
    · have after := (List.pairwise_cons.mp (List.pairwise_append.mp ordered).2.1).1 other inBack
      omega

/-- To take the token is the last that is done at one place. -/
theorem Visit.key_lt_take {activity : Activity} {position later : Nat} (other : activity ≠ .take)
    (before : position ≤ later) : Visit.key ⟨activity, position⟩ < Visit.key ⟨.take, later⟩ := by
  have rank : activity.rank < 31 := by
    cases activity with
    | enter production => cases production <;> decide
    | turn loop => cases loop <;> decide
    | take => exact absurd rfl other
  simp only [key, Activity.rank_take]
  omega

end

namespace Visited

variable {start stop : Cursor} {visits : List Visit} {low high : Nat}

/-- The keys of the visits are different numbers. -/
theorem length_le (visited : Visited start stop visits low high) : visits.length ≤ high := by
  have distinct : (visits.map Visit.key).Nodup :=
    List.pairwise_map.mpr (visited.ordered.imp Nat.ne_of_lt)
  have among : visits.map Visit.key ⊆ List.range high := by
    intro key member
    obtain ⟨visit, inside, rfl⟩ := List.mem_map.mp member
    exact List.mem_range.mpr (visited.below visit inside)
  simpa using (List.Nodup.subperm distinct among).length_le

theorem nodup (visited : Visited start stop visits low high) : visits.Nodup := by
  apply visited.ordered.imp
  intro earlier later before same
  rw [same] at before
  omega

theorem taken_behind_turn (visited : Visited start stop visits low high) {front back : List Visit}
    {loop : Loop} {position : Nat} (split : visits = front ++ ⟨.turn loop, position⟩ :: back)
    (begins : start.position = 0) : ⟨.take, position⟩ ∈ back := by
  subst split
  have passed := visited.paid loop position (by simp)
  apply mem_after visited.ordered (visited.taken position (by omega) passed)
  exact Visit.key_lt_take (by simp) (Nat.le_refl _)

theorem taken_between (visited : Visited start stop visits low high)
    {front between back : List Visit} {activity : Activity} {position later : Nat}
    (other : activity ≠ .take)
    (split : visits = front ++ ⟨activity, position⟩ :: (between ++ ⟨activity, later⟩ :: back))
    (begins : start.position = 0) (within : later ≤ stop.position) :
    ⟨.take, position⟩ ∈ between := by
  subst split
  have rest := List.pairwise_cons.mp (List.pairwise_append.mp visited.ordered).2.1
  have before := rest.1 ⟨activity, later⟩ (by simp)
  simp only [Visit.key] at before
  have forward : position < later := by omega
  have taken := visited.taken position (by omega) (by omega)
  have behind := mem_after visited.ordered taken (Visit.key_lt_take other (Nat.le_refl _))
  apply mem_before rest.2 behind
  simp only [Visit.key, Activity.rank_take]
  omega

/-- From the start of a stream, reading passes the tokens in front of where it stops. -/
theorem tokens_eq {tokens : List Token} {closed : Token.Closed tokens}
    (visited : Visited (.start tokens closed) stop visits low high) :
    ∃ front, tokens = front ++ stop.upcoming ∧ front.length = stop.position ∧
      ∀ token ∈ front, token.kind ≠ .eof := by
  obtain ⟨front, passes⟩ := visited.passes
  refine ⟨front, ?_, ?_, passes.inside⟩
  · rw [← passes.upcoming, Parsed.upcoming_start]
  · rw [passes.position_eq, Cursor.position_start, Nat.zero_add]

theorem steady {tokens : List Token} {closed : Token.Closed tokens}
    (visited : Visited (.start tokens closed) stop visits 0 (stop.position * 32 + 31)) :
    Steady tokens visits stop.position := by
  have begins := Cursor.position_start closed
  have within : ∀ visit ∈ visits, visit.position ≤ stop.position := by
    intro visit member
    have below := visited.below visit member
    simp only [Visit.key] at below
    omega
  refine ⟨?_, visited.ordered.imp position_le_of_key_lt, within, ?_, visited.nodup, ?_, ?_, ?_⟩
  · obtain ⟨front, whole, length, inside⟩ := visited.tokens_eq
    rw [← length, whole, List.take_left]
    exact ⟨by simp [Cursor.upcoming], inside⟩
  · intro position
    constructor
    · intro member
      have below := visited.below _ member
      simp only [Visit.key, Activity.rank_take] at below
      omega
    · exact visited.taken position (by omega)
  · intro front loop position back split
    exact visited.taken_behind_turn split begins
  · intro front activity position between later back other split
    exact visited.taken_between other split begins (within ⟨activity, later⟩ (by simp [split]))
  · have bound := visited.length_le
    omega

end Visited

namespace Parsed

/-- Reading ends on every stream that is closed by an end marker, after a number of steps in
proportion to its tokens, and on the way the cursor, the loops and the productions move on. -/
theorem reading_moves_on (tokens : List Token) (closed : Token.Closed tokens) (fuel : Nat)
    (enough : tokens.length * 16 ≤ fuel) :
    ∃ read visits, watching.program (.start tokens closed) fuel = some (read, visits) ∧
      ofRead read = ofTokens tokens closed ∧ Steady tokens visits read.stop.position := by
  have length := congrArg List.length (upcoming_start closed)
  simp only [Cursor.upcoming, List.length_cons] at length
  have paid : (Cursor.start tokens closed).remaining * 16 + 1 ≤ fuel := by
    simp only [Cursor.remaining]
    omega
  obtain ⟨visits, same, visited⟩ := Keeper.tracked_program _ paid
  refine ⟨_, visits, same, rfl, Visited.steady (visited.mono (Nat.zero_le _) ?_)⟩
  exact Nat.add_le_add_left (by decide) _

/-- The tokens of `program func f(1; begin if end`, where the number has no value and a second end
marker stands in front of `begin`. -/
def brokenTokens : List Token :=
  [⟨.programWord, "program", ⟨1, ⟨0, 7⟩⟩, none⟩, ⟨.funcWord, "func", ⟨1, ⟨8, 12⟩⟩, none⟩,
    ⟨.ident, "f", ⟨1, ⟨13, 14⟩⟩, none⟩, ⟨.leftParen, "(", ⟨1, ⟨14, 15⟩⟩, none⟩,
    ⟨.number, "1", ⟨1, ⟨15, 16⟩⟩, none⟩, ⟨.semicolon, ";", ⟨1, ⟨16, 17⟩⟩, none⟩,
    ⟨.eof, "", ⟨1, ⟨17, 17⟩⟩, none⟩, ⟨.beginWord, "begin", ⟨1, ⟨18, 23⟩⟩, none⟩,
    ⟨.ifWord, "if", ⟨1, ⟨24, 26⟩⟩, none⟩, ⟨.endWord, "end", ⟨1, ⟨27, 30⟩⟩, none⟩,
    ⟨.eof, "", ⟨1, ⟨30, 30⟩⟩, none⟩]

theorem reading_moves_on_of_brokenTokens :
    ∃ read visits, watching.program (.start brokenTokens (by decide)) 176 = some (read, visits) ∧
      ofRead read = ofTokens brokenTokens (by decide) ∧
      Steady brokenTokens visits read.stop.position :=
  reading_moves_on brokenTokens (by decide) 176 (by decide)

end Parsed

end Sipl
