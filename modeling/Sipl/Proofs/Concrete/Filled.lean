import Sipl.Proofs.Concrete.Programs
import Sipl.Proofs.Format.Slots

namespace Sipl

namespace Concrete

open Token Ink

/-- The tokens of an expression, or as many balanced ones as there are words. -/
def FillsSlot (tokens : List Token) : Slot → Prop
  | .frame words => BalancedIn tokens ∧ inners Token.side tokens = inners wordSide words
  | .value expr =>
    ∃ term : Term, term.tokens = tokens ∧ term.Formed ∧ term.tree.unplaced = expr.unplaced

inductive Fills : List Token → List Slot → Prop where
  | nil : Fills [] []
  | cons {tokens more : List Token} {slot : Slot} {slots : List Slot}
      (first : FillsSlot tokens slot) (rest : Fills more slots) :
      Fills (tokens ++ more) (slot :: slots)

section Fills

variable {tokens more : List Token} {token : Token} {slots others : List Slot} {term : Term}
  {expr : Expr}

theorem FillsSlot.balanced {slot : Slot} (fills : FillsSlot tokens slot) : BalancedIn tokens := by
  cases slot with
  | frame words => exact fills.1
  | value expr =>
      obtain ⟨term, rfl, formed, _⟩ := fills
      exact term.balanced formed

theorem FillsSlot.inners {slot : Slot} (fills : FillsSlot tokens slot) (ready : slot.Ready) :
    inners Token.side tokens = inners wordSide slot.words := by
  cases slot with
  | frame words => exact fills.2
  | value expr =>
      obtain ⟨term, rfl, formed, same⟩ := fills
      exact (Term.inners_of_tree formed same).trans (expr.counted ready).inners.symm

namespace Fills

theorem append (first : Fills tokens slots) (rest : Fills more others) :
    Fills (tokens ++ more) (slots ++ others) := by
  induction first with
  | nil => exact rest
  | cons fills _ ih =>
      rw [List.append_assoc]
      exact .cons fills ih

theorem value (formed : term.Formed) (same : term.tree.unplaced = expr.unplaced)
    (rest : Fills more slots) : Fills (term.tokens ++ more) (.value expr :: slots) :=
  .cons ⟨term, rfl, formed, same⟩ rest

theorem word {kind : Kind} {word : String} (same : token.kind = kind) (rest : Fills more slots)
    (plain : kind.side = .inner := by rfl) (also : wordSide word = .inner := by rfl) :
    Fills (token :: more) (.frame [word] :: slots) := by
  have one : FillsSlot [token] (.frame [word]) :=
    ⟨balanced_token same plain, by rw [inners_token same plain, inners_inner also]; rfl⟩
  exact .cons one rest

theorem inners_eq (fills : Fills tokens slots) (ready : ∀ slot ∈ slots, slot.Ready) :
    inners Token.side tokens = inners wordSide (slots.flatMap Slot.words) := by
  induction fills with
  | nil => rfl
  | cons first _ ih =>
      obtain ⟨one, rest⟩ := List.forall_mem_cons.mp ready
      rw [List.flatMap_cons, inners_append, inners_append, first.inners one, ih rest]

/-- No pair of parentheses of the words can be left out, but around a conditional that is an
operand: with the depths of the words that remain, no tokens fill the slots. -/
theorem around (fills : Fills tokens slots) (ready : ∀ slot ∈ slots, slot.Ready)
    {front middle back : List String}
    (pair : Pair wordSide (slots.flatMap Slot.words) front middle back) (free : ¬ BehindName front)
    (alike : depths Token.side 0 tokens = depths wordSide 0 (front ++ (middle ++ back))) :
    AroundOperand front middle back := by
  induction fills generalizing front back with
  | nil => exact absurd pair Pair.not_nil
  | @cons tokens more slot slots first rest ih =>
      obtain ⟨one, others⟩ := List.forall_mem_cons.mp ready
      rw [List.flatMap_cons] at pair
      -- The words of a slot are balanced, so the pair stands in the first slot or behind it.
      rcases pair.append one.balanced with ⟨behind, within, rfl⟩ | ⟨ahead, later, rfl⟩
      · have split : front ++ (middle ++ (behind ++ slots.flatMap Slot.words)) =
            front ++ (middle ++ behind) ++ slots.flatMap Slot.words := by simp
        rw [split] at alike
        have long := (first.inners one).trans within.inners_without.symm
        obtain ⟨alikeFirst, _⟩ :=
          first.balanced.split_depths (within.without one.balanced) long alike
        cases slot with
        | frame words => exact absurd (one.2 _ _ _ within) free
        | value expr =>
            obtain ⟨term, rfl, formed, same⟩ := first
            have mirrors : term.Mirrors expr 0 (front ++ (middle ++ behind)) :=
              ⟨formed, same, alikeFirst⟩
            exact (expr.needsPairs one 0 term _ _ _ within free mirrors).append_right
      · have split : slot.words ++ ahead ++ (middle ++ back) =
            slot.words ++ (ahead ++ (middle ++ back)) := List.append_assoc ..
        rw [split] at alike
        obtain ⟨_, alikeRest⟩ :=
          first.balanced.split_depths one.balanced (first.inners one) alike
        exact (ih others later (free ∘ BehindName.append) alikeRest).append_left

end Fills

end Fills

mutual

theorem Statement.fills (stmt : Statement) {made : Stmt} (formed : stmt.Formed)
    (same : stmt.tree.unplaced = made.unplaced) (writable : made.Writable) :
    Fills stmt.tokens made.slots := by
  match stmt, made with
  | .assign name assign value, .assign _ target expr =>
      obtain ⟨named, assigned, inside⟩ := formed
      obtain ⟨isName, _⟩ := writable
      obtain ⟨_, rfl, sameValue⟩ := Stmt.assign.inj same
      have long : inners Token.side [name, assign] = inners wordSide [name.lexeme, ":="] := by
        rw [inners_inner (side_of_kind named), inners_inner (side_of_kind assigned),
          inners_inner (wordSide_of_isName isName), inners_inner rfl]
        rfl
      have frame : FillsSlot [name, assign] (.frame [name.lexeme, ":="]) :=
        ⟨balanced_behind named (balanced_token assigned), long⟩
      have tail := Fills.value inside sameValue .nil
      rw [List.append_nil] at tail
      exact .cons frame tail
  | .ifThen ifWord cond thenWord thenBlock, .ifThen _ test branch =>
      obtain ⟨isIf, condition, isThen, inside⟩ := formed
      obtain ⟨_, sameCond, sameBlock⟩ := Stmt.ifThen.inj same
      have rest := thenBlock.fills inside sameBlock writable.2
      exact .word isIf (.value condition sameCond (.word isThen rest))
  | .ifElse ifWord cond thenWord thenBlock elseWord elseBlock, .ifElse _ test first second =>
      obtain ⟨isIf, condition, isThen, inside, isElse, other⟩ := formed
      obtain ⟨_, sameCond, sameFirst, sameSecond⟩ := Stmt.ifElse.inj same
      have branch := thenBlock.fills inside sameFirst writable.2.1
      have rest := elseBlock.fills other sameSecond writable.2.2
      refine .word isIf (.value condition sameCond (.word isThen ?_))
      exact branch.append (.word isElse rest)
  | .whileLoop whileWord cond doWord body, .whileLoop _ test inner =>
      obtain ⟨isWhile, condition, isDo, inside⟩ := formed
      obtain ⟨_, sameCond, sameBlock⟩ := Stmt.whileLoop.inj same
      have rest := body.fills inside sameBlock writable.2
      exact .word isWhile (.value condition sameCond (.word isDo rest))

theorem Block.fills (block : Block) {made : Sipl.Block} (formed : block.Formed)
    (same : block.tree.unplaced = made.unplaced) (writable : made.Writable) :
    Fills block.tokens made.slots := by
  match block, made with
  | .mk _ _ _, .mk _ [] => cases same
  | .mk opening first others, .mk _ (stmt :: stmts) =>
      obtain ⟨begins, inside, rest⟩ := formed
      obtain ⟨_, trees⟩ := Sipl.Block.mk.inj same
      obtain ⟨sameFirst, sameOthers⟩ := List.cons.inj trees
      exact .word begins ((first.fills inside sameFirst writable.1).append
        (others.fills rest sameOthers writable.2))

theorem Statements.fills (others : Statements) {stmts : List Stmt} (formed : others.Formed)
    (same : stmtsUnplaced others.trees = stmtsUnplaced stmts) (writable : StmtsWritable stmts) :
    Fills others.tokens (stmtsSlots stmts) := by
  match others, stmts with
  | .closed closing, [] => exact .word formed .nil
  | .next semicolon stmt others, made :: stmts =>
      obtain ⟨separates, inside, rest⟩ := formed
      obtain ⟨sameFirst, sameOthers⟩ := List.cons.inj same
      exact .word separates ((stmt.fills inside sameFirst writable.1).append
        (others.fills rest sameOthers writable.2))

end

theorem ParamsTail.inners_tokens (others : ParamsTail) (formed : others.Formed) :
    inners Token.side others.tokens = 2 * others.trees.length := by
  induction others with
  | closed closing => exact inners_closing (side_of_kind formed)
  | next comma name others ih =>
      obtain ⟨isComma, named, rest⟩ := formed
      rw [tokens, inners_inner (side_of_kind isComma), inners_inner (side_of_kind named), ih rest,
        trees, List.length_cons]
      omega

theorem inners_paramWords {params : List Param} (named : ∀ param ∈ params, IsName param.name) :
    inners wordSide (paramWords params) = 2 * params.length := by
  induction params with
  | nil => rfl
  | cons param params ih =>
      obtain ⟨one, rest⟩ := List.forall_mem_cons.mp named
      have split : paramWords (param :: params) = "," :: param.name :: paramWords params := rfl
      rw [split, inners_inner rfl, inners_inner (wordSide_of_isName one), ih rest, List.length_cons]
      omega

theorem Params.inners_tokens (params : Params) {made : List Param} (formed : params.Formed)
    (long : params.trees.length = made.length) (named : ∀ param ∈ made, IsName param.name) :
    inners Token.side params.tokens =
      inners wordSide (words (commaSeparated (made.map fun param => [Ink.word param.name]))) := by
  match params, made with
  | .none closing, [] => exact inners_closing (side_of_kind formed)
  | .some name others, first :: rest =>
      obtain ⟨one, later⟩ := List.forall_mem_cons.mp named
      have same : others.trees.length = rest.length := Nat.succ.inj long
      rw [tokens, words_params, inners_inner (side_of_kind formed.1),
        inners_inner (wordSide_of_isName one), others.inners_tokens formed.2,
        inners_paramWords later, same]

theorem Declaration.fills (declaration : Declaration) {function : Function}
    (formed : declaration.Formed) (same : declaration.tree.unplaced = function.unplaced)
    (writable : function.Writable) : Fills declaration.tokens function.slots := by
  obtain ⟨word, name, opening, params, eq, body⟩ := declaration
  obtain ⟨_, _, sameParams, sameBody⟩ := Function.mk.inj same
  have long : params.trees.length = function.params.length := by
    have sameLength := congrArg List.length sameParams
    rwa [List.length_map, List.length_map] at sameLength
  have balanced : BalancedIn ((word :: name :: opening :: params.tokens) ++ [eq]) :=
    (balanced_behind formed.word (balanced_behind formed.name
      ((params.closes formed.params).balanced formed.opening))).append (balanced_token formed.eq)
  have alike : inners Token.side ((word :: name :: opening :: params.tokens) ++ [eq]) =
      inners wordSide function.header := by
    rw [inners_append, inners_inner (side_of_kind formed.word),
      inners_inner (side_of_kind formed.name), inners_opening (side_of_kind formed.opening),
      params.inners_tokens formed.params long writable.params, inners_token formed.eq,
      Function.header, inners_append, inners_inner rfl,
      inners_inner (wordSide_of_isName writable.named), inners_opening rfl, inners_append,
      inners_closing rfl]
    rfl
  have split : Declaration.tokens ⟨word, name, opening, params, eq, body⟩ =
      ((word :: name :: opening :: params.tokens) ++ [eq]) ++ (body.tokens ++ []) := by
    simp [Declaration.tokens]
  rw [split]
  exact .cons ⟨balanced, alike⟩ (.value formed.body sameBody .nil)

/-- Behind the last declaration may stand a semicolon that has no slot. -/
theorem Declarations.fills (declarations : Declarations) {functions : List Function}
    (formed : declarations.Formed)
    (same : declarations.trees.map Function.unplaced = functions.map Function.unplaced)
    (writable : ∀ function ∈ functions, function.Writable) :
    ∃ front, Fills front (functionsSlots functions) ∧
      (declarations.tokens = front ∨
        ∃ semicolon, semicolon.kind = .semicolon ∧ declarations.tokens = front ++ [semicolon]) := by
  induction declarations generalizing functions with
  | none =>
      obtain rfl := List.map_eq_nil_iff.mp same.symm
      exact ⟨[], .nil, .inl rfl⟩
  | last one =>
      obtain ⟨function, others, rfl, sameOne, sameOthers⟩ := List.map_eq_cons_iff.mp same.symm
      obtain rfl := List.map_eq_nil_iff.mp sameOthers
      exact ⟨one.tokens, one.fills formed sameOne.symm (writable function List.mem_cons_self),
        .inl rfl⟩
  | more one semicolon others ih =>
      obtain ⟨function, rest, rfl, sameOne, sameOthers⟩ := List.map_eq_cons_iff.mp same.symm
      obtain ⟨formedOne, separates, formedOthers⟩ := formed
      obtain ⟨writableOne, writableRest⟩ := List.forall_mem_cons.mp writable
      have first := one.fills formedOne sameOne.symm writableOne
      cases rest with
      | nil =>
          cases others with
          | none => exact ⟨one.tokens, first, .inr ⟨semicolon, separates, rfl⟩⟩
          | last _ => cases sameOthers
          | more _ _ _ => cases sameOthers
      | cons next rest =>
          obtain ⟨front, fills, ends⟩ := ih formedOthers sameOthers.symm writableRest
          refine ⟨one.tokens ++ semicolon :: front, first.append (.word separates fills), ?_⟩
          rcases ends with whole | ⟨second, isSemicolon, whole⟩
          · exact .inl (by rw [tokens, whole])
          · exact .inr ⟨second, isSemicolon, by rw [tokens, whole]; simp⟩

/-- With as many tokens as there are words, no semicolon is left over. -/
theorem Program.fills (program : Program) {made : Sipl.Program} (formed : program.Formed)
    (same : program.tree.unplaced = made.unplaced) (writable : made.Writable)
    (long : inners Token.side program.tokens =
      inners wordSide (made.slots.flatMap Slot.words)) :
    Fills program.tokens made.slots := by
  obtain ⟨sameFunctions, sameBody⟩ := Sipl.Program.mk.inj same
  have body := program.body.fills formed.body sameBody writable.body
  obtain ⟨front, fills, ends⟩ :=
    program.declarations.fills formed.declarations sameFunctions writable.functions
  have whole : Fills (program.word :: (front ++ program.body.tokens)) made.slots :=
    .word formed.word (fills.append body)
  rcases ends with none | ⟨semicolon, separates, one⟩
  · rwa [Program.tokens, none]
  · -- The semicolon would be one token more than there are words.
    rw [← whole.inners_eq (Program.slots_ready writable), Program.tokens, one] at long
    simp only [inners_inner (side_of_kind formed.word), inners_append,
      inners_token separates] at long
    omega

end Concrete

end Sipl
