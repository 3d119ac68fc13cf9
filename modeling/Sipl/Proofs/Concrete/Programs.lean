import Sipl.Proofs.Concrete.ReadTerms
import Sipl.Proofs.Reader.Acceptance

namespace Sipl

namespace Concrete

mutual

inductive Statement where
  | assign (name assign : Token) (value : Term)
  | ifThen (ifWord : Token) (cond : Term) (thenWord : Token) (thenBlock : Block)
  | ifElse (ifWord : Token) (cond : Term) (thenWord : Token) (thenBlock : Block)
      (elseWord : Token) (elseBlock : Block)
  | whileLoop (whileWord : Token) (cond : Term) (doWord : Token) (body : Block)

inductive Block where
  | mk (opening : Token) (first : Statement) (others : Statements)

/-- What stands behind a statement of a block. -/
inductive Statements where
  | closed (closing : Token)
  | next (semicolon : Token) (stmt : Statement) (others : Statements)

end

mutual

def Statement.tokens : Statement → List Token
  | .assign name assign value => name :: assign :: value.tokens
  | .ifThen ifWord cond thenWord thenBlock =>
    ifWord :: (cond.tokens ++ thenWord :: thenBlock.tokens)
  | .ifElse ifWord cond thenWord thenBlock elseWord elseBlock =>
    ifWord :: (cond.tokens ++ thenWord :: (thenBlock.tokens ++ elseWord :: elseBlock.tokens))
  | .whileLoop whileWord cond doWord body => whileWord :: (cond.tokens ++ doWord :: body.tokens)

def Block.tokens : Block → List Token
  | .mk opening first others => opening :: (first.tokens ++ others.tokens)

def Statements.tokens : Statements → List Token
  | .closed closing => [closing]
  | .next semicolon stmt others => semicolon :: (stmt.tokens ++ others.tokens)

end

def Statements.last : Statements → Token
  | .closed closing => closing
  | .next _ _ others => others.last

def Block.last : Block → Token
  | .mk _ _ others => others.last

def Statement.last : Statement → Token
  | .assign _ _ value => value.last
  | .ifThen _ _ _ thenBlock => thenBlock.last
  | .ifElse _ _ _ _ _ elseBlock => elseBlock.last
  | .whileLoop _ _ _ body => body.last

mutual

/-- What the reader makes of a statement. -/
def Statement.tree : Statement → Stmt
  | .assign name _ value => .assign (siteBetween name value.last) name.lexeme value.tree
  | .ifThen ifWord cond _ thenBlock =>
    .ifThen (siteBetween ifWord thenBlock.last) cond.tree thenBlock.tree
  | .ifElse ifWord cond _ thenBlock _ elseBlock =>
    .ifElse (siteBetween ifWord elseBlock.last) cond.tree thenBlock.tree elseBlock.tree
  | .whileLoop whileWord cond _ body =>
    .whileLoop (siteBetween whileWord body.last) cond.tree body.tree

def Block.tree : Block → Sipl.Block
  | .mk opening first others =>
    .mk (siteBetween opening others.last).span (first.tree :: others.trees)

def Statements.trees : Statements → List Stmt
  | .closed _ => []
  | .next _ stmt others => stmt.tree :: others.trees

end

mutual

/-- The tokens are of the kinds that the grammar asks for. -/
def Statement.Formed : Statement → Prop
  | .assign name assign value => name.kind = .ident ∧ assign.kind = .assign ∧ value.Formed
  | .ifThen ifWord cond thenWord thenBlock =>
    ifWord.kind = .ifWord ∧ cond.Formed ∧ thenWord.kind = .thenWord ∧ thenBlock.Formed
  | .ifElse ifWord cond thenWord thenBlock elseWord elseBlock =>
    ifWord.kind = .ifWord ∧ cond.Formed ∧ thenWord.kind = .thenWord ∧ thenBlock.Formed ∧
      elseWord.kind = .elseWord ∧ elseBlock.Formed
  | .whileLoop whileWord cond doWord body =>
    whileWord.kind = .whileWord ∧ cond.Formed ∧ doWord.kind = .doWord ∧ body.Formed

def Block.Formed : Block → Prop
  | .mk opening first others => opening.kind = .beginWord ∧ first.Formed ∧ others.Formed

def Statements.Formed : Statements → Prop
  | .closed closing => closing.kind = .endWord
  | .next semicolon stmt others => semicolon.kind = .semicolon ∧ stmt.Formed ∧ others.Formed

end

/-- What stands behind a parameter. -/
inductive ParamsTail where
  | closed (closing : Token)
  | next (comma name : Token) (others : ParamsTail)

inductive Params where
  | none (closing : Token)
  | some (name : Token) (others : ParamsTail)

namespace ParamsTail

def tokens : ParamsTail → List Token
  | closed closing => [closing]
  | next comma name others => comma :: name :: others.tokens

def trees : ParamsTail → List Param
  | closed _ => []
  | next _ name others => Reader.paramOf name :: others.trees

def Formed : ParamsTail → Prop
  | closed closing => closing.kind = .rightParen
  | next comma name others => comma.kind = .comma ∧ name.kind = .ident ∧ others.Formed

end ParamsTail

namespace Params

def tokens : Params → List Token
  | none closing => [closing]
  | some name others => name :: others.tokens

def trees : Params → List Param
  | none _ => []
  | some name others => Reader.paramOf name :: others.trees

def Formed : Params → Prop
  | none closing => closing.kind = .rightParen
  | some name others => name.kind = .ident ∧ others.Formed

end Params

structure Declaration where
  word : Token
  name : Token
  opening : Token
  params : Params
  eq : Token
  body : Term

namespace Declaration

def tokens (declaration : Declaration) : List Token :=
  declaration.word :: declaration.name :: declaration.opening ::
    (declaration.params.tokens ++ declaration.eq :: declaration.body.tokens)

def tree (declaration : Declaration) : Function where
  site := siteBetween declaration.word declaration.body.last
  name := declaration.name.lexeme
  params := declaration.params.trees
  body := declaration.body.tree

structure Formed (declaration : Declaration) : Prop where
  word : declaration.word.kind = .funcWord
  name : declaration.name.kind = .ident
  opening : declaration.opening.kind = .leftParen
  params : declaration.params.Formed
  eq : declaration.eq.kind = .eq
  body : declaration.body.Formed
  tight : declaration.body.Tight .comparison

end Declaration

/-- The declarations in front of the main block.  A semicolon may stand behind the last one. -/
inductive Declarations where
  | none
  | last (one : Declaration)
  | more (one : Declaration) (semicolon : Token) (others : Declarations)

namespace Declarations

def tokens : Declarations → List Token
  | none => []
  | last one => one.tokens
  | more one semicolon others => one.tokens ++ semicolon :: others.tokens

def trees : Declarations → List Function
  | none => []
  | last one => [one.tree]
  | more one _ others => one.tree :: others.trees

def Formed : Declarations → Prop
  | none => True
  | last one => one.Formed
  | more one semicolon others => one.Formed ∧ semicolon.kind = .semicolon ∧ others.Formed

end Declarations

structure Program where
  word : Token
  declarations : Declarations
  body : Block

namespace Program

def tokens (program : Program) : List Token :=
  program.word :: (program.declarations.tokens ++ program.body.tokens)

def tree (program : Program) : Sipl.Program := ⟨program.declarations.trees, program.body.tree⟩

structure Formed (program : Program) : Prop where
  word : program.word.kind = .programWord
  declarations : program.declarations.Formed
  body : program.body.Formed

end Program

open Reader Cursor

theorem Statements.tokens_eq (others : Statements) :
    ∃ front, others.tokens = front ++ [others.last] := by
  match others with
  | .closed closing => exact ⟨[], rfl⟩
  | .next semicolon stmt others =>
      obtain ⟨front, same⟩ := others.tokens_eq
      exact ⟨semicolon :: (stmt.tokens ++ front), by simp [tokens, last, same]⟩

theorem Block.tokens_eq (block : Block) : ∃ front, block.tokens = front ++ [block.last] := by
  obtain ⟨opening, first, others⟩ := block
  obtain ⟨front, same⟩ := others.tokens_eq
  exact ⟨opening :: (first.tokens ++ front), by simp [tokens, last, same]⟩

theorem Statement.tokens_eq (stmt : Statement) : ∃ front, stmt.tokens = front ++ [stmt.last] := by
  cases stmt with
  | assign name assign value =>
      obtain ⟨front, same⟩ := value.tokens_eq
      exact ⟨name :: assign :: front, by simp [tokens, last, same]⟩
  | ifThen ifWord cond thenWord thenBlock =>
      obtain ⟨front, same⟩ := thenBlock.tokens_eq
      exact ⟨ifWord :: (cond.tokens ++ thenWord :: front), by simp [tokens, last, same]⟩
  | ifElse ifWord cond thenWord thenBlock elseWord elseBlock =>
      obtain ⟨front, same⟩ := elseBlock.tokens_eq
      exact ⟨ifWord :: (cond.tokens ++ thenWord :: (thenBlock.tokens ++ elseWord :: front)),
        by simp [tokens, last, same]⟩
  | whileLoop whileWord cond doWord body =>
      obtain ⟨front, same⟩ := body.tokens_eq
      exact ⟨whileWord :: (cond.tokens ++ doWord :: front), by simp [tokens, last, same]⟩

theorem Declaration.tokens_eq (declaration : Declaration) :
    ∃ front, declaration.tokens = front ++ [declaration.body.last] := by
  obtain ⟨word, name, opening, params, eq, body⟩ := declaration
  obtain ⟨front, same⟩ := body.tokens_eq
  exact ⟨word :: name :: opening :: (params.tokens ++ eq :: front), by simp [tokens, same]⟩

theorem Block.previousSpan_eq {block : Block} {start stop : Cursor}
    (passes : start.Passes block.tokens stop) : stop.previousSpan = block.last.site.span := by
  obtain ⟨front, same⟩ := block.tokens_eq
  rw [same] at passes
  exact passes.previousSpan

/-- What code that is read between two cursors is written as. -/
def CodeWritten (start : Cursor) (code : Reader.Code) (stop : Cursor) : Prop :=
  match code with
  | .block made => ∃ block : Block,
      block.tree = made ∧ start.Passes block.tokens stop ∧ block.Formed
  | .statements stmts => stop.kind = .endWord → ∃ (first : Statement) (others : Statements),
      first.tree :: others.trees = stmts ∧
        start.Passes (first.tokens ++ others.tokens) stop.advance ∧ first.Formed ∧ others.Formed
  | .statement made => ∃ stmt : Statement,
      stmt.tree = made ∧ start.Passes stmt.tokens stop ∧ stmt.Formed

theorem written_of_builds {start stop : Cursor} {code : Reader.Code} {errors : List SyntaxError}
    (builds : Builds start code errors stop) (clean : errors = []) :
    CodeWritten start code stop := by
  -- Rules that report an error do not apply, so nothing was skipped between the parts.
  induction builds with
  | block opened _ closed ihInner =>
      obtain ⟨first, others, rfl, passes, formed, rest⟩ := ihInner clean closed
      have whole : Passes _ (Block.mk _ first others).tokens _ :=
        .cons (inside_of_kind opened) passes
      refine ⟨.mk _ first others, ?_, whole, opened, formed, rest⟩
      rw [Block.tree, Block.previousSpan_eq whole]
      rfl
  | empty => cases clean
  | last _ _ ihOne =>
      intro ended
      obtain ⟨stmt, rfl, passes, formed⟩ := ihOne clean
      exact ⟨stmt, .closed _, rfl, passes.concat (inside_of_kind ended), formed, ended⟩
  | more _ semicolon _ ihOne ihRest =>
      intro ended
      obtain ⟨cleanOne, cleanRest⟩ := List.append_eq_nil_iff.mp clean
      obtain ⟨stmt, rfl, passes, formed⟩ := ihOne cleanOne
      obtain ⟨next, others, rfl, tail, nextFormed, rest⟩ := ihRest cleanRest ended
      exact ⟨stmt, .next _ next others, rfl, passes.around (inside_of_kind semicolon) tail, formed,
        semicolon, nextFormed, rest⟩
  | ifThen word condition thenWord _ _ ihOnly =>
      obtain ⟨cond, taken⟩ := written_of_reads condition
      obtain ⟨thenBlock, rfl, passes, formed⟩ := ihOnly clean
      refine ⟨.ifThen _ cond _ thenBlock, ?_, .cons (inside_of_kind word)
        (taken.passes.around (inside_of_kind thenWord) passes), word, taken.formed, thenWord,
        formed⟩
      rw [Statement.tree, siteBetween, taken.tree, Block.previousSpan_eq passes]
  | ifElse word condition thenWord _ elseWord _ ihFirst ihSecond =>
      obtain ⟨cleanFirst, cleanSecond⟩ := List.append_eq_nil_iff.mp clean
      obtain ⟨cond, taken⟩ := written_of_reads condition
      obtain ⟨thenBlock, rfl, passes, formed⟩ := ihFirst cleanFirst
      obtain ⟨elseBlock, rfl, rest, elseFormed⟩ := ihSecond cleanSecond
      refine ⟨.ifElse _ cond _ thenBlock _ elseBlock, ?_, .cons (inside_of_kind word)
        (taken.passes.around (inside_of_kind thenWord)
          (passes.around (inside_of_kind elseWord) rest)),
        word, taken.formed, thenWord, formed, elseWord, elseFormed⟩
      rw [Statement.tree, siteBetween, taken.tree, Block.previousSpan_eq rest]
  | whileLoop word condition doWord _ ihOnly =>
      obtain ⟨cond, taken⟩ := written_of_reads condition
      obtain ⟨body, rfl, passes, formed⟩ := ihOnly clean
      refine ⟨.whileLoop _ cond _ body, ?_, .cons (inside_of_kind word)
        (taken.passes.around (inside_of_kind doWord) passes), word, taken.formed, doWord, formed⟩
      rw [Statement.tree, siteBetween, taken.tree, Block.previousSpan_eq passes]
  | assign name assign source =>
      obtain ⟨value, taken⟩ := written_of_reads source
      refine ⟨.assign _ _ value, ?_, .cons (inside_of_kind name)
        (.cons (inside_of_kind assign) taken.passes), name, assign, taken.formed⟩
      rw [Statement.tree, siteBetween, taken.tree, Term.previousSpan_eq taken.passes]

/-- What a declaration that is read between two cursors is written as.  Parameters are read up to
their closing parenthesis. -/
def DeclarationWritten (start : Cursor) (declaration : Reader.Declaration) (stop : Cursor) : Prop :=
  match declaration with
  | .params found => stop.kind = .rightParen → ∃ params : Params,
      params.trees = found ∧ start.Passes params.tokens stop.advance ∧ params.Formed
  | .paramsTail found => stop.kind = .rightParen → ∃ others : ParamsTail,
      others.trees = found ∧ start.Passes others.tokens stop.advance ∧ others.Formed
  | .function word found => ∀ opening : Cursor, opening.kind = .funcWord →
      opening.current = word → opening.advance = start → ∃ declaration : Declaration,
        declaration.tree = found ∧ opening.Passes declaration.tokens stop ∧ declaration.Formed
  | .functions found => ∃ declarations : Declarations,
      declarations.trees = found ∧ start.Passes declarations.tokens stop ∧ declarations.Formed

theorem written_of_declares {start stop : Cursor} {declaration : Reader.Declaration}
    (declares : Declares start declaration stop) : DeclarationWritten start declaration stop := by
  induction declares with
  | noParams => exact fun closed => ⟨.none _, rfl, .advance (inside_of_kind closed), closed⟩
  | params name _ ihTail =>
      intro closed
      obtain ⟨others, rfl, passes, formed⟩ := ihTail closed
      exact ⟨.some _ others, rfl, .cons (inside_of_kind name) passes, name, formed⟩
  | paramsEnd => exact fun closed => ⟨.closed _, rfl, .advance (inside_of_kind closed), closed⟩
  | paramsMore comma name _ ihTail =>
      intro closed
      obtain ⟨others, rfl, passes, formed⟩ := ihTail closed
      have whole := Passes.cons (inside_of_kind comma) (.cons (inside_of_kind name) passes)
      exact ⟨.next _ _ others, rfl, whole, comma, name, formed⟩
  | function name opened _ closed eq value ihInner =>
      intro opening word same behind
      subst same behind
      obtain ⟨params, rfl, passes, formed⟩ := ihInner closed
      obtain ⟨body, taken, _⟩ := written_of_reads value
      refine ⟨⟨_, _, _, params, _, body⟩, ?_, .cons (inside_of_kind word)
        (.cons (inside_of_kind name) (.cons (inside_of_kind opened)
          (passes.around (inside_of_kind eq) taken.passes))),
        ⟨word, name, opened, formed, eq, taken.formed, taken.tight⟩⟩
      rw [Declaration.tree, siteBetween, taken.tree, Term.previousSpan_eq taken.passes]
  | noFunctions => exact ⟨.none, rfl, .refl _, trivial⟩
  | functionsLast word _ _ ihDeclared =>
      obtain ⟨one, rfl, passes, formed⟩ := ihDeclared _ word rfl rfl
      exact ⟨.last one, rfl, passes, formed⟩
  | functionsMore word _ semicolon _ ihDeclared ihRest =>
      obtain ⟨one, rfl, passes, formed⟩ := ihDeclared _ word rfl rfl
      obtain ⟨others, rfl, rest, restFormed⟩ := ihRest
      exact ⟨.more one _ others, rfl, passes.around (inside_of_kind semicolon) rest, formed,
        semicolon, restFormed⟩

theorem program?_ofCursor {cursor later stop : Cursor} {found : List Function}
    {body : Sipl.Block} {errors : List SyntaxError} (word : cursor.kind = .programWord)
    (declares : Declares cursor.advance (.functions found) later)
    (builds : Builds later (.block body) errors stop) :
    (Parsed.ofCursor cursor).program? = some ⟨found, body⟩ := by
  obtain ⟨sameFunctions, _, sameLater⟩ := declared_of_declares declares
  obtain ⟨sameBody, _, _⟩ := built_of_builds builds
  rw [Parsed.program?_ofCursor word, sameFunctions, sameLater, sameBody]

/-- A stream that is read without an error holds, in front of its end marker, the tokens of a
program whose tree is what was read. -/
theorem exists_program {cursor : Cursor} (clean : (Parsed.ofCursor cursor).errors = []) :
    ∃ (program : Program) (stop : Cursor),
      (Parsed.ofCursor cursor).program? = some program.tree ∧ program.Formed ∧
        cursor.Passes program.tokens stop ∧ stop.kind = .eof := by
  obtain ⟨word, found, later, declares, body, stop, builds, ended⟩ :=
    Parsed.errors_ofCursor_eq_nil_iff.mp clean
  obtain ⟨declarations, rfl, passes, formed⟩ := written_of_declares declares
  obtain ⟨block, rfl, rest, blockFormed⟩ := written_of_builds builds rfl
  exact ⟨⟨_, declarations, block⟩, stop, program?_ofCursor word declares builds,
    ⟨word, formed, blockFormed⟩, .cons (inside_of_kind word) (passes.trans rest), ended⟩

end Concrete

end Sipl
