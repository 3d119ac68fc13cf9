import Sipl.Proofs.Concrete.Terms
import Sipl.Proofs.Reader.Yields
import Sipl.Reader.Trees

namespace Sipl

/-! A draft is a program some of whose statements and declarations are malformed, while the words
and separators around them are in place.  Its tree is made of the well-formed ones. -/

namespace Draft

open Concrete

/-- Tokens and what is read of them. -/
structure Part (α : Type) where
  tokens : List Token
  tree : α

/-- A malformed stretch of a draft and the token behind it. -/
structure Segment where
  tokens : List Token
  ending : Token

mutual

inductive Statement where
  | assign (part : Part Stmt)
  | ifThen (ifWord : Token) (cond : Part Expr) (thenWord : Token) (thenBlock : Block)
  | ifElse (ifWord : Token) (cond : Part Expr) (thenWord : Token) (thenBlock : Block)
      (elseWord : Token) (elseBlock : Block)
  | whileLoop (whileWord : Token) (cond : Part Expr) (doWord : Token) (body : Block)
  | malformed (tokens : List Token)

inductive Block where
  | mk (opening : Token) (first : Statement) (others : Statements)

/-- What stands behind a statement of a block. -/
inductive Statements where
  | closed (closing : Token)
  | next (semicolon : Token) (stmt : Statement) (others : Statements)

end

inductive Declaration where
  | function (part : Part Function)
  | malformed (tokens : List Token)

/-- The declarations in front of the main block.  A semicolon may be missing behind a malformed one,
and behind the last one. -/
inductive Declarations where
  | none
  | bare (one : Declaration) (others : Declarations)
  | ended (one : Declaration) (semicolon : Token) (others : Declarations)

structure Program where
  word : Token
  declarations : Declarations
  body : Block
  mark : Token

mutual

def Statement.tokens : Statement → List Token
  | .assign part => part.tokens
  | .ifThen ifWord cond thenWord thenBlock =>
    ifWord :: (cond.tokens ++ thenWord :: thenBlock.tokens)
  | .ifElse ifWord cond thenWord thenBlock elseWord elseBlock =>
    ifWord :: (cond.tokens ++ thenWord :: (thenBlock.tokens ++ elseWord :: elseBlock.tokens))
  | .whileLoop whileWord cond doWord body => whileWord :: (cond.tokens ++ doWord :: body.tokens)
  | .malformed tokens => tokens

def Block.tokens : Block → List Token
  | .mk opening first others => opening :: (first.tokens ++ others.tokens)

def Statements.tokens : Statements → List Token
  | .closed closing => [closing]
  | .next semicolon stmt others => semicolon :: (stmt.tokens ++ others.tokens)

end

def Statements.first : Statements → Token
  | .closed closing => closing
  | .next semicolon _ _ => semicolon

def Statements.last : Statements → Token
  | .closed closing => closing
  | .next _ _ others => others.last

def Block.last : Block → Token
  | .mk _ _ others => others.last

def Declaration.tokens : Declaration → List Token
  | .function part => part.tokens
  | .malformed tokens => tokens

def Declarations.tokens : Declarations → List Token
  | .none => []
  | .bare one others => one.tokens ++ others.tokens
  | .ended one semicolon others => one.tokens ++ semicolon :: others.tokens

def Program.tokens (draft : Program) : List Token :=
  draft.word :: (draft.declarations.tokens ++ (draft.body.tokens ++ [draft.mark]))

mutual

def Statement.trees : Statement → List Stmt
  | .assign part => [part.tree]
  | .ifThen ifWord cond _ thenBlock =>
    [.ifThen (siteBetween ifWord thenBlock.last) cond.tree thenBlock.tree]
  | .ifElse ifWord cond _ thenBlock _ elseBlock =>
    [.ifElse (siteBetween ifWord elseBlock.last) cond.tree thenBlock.tree elseBlock.tree]
  | .whileLoop whileWord cond _ body =>
    [.whileLoop (siteBetween whileWord body.last) cond.tree body.tree]
  | .malformed _ => []

def Block.tree : Block → Sipl.Block
  | .mk opening first others =>
    .mk (siteBetween opening others.last).span (first.trees ++ others.trees)

def Statements.trees : Statements → List Stmt
  | .closed _ => []
  | .next _ stmt others => stmt.trees ++ others.trees

end

def Declaration.trees : Declaration → List Function
  | .function part => [part.tree]
  | .malformed _ => []

def Declarations.trees : Declarations → List Function
  | .none => []
  | .bare one others => one.trees ++ others.trees
  | .ended one _ others => one.trees ++ others.trees

def Program.tree (draft : Program) : Sipl.Program := ⟨draft.declarations.trees, draft.body.tree⟩

mutual

/-- The malformed segments of a statement that a token stands behind. -/
def Statement.segments : Statement → Token → List Segment
  | .assign _, _ => []
  | .ifThen _ _ _ thenBlock, _ => thenBlock.segments
  | .ifElse _ _ _ thenBlock _ elseBlock, _ => thenBlock.segments ++ elseBlock.segments
  | .whileLoop _ _ _ body, _ => body.segments
  | .malformed tokens, ending => [⟨tokens, ending⟩]

def Block.segments : Block → List Segment
  | .mk _ first others => first.segments others.first ++ others.segments

def Statements.segments : Statements → List Segment
  | .closed _ => []
  | .next _ stmt others => stmt.segments others.first ++ others.segments

end

def Declaration.segments : Declaration → Token → List Segment
  | .function _, _ => []
  | .malformed tokens, ending => [⟨tokens, ending⟩]

/-- The malformed segments of declarations that a token stands behind. -/
def Declarations.segments : Declarations → Token → List Segment
  | .none, _ => []
  | .bare one others, ending =>
    one.segments (others.tokens.headD ending) ++ others.segments ending
  | .ended one semicolon others, ending => one.segments semicolon ++ others.segments ending

def Block.opening : Block → Token
  | .mk opening _ _ => opening

def Program.segments (draft : Program) : List Segment :=
  draft.declarations.segments draft.body.opening ++ draft.body.segments

/-- In some stream, in front of a token of one of the kinds, the tokens are read as told. -/
def Read (endings : List Kind) (tokens : List Token) (reads : Cursor → Cursor → Prop) : Prop :=
  ∃ start stop : Cursor, start.upcoming = tokens ++ stop.upcoming ∧ stop.kind ∈ endings ∧
    reads start stop

theorem Read.intro {endings : List Kind} {tokens rest : List Token}
    {reads : Cursor → Cursor → Prop} {stop : Cursor} {ending : Token} (start : Cursor)
    (whole : start.upcoming = tokens ++ ending :: rest) (read : reads start stop)
    (left : stop.upcoming = ending :: rest) (listed : ending.kind ∈ endings) :
    Read endings tokens reads := by
  have here : stop.kind = ending.kind := congrArg Token.kind (List.cons.inj left).1
  exact ⟨start, stop, by rw [whole, left], by rwa [here], read⟩

/-- In some stream, in front of a token of one of the kinds, reading the tokens fails. -/
def Fails {α : Type} (endings : List Kind) (tokens : List Token)
    (result : Cursor → Except SyntaxError α) : Prop :=
  ∃ (start : Cursor) (ending : Token) (rest : List Token) (error : SyntaxError),
    start.upcoming = tokens ++ ending :: rest ∧ ending.kind ∈ endings ∧ result start = .error error

/-- An expression in front of a word of the kind. -/
def Part.IsCondition (word : Kind) (part : Part Expr) : Prop :=
  Read [word] part.tokens fun start stop => (trees.disjunction start).Yields part.tree stop

def Part.IsAssignment (part : Part Stmt) : Prop :=
  Read [.semicolon, .endWord, .eof] part.tokens fun start stop =>
    start.kind = .ident ∧ (trees.statement start).Yields (part.tree, []) stop

def Part.IsFunction (part : Part Function) : Prop :=
  Read [.semicolon, .beginWord, .eof] part.tokens fun start stop => start.kind = .funcWord ∧
    (trees.function start.current start.advance).Yields (part.tree, []) stop

/-- Tokens that no statement can be read of, none of which separates statements or starts one that
holds blocks. -/
structure MalformedStatement (tokens : List Token) : Prop where
  plain : ∀ token ∈ tokens,
    token.kind ∉ [.endWord, .semicolon, .funcWord, .ifWord, .whileWord, .eof]
  fails : Fails [.semicolon, .endWord, .eof] tokens fun start => (trees.statement start).result

/-- The word of a declaration and tokens that do not make it one, none of which separates
declarations or starts a block. -/
structure MalformedDeclaration (tokens : List Token) : Prop where
  plain : ∃ word others, tokens = word :: others ∧ word.kind = .funcWord ∧
    ∀ token ∈ others, token.kind ∉ [.funcWord, .semicolon, .beginWord, .eof]
  fails : Fails [.semicolon, .beginWord, .funcWord, .eof] tokens fun start =>
    (trees.function start.current start.advance).result

mutual

def Statement.Formed : Statement → Prop
  | .assign part => part.IsAssignment
  | .ifThen ifWord cond thenWord thenBlock =>
    ifWord.kind = .ifWord ∧ cond.IsCondition .thenWord ∧ thenWord.kind = .thenWord ∧
      thenBlock.Formed
  | .ifElse ifWord cond thenWord thenBlock elseWord elseBlock =>
    ifWord.kind = .ifWord ∧ cond.IsCondition .thenWord ∧ thenWord.kind = .thenWord ∧
      thenBlock.Formed ∧ elseWord.kind = .elseWord ∧ elseBlock.Formed
  | .whileLoop whileWord cond doWord body =>
    whileWord.kind = .whileWord ∧ cond.IsCondition .doWord ∧ doWord.kind = .doWord ∧ body.Formed
  | .malformed tokens => MalformedStatement tokens

def Block.Formed : Block → Prop
  | .mk opening first others => opening.kind = .beginWord ∧ first.Formed ∧ others.Formed

def Statements.Formed : Statements → Prop
  | .closed closing => closing.kind = .endWord
  | .next semicolon stmt others => semicolon.kind = .semicolon ∧ stmt.Formed ∧ others.Formed

end

def Declaration.Formed : Declaration → Prop
  | .function part => part.IsFunction
  | .malformed tokens => MalformedDeclaration tokens

def Declarations.Formed : Declarations → Prop
  | .none => True
  | .bare one others => one.Formed ∧ others.Formed ∧ (others = .none ∨ one.trees = [])
  | .ended one semicolon others => one.Formed ∧ semicolon.kind = .semicolon ∧ others.Formed

structure Program.Formed (draft : Program) : Prop where
  word : draft.word.kind = .programWord
  declarations : draft.declarations.Formed
  body : draft.body.Formed
  mark : draft.mark.kind = .eof

mutual

/-- The statement without malformed ones inside of it; nothing if it is malformed itself. -/
def Statement.kept? : Statement → Option Statement
  | .assign part => some (.assign part)
  | .ifThen ifWord cond thenWord thenBlock => some (.ifThen ifWord cond thenWord thenBlock.kept)
  | .ifElse ifWord cond thenWord thenBlock elseWord elseBlock =>
    some (.ifElse ifWord cond thenWord thenBlock.kept elseWord elseBlock.kept)
  | .whileLoop whileWord cond doWord body => some (.whileLoop whileWord cond doWord body.kept)
  | .malformed _ => none

/-- The block without its malformed statements.  If there are no others, nothing is left between its
words, which is malformed as well. -/
def Block.kept : Block → Block
  | .mk opening first others =>
    match first.kept?, others.kept with
    | some first, others => .mk opening first others
    | none, .next _ second others => .mk opening second others
    | none, .closed closing => .mk opening (.malformed []) (.closed closing)

def Statements.kept : Statements → Statements
  | .closed closing => .closed closing
  | .next semicolon stmt others =>
    match stmt.kept? with
    | some stmt => .next semicolon stmt others.kept
    | none => others.kept

end

def Declarations.kept : Declarations → Declarations
  | .none => .none
  | .bare (.function part) others => .bare (.function part) others.kept
  | .bare (.malformed _) others => others.kept
  | .ended (.function part) semicolon others => .ended (.function part) semicolon others.kept
  | .ended (.malformed _) _ others => others.kept

def Program.kept (draft : Program) : Program :=
  { draft with declarations := draft.declarations.kept, body := draft.body.kept }

/-- What is kept of a statement. -/
structure Statement.Keeps (stmt kept : Statement) : Prop where
  trees : kept.trees = stmt.trees
  formed : stmt.Formed → kept.Formed
  emptied : ∀ ending, ∀ segment ∈ kept.segments ending, segment.tokens = []

structure Block.Keeps (block kept : Block) : Prop where
  tree : kept.tree = block.tree
  last : kept.last = block.last
  formed : block.Formed → kept.Formed
  emptied : ∀ segment ∈ kept.segments, segment.tokens = []

structure Statements.Keeps (others kept : Statements) : Prop where
  trees : kept.trees = others.trees
  last : kept.last = others.last
  formed : others.Formed → kept.Formed
  emptied : ∀ segment ∈ kept.segments, segment.tokens = []

/-- Nothing at all is malformed. -/
theorem malformed_nil : MalformedStatement [] := by
  refine ⟨List.forall_mem_nil _, ?_⟩
  exact ⟨⟨[], ⟨.eof, "", ⟨1, .origin⟩, none⟩, [], by decide⟩, _, [], _, rfl, by decide, by cbv⟩

mutual

theorem Statement.kept?_spec (stmt : Statement) :
    match stmt.kept? with
    | some kept => stmt.Keeps kept
    | none => stmt.trees = [] := by
  match stmt with
  | .assign part => exact ⟨rfl, id, fun _ => List.forall_mem_nil _⟩
  | .ifThen ifWord cond thenWord thenBlock =>
      have keeps := thenBlock.keeps
      refine ⟨?_, fun ⟨isIf, condition, isThen, formed⟩ =>
        ⟨isIf, condition, isThen, keeps.formed formed⟩, fun _ => keeps.emptied⟩
      rw [Statement.trees, Statement.trees, keeps.tree, keeps.last]
  | .ifElse ifWord cond thenWord thenBlock elseWord elseBlock =>
      have first := thenBlock.keeps
      have second := elseBlock.keeps
      refine ⟨?_, fun ⟨isIf, condition, isThen, formed, isElse, also⟩ =>
        ⟨isIf, condition, isThen, first.formed formed, isElse, second.formed also⟩,
        fun _ => List.forall_mem_append.mpr ⟨first.emptied, second.emptied⟩⟩
      rw [Statement.trees, Statement.trees, first.tree, second.tree, second.last]
  | .whileLoop whileWord cond doWord body =>
      have keeps := body.keeps
      refine ⟨?_, fun ⟨isWhile, condition, isDo, formed⟩ =>
        ⟨isWhile, condition, isDo, keeps.formed formed⟩, fun _ => keeps.emptied⟩
      rw [Statement.trees, Statement.trees, keeps.tree, keeps.last]
  | .malformed _ => rfl

theorem Block.keeps (block : Block) : block.Keeps block.kept := by
  match block with
  | .mk opening first others =>
      have one := first.kept?_spec
      have rest := others.keeps
      rw [Block.kept]
      cases found : first.kept? with
      | some kept =>
          rw [found] at one
          refine ⟨?_, rest.last, fun ⟨isBegin, formed, also⟩ =>
            ⟨isBegin, one.formed formed, rest.formed also⟩,
            List.forall_mem_append.mpr ⟨one.emptied _, rest.emptied⟩⟩
          rw [Block.tree, Block.tree, one.trees, rest.trees, rest.last]
      | none =>
          rw [found] at one
          cases left : others.kept with
          | next semicolon second more =>
              rw [left] at rest
              refine ⟨?_, rest.last, fun ⟨isBegin, _, also⟩ => ⟨isBegin, (rest.formed also).2⟩,
                rest.emptied⟩
              have last : more.last = others.last := rest.last
              have trees : second.trees ++ more.trees = others.trees := rest.trees
              rw [Block.tree, Block.tree, one, last, trees]
              rfl
          | closed closing =>
              rw [left] at rest
              refine ⟨?_, rest.last, fun ⟨isBegin, _, also⟩ =>
                ⟨isBegin, malformed_nil, rest.formed also⟩, List.forall_mem_singleton.mpr rfl⟩
              have last : closing = others.last := rest.last
              have trees : [] = others.trees := rest.trees
              rw [Block.tree, Block.tree, one, ← last, ← trees]
              rfl

theorem Statements.keeps (others : Statements) : others.Keeps others.kept := by
  match others with
  | .closed closing => exact ⟨rfl, rfl, id, List.forall_mem_nil _⟩
  | .next semicolon stmt others =>
      have one := stmt.kept?_spec
      have rest := others.keeps
      rw [Statements.kept]
      cases found : stmt.kept? with
      | some kept =>
          rw [found] at one
          refine ⟨?_, rest.last, fun ⟨isSemicolon, formed, also⟩ =>
            ⟨isSemicolon, one.formed formed, rest.formed also⟩,
            List.forall_mem_append.mpr ⟨one.emptied _, rest.emptied⟩⟩
          rw [Statements.trees, Statements.trees, one.trees, rest.trees]
      | none =>
          rw [found] at one
          refine ⟨?_, rest.last, fun ⟨_, _, also⟩ => rest.formed also, rest.emptied⟩
          rw [Statements.trees, one, rest.trees]
          rfl

end

structure Declarations.Keeps (declarations kept : Declarations) : Prop where
  trees : kept.trees = declarations.trees
  formed : declarations.Formed → kept.Formed
  emptied : ∀ ending, kept.segments ending = []

theorem Declarations.keeps (declarations : Declarations) :
    declarations.Keeps declarations.kept := by
  induction declarations with
  | none => exact ⟨rfl, id, fun _ => rfl⟩
  | bare one others ih =>
      cases one with
      | function part =>
          refine ⟨?_, fun ⟨formed, also, last⟩ => ⟨formed, ih.formed also, ?_⟩, ih.emptied⟩
          · rw [kept, trees, trees, ih.trees]
          · refine last.imp_left ?_
            rintro rfl
            rfl
      | malformed tokens => exact ⟨ih.trees, fun ⟨_, also, _⟩ => ih.formed also, ih.emptied⟩
  | ended one semicolon others ih =>
      cases one with
      | function part =>
          refine ⟨?_, fun ⟨formed, isSemicolon, also⟩ => ⟨formed, isSemicolon, ih.formed also⟩,
            ih.emptied⟩
          rw [kept, trees, trees, ih.trees]
      | malformed tokens => exact ⟨ih.trees, fun ⟨_, _, also⟩ => ih.formed also, ih.emptied⟩

theorem Program.tree_kept (draft : Program) : draft.kept.tree = draft.tree := by
  rw [tree, tree, kept, draft.declarations.keeps.trees, draft.body.keeps.tree]

theorem Program.Formed.kept {draft : Program} (formed : draft.Formed) : draft.kept.Formed where
  word := formed.word
  declarations := draft.declarations.keeps.formed formed.declarations
  body := draft.body.keeps.formed formed.body
  mark := formed.mark

/-- The only malformed segments that are left are those of blocks that nothing is left of. -/
theorem Program.emptied (draft : Program) :
    ∀ segment ∈ draft.kept.segments, segment.tokens = [] := by
  rw [segments, kept, draft.declarations.keeps.emptied, List.nil_append]
  exact draft.body.keeps.emptied

end Draft

end Sipl
