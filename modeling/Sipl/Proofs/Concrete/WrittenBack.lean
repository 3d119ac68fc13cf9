import Mathlib.Data.List.Forall2
import Sipl.Proofs.Concrete.Programs

namespace Sipl

/-- What one token of a program says. -/
inductive Atom where
  | fixed (kind : Kind)
  | name (text : String)
  | number (value : Int)

/-- A token says an atom.  A fixed token that is spelled at all has one spelling, except that there
are two for not-equal; a number may be spelled in any way that has the value. -/
def Token.Says (token : Token) : Atom → Prop
  | .fixed kind => token.kind = kind ∧
      (Spells kind token.lexeme.toList → kind ≠ .notEq → token.lexeme = kind.text)
  | .name text => token.kind = .ident ∧ token.lexeme = text
  | .number value => token.kind = .number ∧ token.literal? = some (.int value)

/-- Groups of atoms with a separator between them. -/
def separatedBy (separator : Kind) : List (List Atom) → List Atom
  | [] => []
  | first :: others => first ++ others.flatMap fun group => .fixed separator :: group

def Literal.atom : Literal → Atom
  | .int value => .number value
  | .bool true => .fixed .trueWord
  | .bool false => .fixed .falseWord

namespace Expr

mutual

def atoms : Expr → List Atom
  | literal _ value => [value.atom]
  | var _ name => [.name name]
  | unary _ op operand => .fixed op.kind :: operand.atoms
  | arith _ op left right => left.atoms ++ .fixed op.kind :: right.atoms
  | logical _ op left right => left.atoms ++ .fixed op.kind :: right.atoms
  | ifThen _ cond thenBranch =>
    .fixed .ifWord :: (cond.atoms ++ .fixed .thenWord :: thenBranch.atoms)
  | ifElse _ cond thenBranch elseBranch =>
    .fixed .ifWord :: (cond.atoms ++ .fixed .thenWord ::
      (thenBranch.atoms ++ .fixed .elseWord :: elseBranch.atoms))
  | call _ callee args =>
    .name callee :: .fixed .leftParen :: (separatedBy .comma (argsAtoms args) ++
      [.fixed .rightParen])

/-- The atoms of each argument of a call. -/
def argsAtoms : List Expr → List (List Atom)
  | [] => []
  | arg :: others => arg.atoms :: argsAtoms others

end

end Expr

mutual

def Stmt.atoms : Stmt → List Atom
  | .assign _ target value => .name target :: .fixed .assign :: value.atoms
  | .ifThen _ cond thenBlock =>
    .fixed .ifWord :: (cond.atoms ++ .fixed .thenWord :: thenBlock.atoms)
  | .ifElse _ cond thenBlock elseBlock =>
    .fixed .ifWord :: (cond.atoms ++ .fixed .thenWord ::
      (thenBlock.atoms ++ .fixed .elseWord :: elseBlock.atoms))
  | .whileLoop _ cond body =>
    .fixed .whileWord :: (cond.atoms ++ .fixed .doWord :: body.atoms)

def Block.atoms : Block → List Atom
  | .mk _ stmts =>
    .fixed .beginWord :: (separatedBy .semicolon (stmtsAtoms stmts) ++ [.fixed .endWord])

/-- The atoms of each statement of a block. -/
def stmtsAtoms : List Stmt → List (List Atom)
  | [] => []
  | stmt :: others => stmt.atoms :: stmtsAtoms others

end

def Function.atoms (function : Function) : List Atom :=
  .fixed .funcWord :: .name function.name :: .fixed .leftParen ::
    (separatedBy .comma (function.params.map fun param => [.name param.name]) ++
      .fixed .rightParen :: .fixed .eq :: function.body.atoms)

def Program.atoms (program : Program) : List Atom :=
  .fixed .programWord ::
    (separatedBy .semicolon (program.functions.map Function.atoms) ++ program.body.atoms)

/-- The tokens without those that leave nothing behind: grouping parentheses, and a semicolon in
front of a block.  A parenthesis that opens behind a name does not group.  For each parenthesis that
is open it is known whether it groups. -/
def essentialFrom : Bool → List Bool → List Token → List Token
  | _, _, [] => []
  | behindName, groups, token :: rest =>
    match token.kind with
    | .leftParen =>
      if behindName then token :: essentialFrom false (false :: groups) rest
      else essentialFrom false (true :: groups) rest
    | .rightParen =>
      if groups.headD false then essentialFrom false groups.tail rest
      else token :: essentialFrom false groups.tail rest
    | .semicolon =>
      if rest.head?.map Token.kind = some .beginWord then essentialFrom false groups rest
      else token :: essentialFrom false groups rest
    | kind => token :: essentialFrom (kind == .ident) groups rest

def essential (tokens : List Token) : List Token := essentialFrom false [] tokens

/-- Whatever stands around some tokens, those of them that are kept say the atoms.  It is known
whether a name stands in front of them. -/
def Kept (behindName : Bool) (tokens : List Token) (atoms : List Atom) : Prop :=
  ∃ (behind : Bool) (kept : List Token), List.Forall₂ Token.Says kept atoms ∧
    ∀ groups rest, essentialFrom behindName groups (tokens ++ rest) =
      kept ++ essentialFrom behind groups rest

/-- The kinds of tokens that are kept wherever they stand, and are not names or numbers. -/
def plainKinds : List Kind :=
  Kind.all.filter (· ∉ [.leftParen, .rightParen, .semicolon, .ident, .number])

theorem Spells.fixed {kind : Kind} {lexeme : List Char} (spelled : Spells kind lexeme)
    (oneWay : kind ∉ [.ident, .number, .notEq]) : lexeme = kind.text.toList := by
  cases spelled with
  | symbol listed => exact congrArg String.toList (mem_symbols.mp listed).2
  | reserved listed => exact congrArg String.toList (mem_words.mp listed).2
  | bang | number | name => simp at oneWay

theorem Token.says_fixed {token : Token} {kind : Kind} (same : token.kind = kind)
    (oneWay : kind ∉ [.ident, .number]) : token.Says (.fixed kind) := by
  refine ⟨same, fun spelled other => ?_⟩
  have lexeme := spelled.fixed (by simp_all)
  rw [← String.ofList_toList (s := token.lexeme), lexeme, String.ofList_toList]

namespace Kept

variable {behindName : Bool} {token opening closing : Token} {tokens others : List Token}
  {atoms more : List Atom} {kind : Kind}

theorem nil (behindName : Bool) : Kept behindName [] [] := ⟨behindName, [], .nil, fun _ _ => rfl⟩

theorem append (front : Kept behindName tokens atoms)
    (back : ∀ behindName, Kept behindName others more) :
    Kept behindName (tokens ++ others) (atoms ++ more) := by
  obtain ⟨middle, first, shown, keptFirst⟩ := front
  obtain ⟨behind, second, shownToo, keptSecond⟩ := back middle
  refine ⟨behind, first ++ second, List.rel_append shown shownToo, fun groups rest => ?_⟩
  rw [List.append_assoc, keptFirst, keptSecond, List.append_assoc]

theorem plain (same : token.kind = kind) (listed : kind ∈ plainKinds)
    (rest : Kept false tokens atoms) (behindName : Bool) :
    Kept behindName (token :: tokens) (.fixed kind :: atoms) := by
  obtain ⟨behind, kept, shown, keeps⟩ := rest
  have oneWay : ∀ kind ∈ plainKinds, kind ∉ [.ident, .number] := by decide
  refine ⟨behind, token :: kept, .cons (Token.says_fixed same (oneWay kind listed)) shown,
    fun groups rest => ?_⟩
  have others := (List.mem_filter.mp listed).2
  rw [List.cons_append, essentialFrom, same]
  cases kind <;> first | exact congrArg (token :: ·) (keeps groups rest) | cases others

theorem name (same : token.kind = .ident) (rest : Kept true tokens atoms) :
    Kept behindName (token :: tokens) (.name token.lexeme :: atoms) := by
  obtain ⟨behind, kept, shown, keeps⟩ := rest
  refine ⟨behind, token :: kept, .cons ⟨same, rfl⟩ shown, fun groups rest => ?_⟩
  rw [List.cons_append, essentialFrom, same]
  exact congrArg (token :: ·) (keeps groups rest)

theorem number {value : Int} (same : token.kind = .number)
    (known : token.literal? = some (.int value)) : Kept behindName [token] [.number value] := by
  refine ⟨false, [token], .cons ⟨same, known⟩ .nil, fun groups rest => ?_⟩
  rw [List.cons_append, essentialFrom, same]
  rfl

theorem single (same : token.kind = kind) (listed : kind ∈ plainKinds) (behindName : Bool) :
    Kept behindName [token] [.fixed kind] :=
  plain same listed (nil false) behindName

/-- Grouping parentheses leave nothing behind. -/
theorem group (opened : opening.kind = .leftParen) (inner : Kept false tokens atoms)
    (closed : closing.kind = .rightParen) :
    Kept false (opening :: (tokens ++ [closing])) atoms := by
  obtain ⟨behind, kept, shown, keeps⟩ := inner
  refine ⟨false, kept, shown, fun groups rest => ?_⟩
  rw [List.cons_append, essentialFrom, opened]
  simp only [Bool.false_eq_true, if_false]
  rw [List.append_assoc, keeps, List.singleton_append, essentialFrom, closed]
  rfl

/-- Parentheses behind a name are kept. -/
theorem parentheses (opened : opening.kind = .leftParen) (inner : Kept false tokens atoms)
    (closed : closing.kind = .rightParen) :
    Kept true (opening :: (tokens ++ [closing]))
      (.fixed .leftParen :: (atoms ++ [.fixed .rightParen])) := by
  obtain ⟨behind, kept, shown, keeps⟩ := inner
  have last : List.Forall₂ Token.Says [closing] [.fixed .rightParen] :=
    .cons (Token.says_fixed closed (by decide)) .nil
  refine ⟨false, opening :: (kept ++ [closing]),
    .cons (Token.says_fixed opened (by decide)) (List.rel_append shown last), fun groups rest => ?_⟩
  rw [List.cons_append, essentialFrom, opened]
  simp only [if_true]
  rw [List.append_assoc, keeps, List.singleton_append, essentialFrom, closed]
  simp

/-- A semicolon is kept, unless a block comes next. -/
theorem semicolon (same : token.kind = .semicolon)
    (next : ∀ rest, (tokens ++ rest).head?.map Token.kind ≠ some .beginWord)
    (rest : Kept false tokens atoms) (behindName : Bool) :
    Kept behindName (token :: tokens) (.fixed .semicolon :: atoms) := by
  obtain ⟨behind, kept, shown, keeps⟩ := rest
  refine ⟨behind, token :: kept, .cons (Token.says_fixed same (by decide)) shown,
    fun groups rest => ?_⟩
  rw [List.cons_append, essentialFrom, same]
  simp only [if_neg (next rest)]
  exact congrArg (token :: ·) (keeps groups rest)

/-- The semicolon in front of a block leaves nothing behind. -/
theorem separator (same : token.kind = .semicolon) (block : opening.kind = .beginWord)
    (rest : Kept false (opening :: tokens) atoms) (behindName : Bool) :
    Kept behindName (token :: opening :: tokens) atoms := by
  obtain ⟨behind, kept, shown, keeps⟩ := rest
  refine ⟨behind, kept, shown, fun groups rest => ?_⟩
  rw [List.cons_append, essentialFrom, same]
  simp only [List.cons_append, List.head?_cons, Option.map_some, block, if_true]
  exact keeps groups rest

end Kept

theorem ArithOp.eq_kind {kind : Kind} {op : ArithOp} (known : ofKind? kind = some op) :
    kind = op.kind := by
  cases kind <;> cases known <;> rfl

theorem UnaryOp.eq_kind {kind : Kind} {op : UnaryOp} (known : ofKind? kind = some op) :
    kind = op.kind := by
  cases kind <;> cases known <;> rfl

namespace Concrete

theorem kept_literal {token : Token} {value : Literal}
    (formed : (Term.literal token value).Formed) :
    Kept false [token] [value.atom] := by
  rcases formed with ⟨digits, known, number, rfl⟩ | ⟨word, rfl⟩ | ⟨word, rfl⟩
  · exact .number digits known
  · exact .single word (by decide) _
  · exact .single word (by decide) _

mutual

theorem Term.kept (term : Term) (formed : term.Formed) :
    Kept false term.tokens term.tree.atoms := by
  match term with
  | .literal token value => exact kept_literal formed
  | .var name => exact .name formed (.nil _)
  | .group opening inner closing =>
      obtain ⟨opened, closed, inside, _⟩ := formed
      exact .group opened (inner.kept inside) closed
  | .unary sign op operand =>
      obtain ⟨known, inside, _⟩ := formed
      exact .plain (UnaryOp.eq_kind known) (by cases op <;> decide) (operand.kept inside) _
  | .arith left sign op right =>
      obtain ⟨known, ⟨first, _⟩, ⟨second, _⟩, _⟩ := formed
      have operator : op.kind ∈ plainKinds := by cases op <;> decide
      exact (left.kept first).append (.plain (ArithOp.eq_kind known) operator (right.kept second))
  | .logical left word op right =>
      obtain ⟨same, ⟨first, _⟩, second, _⟩ := formed
      have operator : op.kind ∈ plainKinds := by cases op <;> decide
      exact (left.kept first).append (.plain same operator (right.kept second))
  | .ifThen ifWord cond thenWord thenBranch =>
      obtain ⟨isIf, condition, isThen, branch, _⟩ := formed
      have front := Kept.plain isThen (by decide) (thenBranch.kept branch)
      exact .plain isIf (by decide) ((cond.kept condition).append front) _
  | .ifElse ifWord cond thenWord thenBranch elseWord elseBranch =>
      obtain ⟨isIf, condition, isThen, ⟨first, _⟩, isElse, ⟨second, _⟩, _⟩ := formed
      have back := Kept.plain isElse (by decide) (elseBranch.kept second)
      have front := Kept.plain isThen (by decide) ((thenBranch.kept first).append back)
      exact .plain isIf (by decide) ((cond.kept condition).append front) _
  | .callEmpty name opening closing =>
      obtain ⟨named, opened, closed⟩ := formed
      exact .name named (.parentheses opened (.nil _) closed)
  | .call name opening first others =>
      obtain ⟨named, opened, ⟨inside, _⟩, rest⟩ := formed
      obtain ⟨front, split, closed, tail⟩ := others.kept rest
      have args := Kept.parentheses opened ((first.kept inside).append tail) closed
      rw [List.append_assoc, ← split] at args
      exact .name named args

/-- The arguments behind the first one, without the closing parenthesis. -/
theorem Arguments.kept (others : Arguments) (formed : others.Formed) :
    ∃ front, others.tokens = front ++ [others.last] ∧ others.last.kind = .rightParen ∧
      ∀ behindName, Kept behindName front
        ((Expr.argsAtoms others.trees).flatMap fun group => .fixed .comma :: group) := by
  match others with
  | .closed closing => exact ⟨[], rfl, formed, .nil⟩
  | .next comma arg others =>
      obtain ⟨isComma, ⟨inside, _⟩, rest⟩ := formed
      obtain ⟨front, split, closed, tail⟩ := others.kept rest
      refine ⟨comma :: (arg.tokens ++ front), ?_, closed,
        .plain isComma (by decide) ((arg.kept inside).append tail)⟩
      simp [Arguments.tokens, Arguments.last, split]

end

theorem Statement.tokens_not_block {stmt : Statement} (formed : stmt.Formed) (rest : List Token) :
    (stmt.tokens ++ rest).head?.map Token.kind ≠ some .beginWord := by
  cases stmt with
  | assign | ifThen | ifElse | whileLoop => simp [tokens, formed.1]

mutual

theorem Statement.kept (stmt : Statement) (formed : stmt.Formed) :
    Kept false stmt.tokens stmt.tree.atoms := by
  match stmt with
  | .assign name assign value =>
      obtain ⟨named, isAssign, inside⟩ := formed
      exact .name named (.plain isAssign (by decide) (value.kept inside) _)
  | .ifThen ifWord cond thenWord thenBlock =>
      obtain ⟨isIf, condition, isThen, inside⟩ := formed
      have front := Kept.plain isThen (by decide) (thenBlock.kept inside _)
      exact .plain isIf (by decide) ((cond.kept condition).append front) _
  | .ifElse ifWord cond thenWord thenBlock elseWord elseBlock =>
      obtain ⟨isIf, condition, isThen, first, isElse, second⟩ := formed
      have back := Kept.plain isElse (by decide) (elseBlock.kept second _)
      have front := Kept.plain isThen (by decide) ((thenBlock.kept first _).append back)
      exact .plain isIf (by decide) ((cond.kept condition).append front) _
  | .whileLoop whileWord cond doWord body =>
      obtain ⟨isWhile, condition, isDo, inside⟩ := formed
      have front := Kept.plain isDo (by decide) (body.kept inside _)
      exact .plain isWhile (by decide) ((cond.kept condition).append front) _

theorem Block.kept (block : Block) (formed : block.Formed) (behindName : Bool) :
    Kept behindName block.tokens block.tree.atoms := by
  match block with
  | .mk opening first others =>
      obtain ⟨opened, inside, rest⟩ := formed
      have stmts := (first.kept inside).append (others.kept rest)
      rw [← List.append_assoc] at stmts
      exact .plain opened (by decide) stmts _

theorem Statements.kept (others : Statements) (formed : others.Formed) (behindName : Bool) :
    Kept behindName others.tokens
      ((stmtsAtoms others.trees).flatMap (fun group => .fixed .semicolon :: group) ++
        [.fixed .endWord]) := by
  match others with
  | .closed closing => exact .single formed (by decide) _
  | .next semicolon stmt others =>
      obtain ⟨isSemicolon, inside, rest⟩ := formed
      have stmts := (stmt.kept inside).append (others.kept rest)
      rw [← List.append_assoc] at stmts
      refine .semicolon isSemicolon (fun rest => ?_) stmts _
      rw [List.append_assoc]
      exact stmt.tokens_not_block inside _

end

theorem ParamsTail.kept (others : ParamsTail) (formed : others.Formed) :
    ∃ front last, others.tokens = front ++ [last] ∧ last.kind = .rightParen ∧
      ∀ behindName, Kept behindName front
        ((others.trees.map fun param => [Atom.name param.name]).flatMap
          fun group => .fixed .comma :: group) := by
  match others with
  | .closed closing => exact ⟨[], closing, rfl, formed, .nil⟩
  | .next comma name others =>
      obtain ⟨isComma, named, rest⟩ := formed
      obtain ⟨front, last, split, closed, tail⟩ := others.kept rest
      exact ⟨comma :: name :: front, last, by simp [tokens, split], closed,
        .plain isComma (by decide) (.name named (tail true))⟩

theorem Params.kept (params : Params) (formed : params.Formed) :
    ∃ front last, params.tokens = front ++ [last] ∧ last.kind = .rightParen ∧
      Kept false front
        (separatedBy .comma (params.trees.map fun param => [Atom.name param.name])) := by
  match params with
  | .none closing => exact ⟨[], closing, rfl, formed, .nil _⟩
  | .some name others =>
      obtain ⟨named, rest⟩ := formed
      obtain ⟨front, last, split, closed, tail⟩ := others.kept rest
      exact ⟨name :: front, last, by simp [tokens, split], closed, .name named (tail true)⟩

theorem Declaration.kept {declaration : Declaration} (formed : declaration.Formed) :
    Kept false declaration.tokens declaration.tree.atoms := by
  obtain ⟨front, last, split, closed, params⟩ := declaration.params.kept formed.params
  have body := Kept.plain formed.eq (by decide) (declaration.body.kept formed.body)
  have rest := (Kept.parentheses formed.opening params closed).append body
  rw [← split] at rest
  simp only [List.cons_append, List.append_assoc] at rest
  exact .plain formed.word (by decide) (.name formed.name rest) _

/-- Declarations other than none start with their first word. -/
theorem Declarations.tokens_not_block {declarations : Declarations} (formed : declarations.Formed)
    (nonempty : declarations.trees ≠ []) (rest : List Token) :
    (declarations.tokens ++ rest).head?.map Token.kind ≠ some .beginWord := by
  cases declarations with
  | none => exact absurd rfl nonempty
  | last one => simp [tokens, Declaration.tokens, formed.word]
  | more one => simp [tokens, Declaration.tokens, formed.1.word]

theorem Declarations.kept (declarations : Declarations) (formed : declarations.Formed)
    {opening : Token} {main : List Token} {atoms : List Atom} (block : opening.kind = .beginWord)
    (body : ∀ behindName, Kept behindName (opening :: main) atoms) :
    Kept false (declarations.tokens ++ opening :: main)
      (separatedBy .semicolon (declarations.trees.map Function.atoms) ++ atoms) := by
  match declarations with
  | .none => exact body false
  | .last one =>
      simp only [trees, List.map_cons, List.map_nil, separatedBy, List.flatMap_nil, List.append_nil]
      exact (Declaration.kept formed).append body
  | .more one semicolon others =>
      obtain ⟨declared, isSemicolon, rest⟩ := formed
      have tail := others.kept rest block body
      simp only [tokens, trees, List.map_cons, List.append_assoc, List.cons_append]
      cases behind : others.trees with
      | nil =>
          obtain rfl : others = .none := by
            cases others with
            | none => rfl
            | last | more => cases behind
          simp only [List.map_nil, separatedBy, List.flatMap_nil, List.append_nil]
          exact (Declaration.kept declared).append (.separator isSemicolon block (body false))
      | cons next more =>
          have another : ∀ rest, ((others.tokens ++ opening :: main) ++ rest).head?.map
              Token.kind ≠ some .beginWord := by
            intro behindMain
            rw [List.append_assoc]
            exact others.tokens_not_block rest (by simp [behind]) _
          rw [behind] at tail
          have kept := (Declaration.kept declared).append (.semicolon isSemicolon another tail)
          simpa only [List.map_cons, separatedBy, List.flatMap_cons, List.append_assoc,
            List.cons_append] using kept

/-- The tokens of a program that are kept say the atoms of its tree. -/
theorem Program.kept {program : Program} (formed : program.Formed) :
    List.Forall₂ Token.Says (essential program.tokens) program.tree.atoms := by
  obtain ⟨word, declarations, opening, first, others⟩ := program
  have rest := declarations.kept formed.declarations formed.body.1 (Block.kept _ formed.body)
  obtain ⟨behind, kept, shown, keeps⟩ := Kept.plain formed.word (by decide) rest false
  have whole := keeps [] []
  rw [List.append_nil, essentialFrom, List.append_nil] at whole
  rw [← whole] at shown
  exact shown

end Concrete

end Sipl
