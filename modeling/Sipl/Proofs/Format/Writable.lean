import Sipl.Proofs.Format.Legible
import Sipl.Proofs.Format.Unplaced

namespace Sipl

open Scan Ink

/-- The kind of the token that an operator is written as. -/
def UnaryOp.kind : UnaryOp → Kind
  | .neg => .minus
  | .not => .notWord

def ArithOp.kind : ArithOp → Kind
  | .add => .plus
  | .sub => .minus
  | .mul => .star
  | .div => .slash
  | .eq => .eq
  | .notEq => .notEq
  | .lt => .lt
  | .ltEq => .ltEq
  | .gt => .gt
  | .gtEq => .gtEq

def LogicalOp.kind : LogicalOp → Kind
  | .and => .andWord
  | .or => .orWord

theorem UnaryOp.spells_symbol (op : UnaryOp) : Spells op.kind op.symbol.toList := by
  cases op with
  | neg => exact .symbol (by decide)
  | not => exact .reserved (by decide)

theorem ArithOp.spells_symbol (op : ArithOp) : Spells op.kind op.symbol.toList := by
  exact .symbol (by cases op <;> decide)

theorem LogicalOp.spells_symbol (op : LogicalOp) : Spells op.kind op.symbol.toList := by
  exact .reserved (by cases op <;> decide)

/-- A name as it may be written. -/
def IsName (name : String) : Prop := Spells .ident name.toList

def Literal.Writable : Literal → Prop
  | .int value => 0 ≤ value
  | .bool _ => True

namespace Expr

/-- The expression can stand where it has to bind as tightly as the level: as it is, or between
parentheses, which hold a comparison. -/
def FitsAt (expr : Expr) (minimum : Precedence) : Prop :=
  expr.loose minimum = false ∨ expr.loose .comparison = false

mutual

def Writable : Expr → Prop
  | literal _ value => value.Writable
  | var _ name => IsName name
  | unary _ _ operand => operand.Writable ∧ operand.FitsAt .unary
  | arith _ op left right =>
    (left.Writable ∧ left.FitsAt op.operandPrecedence.1) ∧
      right.Writable ∧ right.FitsAt op.operandPrecedence.2
  | logical _ op left right =>
    (left.Writable ∧ left.FitsAt op.operandPrecedence.1) ∧
      right.Writable ∧ right.FitsAt op.operandPrecedence.2
  | ifThen _ cond thenBranch =>
    cond.Writable ∧ thenBranch.Writable ∧ thenBranch.FitsAt .comparison
  | ifElse _ cond thenBranch elseBranch =>
    cond.Writable ∧ (thenBranch.Writable ∧ thenBranch.FitsAt .comparison) ∧
      elseBranch.Writable ∧ elseBranch.FitsAt .comparison
  | call _ callee args => IsName callee ∧ ArgsWritable args

def ArgsWritable : List Expr → Prop
  | [] => True
  | arg :: rest => (arg.Writable ∧ arg.FitsAt .comparison) ∧ ArgsWritable rest

end

end Expr

mutual

def Stmt.Writable : Stmt → Prop
  | .assign _ target value => IsName target ∧ value.Writable
  | .ifThen _ cond thenBlock => cond.Writable ∧ thenBlock.Writable
  | .ifElse _ cond thenBlock elseBlock =>
    cond.Writable ∧ thenBlock.Writable ∧ elseBlock.Writable
  | .whileLoop _ cond body => cond.Writable ∧ body.Writable

def Block.Writable : Block → Prop
  | .mk _ stmts => StmtsWritable stmts

def StmtsWritable : List Stmt → Prop
  | [] => True
  | stmt :: rest => stmt.Writable ∧ StmtsWritable rest

end

theorem Expr.argsWritable_iff {args : List Expr} :
    ArgsWritable args ↔ ∀ arg ∈ args, arg.Writable ∧ arg.FitsAt .comparison := by
  induction args with
  | nil => simp [ArgsWritable]
  | cons arg rest ih => rw [ArgsWritable, ih, List.forall_mem_cons]

theorem stmtsWritable_iff {stmts : List Stmt} :
    StmtsWritable stmts ↔ ∀ stmt ∈ stmts, stmt.Writable := by
  induction stmts with
  | nil => simp [StmtsWritable]
  | cons stmt rest ih => rw [StmtsWritable, ih, List.forall_mem_cons]

theorem Block.Writable.stmts {block : Block} (writable : block.Writable) :
    StmtsWritable block.stmts := by
  cases block
  exact writable

structure Function.Writable (function : Function) : Prop where
  named : IsName function.name
  params : ∀ param ∈ function.params, IsName param.name
  body : function.body.Writable
  fits : function.body.FitsAt .comparison

structure Program.Writable (program : Program) : Prop where
  functions : ∀ function ∈ program.functions, function.Writable
  body : program.body.Writable

namespace Ink

theorem legible_word {lexeme : String} {kind : Kind} {next : Option Char} {rest : List Ink}
    (spells : Spells kind lexeme.toList)
    (stopped : ∀ char ∈ (text rest).head?.or next, kind.continues char = false)
    (legible : Legible next rest) : Legible next (word lexeme :: rest) :=
  ⟨⟨kind, spells, stopped⟩, legible⟩

/-- Words that nothing continues are legible wherever they stand. -/
theorem legible_closed (kind : Kind) {next : Option Char} {rest : List Ink}
    (listed : kind ∈ [Kind.leftParen, .rightParen, .comma, .semicolon, .minus])
    (legible : Legible next rest) : Legible next (word kind.text :: rest) := by
  have known : ∀ kind ∈ [Kind.leftParen, .rightParen, .comma, .semicolon, .minus],
      kind ∈ Kind.symbols ∧ kind.isReserved = false ∧ kind ≠ .ident ∧ kind ≠ .number ∧
        kind ≠ .lt ∧ kind ≠ .gt := by decide
  obtain ⟨symbol, free, named⟩ := known kind listed
  refine legible_word (.of_symbol symbol) (fun char _ => ?_) legible
  cases kind <;> simp_all [Kind.continues]

/-- A word in front of a blank. -/
theorem legible_spaced {lexeme : String} {kind : Kind} {next : Option Char} {rest : List Ink}
    (spells : Spells kind lexeme.toList) (legible : Legible next rest) :
    Legible next (word lexeme :: space :: rest) := by
  refine legible_word spells (fun char following => ?_) legible
  obtain rfl : ' ' = char := by simpa [chars] using following
  cases kind <;> decide

/-- A word at the end of a line. -/
theorem legible_lined {lexeme : String} {kind : Kind} {columns : Nat} {next : Option Char}
    {rest : List Ink} (spells : Spells kind lexeme.toList) (legible : Legible next rest) :
    Legible next (word lexeme :: line columns :: rest) := by
  refine legible_word spells (fun char following => ?_) legible
  obtain rfl : '\n' = char := by simpa [chars] using following
  cases kind <;> decide

theorem apart_of_mem {char : Char} (listed : char ∈ [' ', '\n', '(', ')', ',', ';']) :
    Apart (some char) := by
  have separate : ([' ', '\n', '(', ')', ',', ';'].all fun char =>
      !isLetter char && !isDigit char) = true := by decide
  rintro _ ⟨⟩
  simpa using List.all_eq_true.mp separate char listed

theorem legible_grouped (needed : Bool) {inks : List Ink}
    (legible : ∀ next, Apart next → Legible next inks) (next : Option Char) (apart : Apart next) :
    Legible next (grouped needed inks) := by
  unfold grouped
  split
  · refine legible_closed .leftParen (by decide) (legible_append.mpr ⟨?_, ?_⟩)
    · exact legible _ (apart_of_mem (by decide))
    · exact legible_closed .rightParen (by decide) trivial
  · exact legible next apart

theorem legible_binary {symbol : String} {kind : Kind} {left right : List Ink}
    {leftNeeded rightNeeded : Bool} {next : Option Char} (spells : Spells kind symbol.toList)
    (leftLegible : ∀ next, Apart next → Legible next left)
    (rightLegible : ∀ next, Apart next → Legible next right) (apart : Apart next) :
    Legible next
      (Expr.binaryInks symbol (grouped leftNeeded left) (grouped rightNeeded right)) := by
  have first := legible_grouped leftNeeded leftLegible (some ' ') (apart_of_mem (by decide))
  have second := legible_grouped rightNeeded rightLegible next apart
  exact legible_append.mpr ⟨first, legible_spaced spells second⟩

/-- A reserved word in front of a blank. -/
theorem legible_reserved (kind : Kind) {next : Option Char} {rest : List Ink}
    (listed : kind ∈ Kind.reserved) (legible : Legible next rest) :
    Legible next (word kind.text :: space :: rest) :=
  legible_spaced (.of_reserved listed) legible

/-- A reserved word between two parts. -/
theorem legible_between (kind : Kind) {next : Option Char} {left right : List Ink}
    (listed : kind ∈ Kind.reserved) (first : ∀ next, Apart next → Legible next left)
    (second : Legible next right) :
    Legible next (left ++ space :: word kind.text :: space :: right) :=
  legible_append.mpr ⟨first _ (apart_of_mem (by decide)), legible_reserved kind listed second⟩

theorem legible_commaSeparated {groups : List (List Ink)} {next : Option Char}
    (legible : ∀ group ∈ groups, ∀ next, Apart next → Legible next group) (apart : Apart next) :
    Legible next (commaSeparated groups) := by
  fun_induction commaSeparated groups with
  | case1 => trivial
  | case2 last => exact legible last List.mem_cons_self next apart
  | case3 first rest many ih =>
      have others := ih fun group member => legible group (List.mem_cons_of_mem _ member)
      refine legible_append.mpr ⟨legible first List.mem_cons_self _ (apart_of_mem (by decide)), ?_⟩
      exact legible_closed .comma (by decide) others

end Ink

theorem Spells.decimal_toDigits (value : Nat) :
    Spells .number (Nat.toDigits 10 value) ∧ decimal (Nat.toDigits 10 value) = value := by
  refine ⟨.of_digits Nat.toDigits_ne_nil fun digit member => ?_, Nat.ofDigitChars_ten_toDigits⟩
  have decimal := Nat.isDigit_of_mem_toDigits (by omega) (Nat.le_refl 10) member
  simpa [isDigit, Char.isDigit, Char.le_def] using decimal

/-- What is written for a literal is spelled, and stands for the literal. -/
theorem Literal.exists_spells {value : Literal} (writable : value.Writable) :
    ∃ kind ∈ [Kind.number, .trueWord, .falseWord], Spells kind value.text.toList ∧
      literalOf? kind value.text.toList = some value := by
  match value with
  | .bool true => exact ⟨.trueWord, by decide, .reserved (by decide), rfl⟩
  | .bool false => exact ⟨.falseWord, by decide, .reserved (by decide), rfl⟩
  | .int value =>
      obtain ⟨natural, rfl⟩ := Int.eq_ofNat_of_zero_le writable
      obtain ⟨spells, same⟩ := Spells.decimal_toDigits natural
      have text : (Literal.int natural).text.toList = Nat.toDigits 10 natural :=
        Nat.toList_repr
      refine ⟨.number, by decide, text ▸ spells, ?_⟩
      rw [literalOf?, text, same]

theorem Kind.stops_of_apart {kind : Kind} {next : Option Char}
    (listed : kind ∈ [Kind.number, .ident, .trueWord, .falseWord, .endWord]) (apart : Apart next) :
    ∀ char ∈ next, kind.continues char = false := by
  intro char following
  obtain ⟨noLetter, noDigit⟩ := apart char following
  cases kind <;> simp_all [Kind.continues, Kind.isReserved, Kind.reserved, isLetter, isDigit]

namespace Expr

mutual

theorem legible_inks (expr : Expr) (writable : expr.Writable) (next : Option Char)
    (apart : Apart next) : Legible next expr.inks := by
  match expr with
  | literal _ value =>
      obtain ⟨kind, listed, spells, _⟩ := Literal.exists_spells writable
      refine legible_word spells (Kind.stops_of_apart ?_ apart) trivial
      revert listed
      cases kind <;> decide
  | var _ name => exact legible_word writable (Kind.stops_of_apart (by decide) apart) trivial
  | unary _ op operand =>
      have inner := legible_grouped (operand.looseOperand .unary)
        (legible_inks operand writable.1) next apart
      cases op with
      | neg => exact legible_closed .minus (by decide) inner
      | not => exact legible_reserved .notWord (by decide) inner
  | arith _ op left right =>
      exact legible_binary op.spells_symbol (legible_inks left writable.1.1)
        (legible_inks right writable.2.1) apart
  | logical _ op left right =>
      exact legible_binary op.spells_symbol (legible_inks left writable.1.1)
        (legible_inks right writable.2.1) apart
  | ifThen _ cond thenBranch =>
      have condition := legible_inks cond writable.1
      have branch := legible_grouped (thenBranch.loose .comparison)
        (legible_inks thenBranch writable.2.1) next apart
      exact legible_reserved .ifWord (by decide)
        (legible_between .thenWord (by decide) condition branch)
  | ifElse _ cond thenBranch elseBranch =>
      have condition := legible_inks cond writable.1
      have first := legible_grouped (thenBranch.endsOpen || thenBranch.loose .comparison)
        (legible_inks thenBranch writable.2.1.1)
      have second := legible_grouped (elseBranch.loose .comparison)
        (legible_inks elseBranch writable.2.2.1) next apart
      rw [inks, List.append_assoc]
      exact legible_reserved .ifWord (by decide) (legible_between .thenWord (by decide) condition
        (legible_between .elseWord (by decide) first second))
  | call _ callee args =>
      have group := legible_commaSeparated (legible_argsInks args writable.2)
        (apart_of_mem (by decide : ')' ∈ _))
      have closed : Legible next [word ")"] := legible_closed .rightParen (by decide) trivial
      have inner : Legible next (commaSeparated (argsInks args) ++ [word ")"]) :=
        legible_append.mpr ⟨group, closed⟩
      have opened := legible_closed .leftParen (by decide) inner
      refine legible_word writable.1 (Kind.stops_of_apart (by decide) ?_) opened
      exact apart_of_mem (by decide)

theorem legible_argsInks (args : List Expr) (writable : ArgsWritable args) :
    ∀ group ∈ argsInks args, ∀ next, Apart next → Legible next group := by
  match args with
  | [] => simp [argsInks]
  | arg :: rest =>
      refine List.forall_mem_cons.mpr ⟨fun next apart => ?_, legible_argsInks rest writable.2⟩
      exact legible_grouped _ (legible_inks arg writable.1.1) next apart

end

end Expr

theorem apart_stmtsInks (depth : Nat) (stmts : List Stmt) {next : Option Char}
    (apart : Apart next) : Apart ((text (stmtsInks depth stmts)).head?.or next) := by
  cases stmts with
  | nil => exact apart
  | cons stmt rest => exact apart_of_mem (by decide)

mutual

theorem Stmt.legible_inks (depth : Nat) (stmt : Stmt) (writable : stmt.Writable)
    (next : Option Char) (apart : Apart next) : Legible next (stmt.inks depth) := by
  match stmt with
  | .assign _ target value =>
      have source := value.legible_inks writable.2 next apart
      have assign := legible_spaced (.of_symbol (by decide : Kind.assign ∈ _)) source
      exact legible_spaced writable.1 assign
  | .ifThen _ cond thenBlock =>
      have condition := cond.legible_inks writable.1
      have body := Block.legible_inks depth thenBlock writable.2 next apart
      exact legible_reserved .ifWord (by decide)
        (legible_between .thenWord (by decide) condition body)
  | .ifElse _ cond thenBlock elseBlock =>
      have condition := cond.legible_inks writable.1
      have first := Block.legible_inks depth thenBlock writable.2.1
      have second := Block.legible_inks depth elseBlock writable.2.2 next apart
      rw [Stmt.inks, List.append_assoc]
      exact legible_reserved .ifWord (by decide) (legible_between .thenWord (by decide) condition
        (legible_between .elseWord (by decide) first second))
  | .whileLoop _ cond body =>
      have condition := cond.legible_inks writable.1
      have inner := Block.legible_inks depth body writable.2 next apart
      exact legible_reserved .whileWord (by decide)
        (legible_between .doWord (by decide) condition inner)

theorem Block.legible_inks (depth : Nat) (block : Block) (writable : block.Writable)
    (next : Option Char) (apart : Apart next) : Legible next (block.inks depth) := by
  have ending : Legible next [word "end"] :=
    legible_word (.of_reserved (by decide : Kind.endWord ∈ _))
      (Kind.stops_of_apart (by decide) apart) trivial
  match block with
  | .mk _ [] => exact legible_reserved .beginWord (by decide) ending
  | .mk _ (first :: rest) =>
      have head := Stmt.legible_inks (depth + 1) first writable.1
      have apartLine : Apart (some '\n') := apart_of_mem (by decide)
      have tail := legible_stmtsInks (depth + 1) rest writable.2 (some '\n') apartLine
      have body : Legible (some '\n')
          (first.inks (depth + 1) ++ stmtsInks (depth + 1) rest) :=
        legible_append.mpr ⟨head _ (apart_stmtsInks _ rest apartLine), tail⟩
      have whole : Legible next (first.inks (depth + 1) ++ stmtsInks (depth + 1) rest ++
          [line (depth * indentWidth), word "end"]) := legible_append.mpr ⟨body, ending⟩
      exact legible_lined (.of_reserved (by decide : Kind.beginWord ∈ _)) whole

theorem legible_stmtsInks (depth : Nat) (stmts : List Stmt) (writable : StmtsWritable stmts)
    (next : Option Char) (apart : Apart next) : Legible next (stmtsInks depth stmts) := by
  match stmts with
  | [] => trivial
  | stmt :: rest =>
      have head := Stmt.legible_inks depth stmt writable.1
      have tail := legible_stmtsInks depth rest writable.2 next apart
      have whole : Legible next (stmt.inks depth ++ stmtsInks depth rest) :=
        legible_append.mpr ⟨head _ (apart_stmtsInks depth rest apart), tail⟩
      exact legible_closed .semicolon (by decide) whole

end

theorem Function.legible_inks (function : Function) (writable : function.Writable)
    (next : Option Char) (apart : Apart next) : Legible next function.inks := by
  have body := legible_grouped (function.body.loose .comparison)
    (function.body.legible_inks writable.body) next apart
  have params : Legible (some ')')
      (commaSeparated (function.params.map fun param => [word param.name])) := by
    refine legible_commaSeparated (fun group member next apart => ?_) (apart_of_mem (by decide))
    obtain ⟨param, listed, rfl⟩ := List.mem_map.mp member
    exact legible_word (writable.params param listed) (Kind.stops_of_apart (by decide) apart)
      trivial
  have eq := legible_spaced (.of_symbol (by decide : Kind.eq ∈ _)) body
  have closed : Legible next
      (word ")" :: space :: word "=" :: space :: function.body.inksAt .comparison) :=
    legible_closed .rightParen (by decide) eq
  have inner : Legible next
      (commaSeparated (function.params.map fun param => [word param.name]) ++
        word ")" :: space :: word "=" :: space :: function.body.inksAt .comparison) :=
    legible_append.mpr ⟨params, closed⟩
  have opened := legible_closed .leftParen (by decide) inner
  have stopped := Kind.stops_of_apart (by decide : Kind.ident ∈ _)
    (apart_of_mem (by decide : '(' ∈ _))
  exact legible_reserved .funcWord (by decide) (legible_word writable.named stopped opened)

theorem legible_functionsInks {functions : List Function} {next : Option Char}
    (writable : ∀ function ∈ functions, function.Writable) :
    Legible next (functionsInks functions) := by
  fun_induction functionsInks functions with
  | case1 => trivial
  | case2 last =>
      have one := last.legible_inks (writable last List.mem_cons_self)
      exact legible_append.mpr ⟨one _ (apart_of_mem (by decide)), trivial⟩
  | case3 first rest many ih =>
      have one := first.legible_inks (writable first List.mem_cons_self)
      have others := ih fun function member => writable function (List.mem_cons_of_mem _ member)
      have separated : Legible next (word ";" :: line 0 :: functionsInks rest) :=
        legible_closed .semicolon (by decide) others
      exact legible_append.mpr ⟨one _ (apart_of_mem (by decide)), separated⟩

theorem Program.legible_inks {program : Program} (writable : program.Writable) :
    Legible none program.inks := by
  have body := program.body.legible_inks 0 writable.body (some '\n') (apart_of_mem (by decide))
  have ended : Legible none (program.body.inks 0 ++ [line 0]) :=
    legible_append.mpr ⟨body, trivial⟩
  have whole : Legible none
      (functionsInks program.functions ++ (program.body.inks 0 ++ [line 0])) :=
    legible_append.mpr ⟨legible_functionsInks writable.functions, ended⟩
  rw [Program.inks, List.append_assoc]
  exact legible_lined (.of_reserved (by decide : Kind.programWord ∈ _)) whole

end Sipl
