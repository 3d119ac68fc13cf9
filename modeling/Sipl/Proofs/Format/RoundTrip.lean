import Sipl.Analysis
import Sipl.Proofs.Format.Reread
import Sipl.Proofs.Format.Unplaced
import Sipl.Proofs.Reader.Acceptance

namespace Sipl

open Grammar Reader Ink Scan

mutual

def Stmt.emptyBlocks : Stmt → Nat
  | .assign .. => 0
  | .ifThen _ _ thenBlock => thenBlock.emptyBlocks
  | .ifElse _ _ thenBlock elseBlock => thenBlock.emptyBlocks + elseBlock.emptyBlocks
  | .whileLoop _ _ body => body.emptyBlocks

/-- How many blocks without statements there are, the block itself included. -/
def Block.emptyBlocks : Block → Nat
  | .mk _ stmts => stmtsEmptyBlocks stmts

/-- How many there are in a block of the given statements. -/
def stmtsEmptyBlocks : List Stmt → Nat
  | [] => 1
  | [last] => last.emptyBlocks
  | first :: rest => first.emptyBlocks + stmtsEmptyBlocks rest

end

def Reader.Code.emptyBlocks : Reader.Code → Nat
  | .block built => built.emptyBlocks
  | .statements stmts => stmtsEmptyBlocks stmts
  | .statement stmt => stmt.emptyBlocks

/-- Every block without statements is reported where it stands. -/
theorem Reader.Builds.emptyBlocks_le {start stop : Cursor} {code : Reader.Code}
    {errors : List SyntaxError} (builds : Builds start code errors stop) :
    code.emptyBlocks ≤ errors.length := by
  induction builds with
  | block opened inner closed ihInner => exact ihInner
  | empty closed => simp [Code.emptyBlocks, stmtsEmptyBlocks]
  | last one other ihOne => exact ihOne
  | @more _ _ _ _ stmts _ _ one semicolon rest ihOne ihRest =>
      rw [List.length_append]
      simp only [Code.emptyBlocks] at ihOne ihRest ⊢
      cases stmts with
      | nil =>
          simp only [stmtsEmptyBlocks]
          omega
      | cons next others =>
          rw [stmtsEmptyBlocks]
          · omega
          · simp
  | ifThen word condition thenWord only other ihOnly => exact ihOnly
  | ifElse word condition thenWord first elseWord second ihFirst ihSecond =>
      rw [List.length_append]
      exact Nat.add_le_add ihFirst ihSecond
  | whileLoop word condition doWord only ihOnly => exact ihOnly
  | assign name assign source => exact Nat.zero_le _

/-- Nothing that comes next belongs to a statement that ends here. -/
def StatementEnds (rest : List String) : Prop :=
  NotNext (.leftParen :: .elseWord :: .orWord :: absorbed .disjunction) rest

/-- Code is built again, and only its blocks without statements are reported. -/
def Rebuilds {Value : Type} (code : Value → Reader.Code) (same : Value → Prop) (emptyBlocks : Nat)
    (cursor : Cursor) (rest : List String) : Prop :=
  ∃ again errors stop, Builds cursor (code again) errors stop ∧ same again ∧
    errors.map SyntaxError.fault = List.replicate emptyBlocks .invalidStatement ∧ stop.At rest

def Block.Survives (block : Block) : Prop :=
  ∀ depth cursor rest, cursor.At (words (block.inks depth) ++ rest) →
    Rebuilds .block (fun again => again.unplaced = block.unplaced) block.emptyBlocks cursor rest

def Stmt.Survives (stmt : Stmt) : Prop :=
  ∀ depth cursor rest, cursor.At (words (stmt.inks depth) ++ rest) → StatementEnds rest →
    Rebuilds .statement (fun again => again.unplaced = stmt.unplaced) stmt.emptyBlocks cursor rest

namespace Stmt

theorem survives_assign {site : Site} {target : String} {value : Expr} (named : IsName target)
    (writable : value.Writable) : (assign site target value).Survives := by
  intro depth cursor rest stands ends
  have split : words ((assign site target value).inks depth) ++ rest =
      target :: ":=" :: (words value.inks ++ rest) := by
    simp [inks, words]
  rw [split] at stands
  have name : cursor.kind = .ident := stands.kind_eq named
  have assigned : cursor.advance.kind = .assign :=
    stands.advance.kind_eq (.of_symbol (by decide : Kind.assign ∈ _))
  have loosest : value.loose .or = false := rfl
  have rereads : Rereads value .disjunction cursor.advance.advance rest :=
    (Expr.survives_of_writable value writable).at_level loosest stands.advance.advance
      ⟨ends.mono (by decide), fun _ => ends.mono (by decide), fun _ => ends.mono (by decide)⟩
  obtain ⟨again, stop, reads, same, standsStop⟩ := rereads.close (ends.mono (by decide))
  have lexeme : cursor.current.lexeme = target := stands.lexeme_eq
  refine ⟨_, [], stop, .assign name assigned reads, ?_, rfl, standsStop⟩
  simp only [unplaced, same, lexeme]

theorem survives_ifThen {site : Site} {cond : Expr} {thenBlock : Block}
    (writable : cond.Writable) (thenSurvives : thenBlock.Survives) :
    (ifThen site cond thenBlock).Survives := by
  intro depth cursor rest stands ends
  have split : words ((ifThen site cond thenBlock).inks depth) ++ rest =
      "if" :: (words cond.inks ++ "then" :: (words (thenBlock.inks depth) ++ rest)) := by
    simp [inks, words]
  rw [split] at stands
  have word : cursor.kind = .ifWord :=
    stands.kind_eq (.of_reserved (by decide : Kind.ifWord ∈ _))
  obtain ⟨condAgain, afterCond, condition, condSame, thenWord, standsThen⟩ :=
    (Expr.survives_of_writable cond writable).condition (by decide : Kind.thenWord ∈ _)
      stands.advance
  obtain ⟨again, errors, stop, builds, same, reported, standsStop⟩ :=
    thenSurvives depth _ rest standsThen
  have other : stop.kind ≠ .elseWord := by
    intro elseWord
    exact ends stop standsStop (by simp [elseWord])
  refine ⟨_, errors, stop, .ifThen word condition thenWord builds other, ?_, reported, standsStop⟩
  simp only [unplaced, condSame, same]

theorem survives_ifElse {site : Site} {cond : Expr} {thenBlock elseBlock : Block}
    (writable : cond.Writable) (thenSurvives : thenBlock.Survives)
    (elseSurvives : elseBlock.Survives) : (ifElse site cond thenBlock elseBlock).Survives := by
  intro depth cursor rest stands ends
  have split : words ((ifElse site cond thenBlock elseBlock).inks depth) ++ rest =
      "if" :: (words cond.inks ++ "then" :: (words (thenBlock.inks depth) ++
        "else" :: (words (elseBlock.inks depth) ++ rest))) := by
    simp [inks, words]
  rw [split] at stands
  have word : cursor.kind = .ifWord :=
    stands.kind_eq (.of_reserved (by decide : Kind.ifWord ∈ _))
  obtain ⟨condAgain, afterCond, condition, condSame, thenWord, standsThen⟩ :=
    (Expr.survives_of_writable cond writable).condition (by decide : Kind.thenWord ∈ _)
      stands.advance
  obtain ⟨thenAgain, errors, afterThen, first, thenSame, reported, standsElse⟩ :=
    thenSurvives depth _ _ standsThen
  have elseWord : afterThen.kind = .elseWord :=
    standsElse.kind_eq (.of_reserved (by decide : Kind.elseWord ∈ _))
  obtain ⟨elseAgain, others, stop, second, elseSame, othersReported, standsStop⟩ :=
    elseSurvives depth _ rest standsElse.advance
  refine ⟨_, errors ++ others, stop, .ifElse word condition thenWord first elseWord second, ?_, ?_,
    standsStop⟩
  · simp only [unplaced, condSame, thenSame, elseSame]
  · rw [List.map_append, reported, othersReported, List.replicate_append_replicate]
    rfl

theorem survives_whileLoop {site : Site} {cond : Expr} {body : Block}
    (writable : cond.Writable) (bodySurvives : body.Survives) :
    (whileLoop site cond body).Survives := by
  intro depth cursor rest stands ends
  have split : words ((whileLoop site cond body).inks depth) ++ rest =
      "while" :: (words cond.inks ++ "do" :: (words (body.inks depth) ++ rest)) := by
    simp [inks, words]
  rw [split] at stands
  have word : cursor.kind = .whileWord :=
    stands.kind_eq (.of_reserved (by decide : Kind.whileWord ∈ _))
  obtain ⟨condAgain, afterCond, condition, condSame, doWord, standsDo⟩ :=
    (Expr.survives_of_writable cond writable).condition (by decide : Kind.doWord ∈ _)
      stands.advance
  obtain ⟨again, errors, stop, builds, same, reported, standsStop⟩ :=
    bodySurvives depth _ rest standsDo
  refine ⟨_, errors, stop, .whileLoop word condition doWord builds, ?_, reported, standsStop⟩
  simp only [unplaced, condSame, same]

end Stmt

/-- Statements between `begin` and `end` are built again. -/
theorem rebuilds_statements {first : Stmt} {others : List Stmt} {depth : Nat} {cursor : Cursor}
    {rest : List String} (survive : ∀ stmt ∈ first :: others, stmt.Survives)
    (stands : cursor.At (words (first.inks depth) ++
      (words (stmtsInks depth others) ++ "end" :: rest))) :
    Rebuilds .statements (fun again => stmtsUnplaced again = stmtsUnplaced (first :: others))
      (stmtsEmptyBlocks (first :: others)) cursor ("end" :: rest) := by
  have spells : Spells .endWord "end".toList := .reserved (by decide)
  induction others generalizing first cursor with
  | nil =>
      have ends : StatementEnds ("end" :: rest) := notNext_of_spells spells (by decide)
      obtain ⟨again, errors, stop, builds, same, reported, standsStop⟩ :=
        survive first List.mem_cons_self depth cursor _ stands ends
      have other : stop.kind ≠ .semicolon := by simp [standsStop.kind_eq spells]
      refine ⟨[again], errors, stop, .last builds other, ?_, reported, standsStop⟩
      simp only [stmtsUnplaced, same]
  | cons next others ih =>
      have split : words (stmtsInks depth (next :: others)) ++ "end" :: rest =
          ";" ::
            (words (next.inks depth) ++ (words (stmtsInks depth others) ++ "end" :: rest)) := by
        simp [stmtsInks, words]
      rw [split] at stands
      have semicolonSpells : Spells .semicolon ";".toList := .symbol (by decide)
      have ends : StatementEnds (";" :: (words (next.inks depth) ++
          (words (stmtsInks depth others) ++ "end" :: rest))) :=
        notNext_of_spells semicolonSpells (by decide)
      obtain ⟨again, errors, later, builds, same, reported, standsLater⟩ :=
        survive first List.mem_cons_self depth cursor _ stands ends
      obtain ⟨againOthers, more, stop, tail, sameOthers, moreReported, standsStop⟩ :=
        ih (fun stmt member => survive stmt (List.mem_cons_of_mem _ member)) standsLater.advance
      have semicolon := standsLater.kind_eq semicolonSpells
      refine ⟨again :: againOthers, errors ++ more, stop, .more builds semicolon tail, ?_, ?_,
        standsStop⟩
      · simp only [stmtsUnplaced, same]
        exact congrArg _ sameOthers
      · rw [List.map_append, reported, moreReported, List.replicate_append_replicate]
        rfl

namespace Block

theorem survives_empty {span : Span} : (mk span []).Survives := by
  intro depth cursor rest stands
  have opened : cursor.kind = .beginWord :=
    stands.kind_eq (.of_reserved (by decide : Kind.beginWord ∈ _))
  have closed : cursor.advance.kind = .endWord :=
    stands.advance.kind_eq (.of_reserved (by decide : Kind.endWord ∈ _))
  exact ⟨_, _, _, .block opened (.empty closed) closed, rfl, rfl, stands.advance.advance⟩

theorem survives_filled {span : Span} {first : Stmt} {others : List Stmt}
    (survive : ∀ stmt ∈ first :: others, stmt.Survives) :
    (mk span (first :: others)).Survives := by
  intro depth cursor rest stands
  have split : words ((mk span (first :: others)).inks depth) ++ rest =
      "begin" :: (words (first.inks (depth + 1)) ++
        (words (stmtsInks (depth + 1) others) ++ "end" :: rest)) := by
    simp [inks, words]
  rw [split] at stands
  have opened : cursor.kind = .beginWord :=
    stands.kind_eq (.of_reserved (by decide : Kind.beginWord ∈ _))
  obtain ⟨again, errors, later, builds, same, reported, standsLater⟩ :=
    rebuilds_statements survive stands.advance
  have closed : later.kind = .endWord :=
    standsLater.kind_eq (.of_reserved (by decide : Kind.endWord ∈ _))
  refine ⟨_, errors, _, .block opened builds closed, ?_, reported, standsLater.advance⟩
  simp only [unplaced, same]

end Block

mutual

theorem Stmt.survives_of_writable (stmt : Stmt) (writable : stmt.Writable) : stmt.Survives := by
  match stmt with
  | .assign .. => exact Stmt.survives_assign writable.1 writable.2
  | .ifThen _ _ thenBlock =>
      exact Stmt.survives_ifThen writable.1 (Block.survives_of_writable thenBlock writable.2)
  | .ifElse _ _ thenBlock elseBlock =>
      exact Stmt.survives_ifElse writable.1 (Block.survives_of_writable thenBlock writable.2.1)
        (Block.survives_of_writable elseBlock writable.2.2)
  | .whileLoop _ _ body =>
      exact Stmt.survives_whileLoop writable.1 (Block.survives_of_writable body writable.2)

theorem Block.survives_of_writable (block : Block) (writable : block.Writable) :
    block.Survives := by
  match block with
  | .mk _ [] => exact Block.survives_empty
  | .mk _ (first :: others) =>
      exact Block.survives_filled (stmts_survive (first :: others) writable)

theorem stmts_survive (stmts : List Stmt) (writable : StmtsWritable stmts) :
    ∀ stmt ∈ stmts, stmt.Survives := by
  match stmts with
  | [] => simp
  | stmt :: rest =>
      exact List.forall_mem_cons.mpr ⟨Stmt.survives_of_writable stmt writable.1,
        stmts_survive rest writable.2⟩

end

/-- Parameters behind the first one, as they are written. -/
def paramWords (params : List Param) : List String :=
  params.flatMap fun param => [",", param.name]

theorem words_params (first : Param) (others : List Param) :
    words (commaSeparated ((first :: others).map fun param => [word param.name])) =
      first.name :: paramWords others := by
  induction others generalizing first with
  | nil => simp [commaSeparated, paramWords, words]
  | cons next others ih =>
      have rest := ih next
      simp only [List.map_cons] at rest ⊢
      rw [commaSeparated, words_append]
      · simp only [words, rest]
        simp [paramWords]
      · simp

/-- Parameters without their places. -/
def paramNames (params : List Param) : List String := params.map Param.name

theorem redeclares_paramsTail {params : List Param} {cursor : Cursor} {rest : List String}
    (named : ∀ param ∈ params, IsName param.name)
    (stands : cursor.At (paramWords params ++ ")" :: rest)) :
    ∃ again stop, Declares cursor (.paramsTail again) stop ∧
      paramNames again = paramNames params ∧ stop.At (")" :: rest) := by
  induction params generalizing cursor with
  | nil =>
      have closed : cursor.kind = .rightParen :=
        stands.kind_eq (.of_symbol (by decide : Kind.rightParen ∈ _))
      exact ⟨[], cursor, .paramsEnd (by simp [closed]), rfl, stands⟩
  | cons param others ih =>
      have comma : cursor.kind = .comma :=
        stands.kind_eq (.of_symbol (by decide : Kind.comma ∈ _))
      have name : cursor.advance.kind = .ident :=
        stands.advance.kind_eq (named param List.mem_cons_self)
      have lexeme : cursor.advance.current.lexeme = param.name := stands.advance.lexeme_eq
      obtain ⟨again, stop, tail, same, standsStop⟩ :=
        ih (fun other member => named other (List.mem_cons_of_mem _ member)) stands.advance.advance
      refine ⟨_, stop, .paramsMore comma name tail, ?_, standsStop⟩
      simp only [paramNames, paramOf, List.map_cons, lexeme] at same ⊢
      rw [same]

theorem redeclares_params {params : List Param} {cursor : Cursor} {rest : List String}
    (named : ∀ param ∈ params, IsName param.name)
    (stands : cursor.At
      (words (commaSeparated (params.map fun param => [word param.name])) ++ ")" :: rest)) :
    ∃ again stop, Declares cursor (.params again) stop ∧
      paramNames again = paramNames params ∧ stop.At (")" :: rest) := by
  cases params with
  | nil =>
      have closed : cursor.kind = .rightParen :=
        stands.kind_eq (.of_symbol (by decide : Kind.rightParen ∈ _))
      exact ⟨[], cursor, .noParams closed, rfl, stands⟩
  | cons first others =>
      rw [words_params] at stands
      have name : cursor.kind = .ident := stands.kind_eq (named first List.mem_cons_self)
      have lexeme : cursor.current.lexeme = first.name := stands.lexeme_eq
      obtain ⟨again, stop, tail, same, standsStop⟩ :=
        redeclares_paramsTail (fun other member => named other (List.mem_cons_of_mem _ member))
          stands.advance
      refine ⟨_, stop, .params name tail, ?_, standsStop⟩
      simp only [paramNames, paramOf, List.map_cons, lexeme] at same ⊢
      rw [same]

theorem redeclares_function {function : Function} {cursor : Cursor} {rest : List String}
    (writable : function.Writable)
    (free : NotNext (.leftParen :: .elseWord :: absorbed .comparison) rest)
    (stands : cursor.At (words function.inks ++ rest)) :
    cursor.kind = .funcWord ∧
      ∃ again stop, Declares cursor.advance (.function cursor.current again) stop ∧
        again.unplaced = function.unplaced ∧ stop.At rest := by
  have tight := Expr.tight_of_fits writable.fits
  have split : words function.inks ++ rest = "func" :: function.name :: "(" ::
      (words (commaSeparated (function.params.map fun param => [word param.name])) ++
        ")" :: "=" :: (words function.body.inks ++ rest)) := by
    simp [Function.inks, Expr.inksAt, words, Ink.grouped, tight]
  rw [split] at stands
  have funcWord : cursor.kind = .funcWord :=
    stands.kind_eq (.of_reserved (by decide : Kind.funcWord ∈ _))
  have standsName := stands.advance
  have name : cursor.advance.kind = .ident := standsName.kind_eq writable.named
  have lexeme : cursor.advance.current.lexeme = function.name := standsName.lexeme_eq
  have opened : cursor.advance.advance.kind = .leftParen :=
    standsName.advance.kind_eq (.of_symbol (by decide : Kind.leftParen ∈ _))
  obtain ⟨params, later, inner, sameParams, standsLater⟩ :=
    redeclares_params writable.params standsName.advance.advance
  have closed : later.kind = .rightParen :=
    standsLater.kind_eq (.of_symbol (by decide : Kind.rightParen ∈ _))
  have eq : later.advance.kind = .eq :=
    standsLater.advance.kind_eq (.of_symbol (by decide : Kind.eq ∈ _))
  have rereads : Rereads function.body .comparison later.advance.advance rest :=
    (Expr.survives_of_writable function.body writable.body).at_level tight
      standsLater.advance.advance
      ⟨free.mono (by decide), fun _ => free.mono (by decide), fun _ => free.mono (by decide)⟩
  obtain ⟨body, stop, reads, sameBody, standsStop⟩ :=
    rereads.close (fun _ _ => List.not_mem_nil)
  refine ⟨funcWord, _, stop, .function name opened inner closed eq reads, ?_, standsStop⟩
  have unplacedParams : ∀ params : List Param,
      params.map (fun param => Param.mk param.name default) =
        (paramNames params).map fun name => ⟨name, default⟩ := by
    simp [paramNames, Function.comp_def]
  simp only [Function.unplaced, lexeme, sameBody, unplacedParams, sameParams]

theorem redeclares_functions {functions : List Function} {cursor : Cursor} {rest : List String}
    (writable : ∀ function ∈ functions, function.Writable)
    (stands : cursor.At (words (functionsInks functions) ++ "begin" :: rest)) :
    ∃ again stop, Declares cursor (.functions again) stop ∧
      again.map Function.unplaced = functions.map Function.unplaced ∧
      stop.At ("begin" :: rest) := by
  have spells : Spells .beginWord "begin".toList := .reserved (by decide)
  fun_induction functionsInks functions generalizing cursor with
  | case1 =>
      have main := stands.kind_eq spells
      exact ⟨[], cursor, .noFunctions (by simp [main]), rfl, stands⟩
  | case2 last =>
      rw [words_append, List.append_assoc] at stands
      obtain ⟨funcWord, again, stop, declares, same, standsStop⟩ :=
        redeclares_function (writable last List.mem_cons_self)
          (notNext_of_spells spells (by decide)) stands
      have other : stop.kind ≠ .semicolon := by simp [standsStop.kind_eq spells]
      refine ⟨[again], stop, .functionsLast funcWord declares other, ?_, standsStop⟩
      simp only [List.map_cons, List.map_nil, same]
  | case3 first others many ih =>
      rw [words_append, List.append_assoc] at stands
      have semicolonSpells : Spells .semicolon ";".toList := .symbol (by decide)
      obtain ⟨funcWord, again, later, declares, same, standsLater⟩ :=
        redeclares_function (writable first List.mem_cons_self)
          (notNext_of_spells semicolonSpells (by decide)) stands
      have semicolon := standsLater.kind_eq semicolonSpells
      obtain ⟨againOthers, stop, tail, sameOthers, standsStop⟩ :=
        ih (fun function member => writable function (List.mem_cons_of_mem _ member))
          standsLater.advance
      refine ⟨again :: againOthers, stop, .functionsMore funcWord declares semicolon tail, ?_,
        standsStop⟩
      simp only [List.map_cons, same, sameOthers]

namespace Program

/-- The tree is read again where its canonical text is. -/
theorem reread {program : Program} (writable : program.Writable) {cursor : Cursor}
    (stands : cursor.At (words program.inks)) :
    ∃ again, (Parsed.ofCursor cursor).program? = some again ∧
      again.unplaced = program.unplaced ∧
      (Parsed.ofCursor cursor).errors.map SyntaxError.fault =
        List.replicate program.body.emptyBlocks .invalidStatement := by
  have opening : ∃ tail, words (program.body.inks 0) = "begin" :: tail := by
    cases program.body with
    | mk span stmts => cases stmts <;> exact ⟨_, rfl⟩
  obtain ⟨tail, opening⟩ := opening
  have split : words program.inks =
      "program" :: (words (functionsInks program.functions) ++ words (program.body.inks 0)) := by
    simp [inks, words]
  rw [split] at stands
  have word : cursor.kind = .programWord :=
    stands.kind_eq (.of_reserved (by decide : Kind.programWord ∈ _))
  have standsFunctions := stands.advance
  rw [opening] at standsFunctions
  obtain ⟨functions, later, declares, sameFunctions, standsBody⟩ :=
    redeclares_functions writable.functions standsFunctions
  rw [← opening, ← List.append_nil (words (program.body.inks 0))] at standsBody
  obtain ⟨body, errors, stop, builds, sameBody, reported, standsEnd⟩ :=
    Block.survives_of_writable program.body writable.body 0 later [] standsBody
  have ended : stop.kind = .eof := standsEnd.kind_eq_eof
  obtain ⟨rfl, cleanFunctions, rfl⟩ := declared_of_declares declares
  obtain ⟨rfl, rfl, rfl⟩ := built_of_builds builds
  refine ⟨⟨_, _⟩, Parsed.program?_ofCursor word, ?_, ?_⟩
  · simp only [unplaced, sameFunctions, sameBody]
  · simp [Parsed.errors_ofCursor word, cleanFunctions, Cursor.atEnd, ended, reported]

theorem toList_format (program : Program) : program.format.toList = text program.inks := by
  have split : text program.inks = text (word "program" :: line 0 ::
      functionsInks program.functions ++ program.body.inks 0) ++ ['\n'] := by
    simp [inks, chars]
  have ended : (text program.inks).getLast? = some '\n' := by
    rw [split, List.getLast?_concat]
  rw [format, Layout.endLine, toList_render, if_pos ended, toList_render]

theorem emptyBlocks_eq_zero {cursor : Cursor} {program : Program}
    (found : (Parsed.ofCursor cursor).program? = some program)
    (clean : (Parsed.ofCursor cursor).errors = []) : program.body.emptyBlocks = 0 := by
  obtain ⟨word, functions, later, declares, body, stop, builds, ended⟩ :=
    Parsed.errors_ofCursor_eq_nil_iff.mp clean
  have bounded : body.emptyBlocks ≤ 0 := builds.emptyBlocks_le
  obtain ⟨rfl, _, rfl⟩ := declared_of_declares declares
  obtain ⟨rfl, _, rfl⟩ := built_of_builds builds
  obtain rfl := Option.some.inj ((Parsed.program?_ofCursor word).symm.trans found)
  exact Nat.le_zero.mp bounded

/-- The canonical text of a program that was read, in whatever source, is read without a stray
character as the same tree, up to places.  A block without statements is reported and nothing else
is; so a second formatting changes nothing. -/
theorem format_reads_back (source : String) (program : Program)
    (found : (Analysis.ofSource source).parsed.program? = some program) :
    (scan program.format).errors = [] ∧
      ∃ again, (Analysis.ofSource program.format).parsed.program? = some again ∧
        again.unplaced = program.unplaced ∧
        (Analysis.ofSource program.format).parsed.errors.map SyntaxError.fault =
          List.replicate program.body.emptyBlocks .invalidStatement ∧
        ((Analysis.ofSource source).parsed.errors = [] →
          (Analysis.ofSource program.format).diagnostics = []) ∧
        again.format = program.format := by
  have spelled : (Cursor.start (scan source).tokens (closed_scan source)).IsSpelled := by
    rw [Cursor.IsSpelled, Parsed.upcoming_start]
    exact exists_spelled_scanFrom 0 1 source.toList
  have writable : program.Writable := Parsed.writable_ofCursor spelled found
  obtain ⟨written, legible⟩ := spelled_scanFrom 0 1 (legible_inks writable)
  rw [← toList_format] at written legible
  have stands : (Cursor.start (scan program.format).tokens (closed_scan program.format)).At
      (words program.inks) := by
    rw [Cursor.At, Parsed.upcoming_start]
    exact written
  obtain ⟨again, foundAgain, same, reported⟩ := reread writable stands
  refine ⟨legible, again, foundAgain, same, reported, ?_, ?_⟩
  · intro clean
    have none : program.body.emptyBlocks = 0 := emptyBlocks_eq_zero found clean
    rw [none] at reported
    have silent : (Analysis.ofSource program.format).parsed.errors = [] :=
      List.map_eq_nil_iff.mp reported
    have quiet : (scan program.format).errors = [] := legible
    have diagnostics : (Analysis.ofSource program.format).diagnostics =
        (scan program.format).errors.map LexicalError.diagnostic ++
          (Analysis.ofSource program.format).parsed.errors.map SyntaxError.diagnostic := rfl
    rw [diagnostics, quiet, silent]
    rfl
  · rw [← again.format_unplaced, same, program.format_unplaced]

def idleSource : String := "program begin while x < 1 do begin end end"

/-- What is read of it, though the body of the loop has no statements. -/
def idleProgram : Program :=
  ⟨[], .mk ⟨8, 42⟩ [.whileLoop ⟨1, ⟨14, 38⟩⟩
    (.arith ⟨1, ⟨20, 25⟩⟩ .lt (.var ⟨1, ⟨20, 21⟩⟩ "x") (.literal ⟨1, ⟨24, 25⟩⟩ (.int 1)))
    (.mk ⟨29, 38⟩ [])]⟩

theorem format_reads_back_of_idleSource :
    (Analysis.ofSource idleSource).parsed.program? = some idleProgram ∧
      (scan idleProgram.format).errors = [] ∧
      ∃ again, (Analysis.ofSource idleProgram.format).parsed.program? = some again ∧
        again.unplaced = idleProgram.unplaced ∧
        (Analysis.ofSource idleProgram.format).parsed.errors.map SyntaxError.fault =
          [.invalidStatement] ∧
        again.format = idleProgram.format := by
  have found : (Analysis.ofSource idleSource).parsed.program? = some idleProgram := by
    with_unfolding_all rfl
  obtain ⟨legible, again, foundAgain, same, reported, _, text⟩ :=
    format_reads_back idleSource idleProgram found
  exact ⟨found, legible, again, foundAgain, same, reported, text⟩

end Program

end Sipl
