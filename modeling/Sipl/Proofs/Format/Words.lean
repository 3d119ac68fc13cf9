import Sipl.Proofs.Concrete.Brackets
import Sipl.Proofs.Format.Reread
import Sipl.Proofs.Text.Depths

namespace Sipl

open Scan Ink

/-- How a word turns as a parenthesis. -/
def wordSide : String → Side
  | "(" => .opening
  | ")" => .closing
  | _ => .inner

theorem wordSide_of_spells {kind : Kind} {lexeme : String} (spells : Spells kind lexeme.toList) :
    wordSide lexeme = kind.side := by
  unfold wordSide
  split
  · obtain rfl := spells.kind_unique (.of_symbol (by decide : Kind.leftParen ∈ _))
    rfl
  · obtain rfl := spells.kind_unique (.of_symbol (by decide : Kind.rightParen ∈ _))
    rfl
  case h_3 unopened unclosed =>
    cases kind with
    | leftParen => exact absurd (String.toList_inj.mp (spells.fixed (by decide))) unopened
    | rightParen => exact absurd (String.toList_inj.mp (spells.fixed (by decide))) unclosed
    | _ => rfl

theorem UnaryOp.wordSide_symbol (op : UnaryOp) : wordSide op.symbol = .inner := by
  cases op <;> rfl

theorem ArithOp.wordSide_symbol (op : ArithOp) : wordSide op.symbol = .inner := by
  cases op <;> rfl

theorem LogicalOp.wordSide_symbol (op : LogicalOp) : wordSide op.symbol = .inner := by
  cases op <;> rfl

theorem Literal.wordSide_text {value : Literal} (writable : value.Writable) :
    wordSide value.text = .inner := by
  obtain ⟨kind, listed, spells, _⟩ := exists_spells writable
  rw [wordSide_of_spells spells]
  revert listed
  cases kind <;> decide

theorem wordSide_of_isName {name : String} (named : IsName name) : wordSide name = .inner :=
  wordSide_of_spells named

theorem words_grouped (needed : Bool) (inks : List Ink) :
    words (grouped needed inks) =
      if needed then "(" :: (words inks ++ [")"]) else words inks := by
  cases needed with
  | false => rfl
  | true => simp [grouped, words]

namespace Expr

variable {site : Site} {cond thenBranch elseBranch left right operand first : Expr}
  {others : List Expr}

theorem words_unary {op : UnaryOp} :
    words (unary site op operand).inks =
      op.symbol :: words (grouped (operand.looseOperand .unary) operand.inks) := by
  cases op <;> simp [inks, unaryInks, words, UnaryOp.symbol]

theorem words_arith {op : ArithOp} :
    words (arith site op left right).inks =
      words (grouped (left.looseOperand op.operandPrecedence.1) left.inks) ++
        op.symbol :: words (grouped (right.looseOperand op.operandPrecedence.2) right.inks) := by
  simp [inks, binaryInks, words]

theorem words_logical {op : LogicalOp} :
    words (logical site op left right).inks =
      words (grouped (left.looseOperand op.operandPrecedence.1) left.inks) ++
        op.symbol :: words (grouped (right.looseOperand op.operandPrecedence.2) right.inks) := by
  simp [inks, binaryInks, words]

theorem words_ifThen (tight : thenBranch.loose .comparison = false) :
    words (ifThen site cond thenBranch).inks =
      "if" :: (words cond.inks ++ "then" :: words thenBranch.inks) := by
  simp [inks, words, grouped, tight]

theorem words_ifElse (tightThen : thenBranch.loose .comparison = false)
    (tightElse : elseBranch.loose .comparison = false) :
    words (ifElse site cond thenBranch elseBranch).inks =
      "if" :: (words cond.inks ++ "then" ::
        (words (grouped thenBranch.endsOpen thenBranch.inks) ++
          "else" :: words elseBranch.inks)) := by
  simp [inks, words, grouped, tightThen, tightElse]

theorem words_callEmpty {callee : String} :
    words (call site callee []).inks = callee :: "(" :: ([] ++ [")"]) := by
  simp [inks, argsInks, commaSeparated, words]

theorem words_call {callee : String}
    (tight : ∀ arg ∈ first :: others, arg.loose .comparison = false) :
    words (call site callee (first :: others)).inks =
      callee :: "(" :: ((words first.inks ++ tailWords others) ++ [")"]) := by
  simp [inks, words, words_argsInks tight]

mutual

/-- The number of words that are no parentheses. -/
def size : Expr → Nat
  | literal _ _ => 1
  | var _ _ => 1
  | unary _ _ operand => operand.size + 1
  | arith _ _ left right => left.size + (right.size + 1)
  | logical _ _ left right => left.size + (right.size + 1)
  | ifThen _ cond thenBranch => cond.size + (thenBranch.size + 1) + 1
  | ifElse _ cond thenBranch elseBranch =>
    cond.size + (thenBranch.size + (elseBranch.size + 1) + 1) + 1
  | call _ _ [] => 1
  | call _ _ (first :: others) => first.size + tailSize others + 1

/-- The number of words for arguments behind the first one. -/
def tailSize : List Expr → Nat
  | [] => 0
  | arg :: others => arg.size + tailSize others + 1

end

mutual

theorem size_unplaced (expr : Expr) : expr.unplaced.size = expr.size := by
  match expr with
  | literal .. | var .. => rfl
  | unary _ _ operand => simp only [unplaced, size, operand.size_unplaced]
  | arith _ _ left right | logical _ _ left right =>
      simp only [unplaced, size, left.size_unplaced, right.size_unplaced]
  | ifThen _ cond thenBranch =>
      simp only [unplaced, size, cond.size_unplaced, thenBranch.size_unplaced]
  | ifElse _ cond thenBranch elseBranch =>
      simp only [unplaced, size, cond.size_unplaced, thenBranch.size_unplaced,
        elseBranch.size_unplaced]
  | call _ _ [] => rfl
  | call _ _ (first :: others) =>
      simp only [unplaced, argsUnplaced, size, first.size_unplaced, tailSize_unplaced others]

theorem tailSize_unplaced (args : List Expr) : tailSize (argsUnplaced args) = tailSize args := by
  match args with
  | [] => rfl
  | arg :: others =>
      simp only [argsUnplaced, tailSize, arg.size_unplaced, tailSize_unplaced others]

end

theorem balanced_grouped {inks : List Ink} (balanced : WellBracketed wordSide (words inks))
    (needed : Bool) : WellBracketed wordSide (words (grouped needed inks)) := by
  rw [words_grouped]
  cases needed with
  | false => exact balanced
  | true => exact .enclosed rfl balanced rfl

theorem inners_grouped (needed : Bool) (inks : List Ink) :
    inners wordSide (words (grouped needed inks)) = inners wordSide (words inks) := by
  rw [words_grouped]
  cases needed with
  | false => rfl
  | true =>
      rw [if_pos rfl, inners_opening rfl, inners_append, inners_closing rfl]
      rfl

/-- Some words are balanced and of the given number. -/
structure Counted (words : List String) (number : Nat) : Prop where
  balanced : WellBracketed wordSide words
  inners : inners wordSide words = number

theorem Counted.grouped {inks : List Ink} {number : Nat} (counted : Counted (words inks) number)
    (needed : Bool) : Counted (words (Ink.grouped needed inks)) number :=
  ⟨balanced_grouped counted.balanced needed,
    (inners_grouped needed inks).trans counted.inners⟩

theorem Counted.behind {word : String} {words : List String} {number : Nat}
    (counted : Counted words number) (plain : wordSide word = .inner) :
    Counted (word :: words) (number + 1) :=
  ⟨counted.balanced.cons plain, by rw [inners_inner plain, counted.inners]⟩

theorem Counted.append {front back : List String} {first second : Nat}
    (counted : Counted front first) (also : Counted back second) :
    Counted (front ++ back) (first + second) :=
  ⟨counted.balanced.append also.balanced, by rw [inners_append, counted.inners, also.inners]⟩

theorem Counted.without {words front middle back : List String} {number : Nat}
    (counted : Counted words number) (pair : Pair wordSide words front middle back) :
    Counted (front ++ (middle ++ back)) number :=
  ⟨pair.without counted.balanced, pair.inners_without.trans counted.inners⟩

theorem Counted.enclosed {words : List String} {number : Nat} (counted : Counted words number) :
    Counted ("(" :: (words ++ [")"])) number :=
  ⟨.enclosed rfl counted.balanced rfl, by
    rw [inners_opening rfl, inners_append, inners_closing rfl, counted.inners]
    rfl⟩

mutual

theorem counted (expr : Expr) (writable : expr.Writable) : Counted (words expr.inks) expr.size := by
  match expr with
  | literal _ value => exact .behind ⟨.nil, rfl⟩ (Literal.wordSide_text writable)
  | var _ name => exact .behind ⟨.nil, rfl⟩ (wordSide_of_isName writable)
  | unary _ op operand =>
      rw [words_unary]
      exact ((counted operand writable.1).grouped _).behind op.wordSide_symbol
  | arith _ op left right =>
      rw [words_arith]
      exact ((counted left writable.1.1).grouped _).append
        (((counted right writable.2.1).grouped _).behind op.wordSide_symbol)
  | logical _ op left right =>
      rw [words_logical]
      exact ((counted left writable.1.1).grouped _).append
        (((counted right writable.2.1).grouped _).behind op.wordSide_symbol)
  | ifThen _ cond thenBranch =>
      rw [words_ifThen (tight_of_fits writable.2.2)]
      exact ((counted cond writable.1).append ((counted thenBranch writable.2.1).behind rfl)).behind
        rfl
  | ifElse _ cond thenBranch elseBranch =>
      obtain ⟨condition, ⟨first, fitsFirst⟩, second, fitsSecond⟩ := writable
      rw [words_ifElse (tight_of_fits fitsFirst) (tight_of_fits fitsSecond)]
      have last : Counted ("else" :: words elseBranch.inks) (elseBranch.size + 1) :=
        (counted elseBranch second).behind rfl
      have branches := ((counted thenBranch first).grouped thenBranch.endsOpen).append last
      exact ((counted cond condition).append (branches.behind rfl)).behind rfl
  | call _ callee [] =>
      rw [words_callEmpty]
      exact (Counted.enclosed ⟨.nil, rfl⟩).behind (wordSide_of_isName writable.1)
  | call _ callee (first :: others) =>
      obtain ⟨named, ⟨inside, fits⟩, rest⟩ := writable
      have tight : ∀ arg ∈ first :: others, arg.loose .comparison = false :=
        List.forall_mem_cons.mpr ⟨tight_of_fits fits,
          fun arg member => tight_of_fits (argsWritable_iff.mp rest arg member).2⟩
      rw [words_call tight]
      exact ((counted first inside).append (counted_tail others rest)).enclosed.behind
        (wordSide_of_isName named)

theorem counted_tail (args : List Expr) (writable : ArgsWritable args) :
    Counted (tailWords args) (tailSize args) := by
  match args with
  | [] => exact ⟨.nil, rfl⟩
  | arg :: others =>
      have split : tailWords (arg :: others) = "," :: (words arg.inks ++ tailWords others) := by
        simp [tailWords]
      rw [split]
      exact ((counted arg writable.1.1).append (counted_tail others writable.2)).behind rfl

end

end Expr

end Sipl
