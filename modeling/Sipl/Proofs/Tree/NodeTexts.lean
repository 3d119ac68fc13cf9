import Sipl.Proofs.Format.Printable
import Sipl.Proofs.Text.JsonReading
import Sipl.Proofs.Tree.Indentation

namespace Sipl

open Scan OutlineLine

/-! What an outline writes of one node tells the node, once it is known how many parts it has: the
same sign stands for the negation of one operand and for the difference of two, and the same word
for an `if` expression with one branch and with two. -/

/-- A name as it may occur in a program. -/
def IsWord (name : String) : Prop :=
  name ≠ "" ∧ ∀ letter ∈ name.toList, isLetter letter = true

instance (name : String) : Decidable (IsWord name) :=
  decidable_of_iff (name ≠ "" ∧ name.toList.all isLetter = true) (by rw [IsWord, List.all_eq_true])

namespace IsWord

variable {name other rest restToo : String}

theorem graphic (word : IsWord name) : Graphic name := by
  intro char member
  have letter := isLetter_iff.mp (word.2 char member)
  exact show 32 ≤ char.toNat by omega

theorem lacks (word : IsWord name) {char : Char} (apart : isLetter char = false) :
    Lacks char name := by
  intro member
  rw [word.2 char member] at apart
  cases apart

/-- A name ends where its letters do. -/
theorem append_inj (word : IsWord name) (wordToo : IsWord other)
    (stops : ∀ char ∈ rest.toList.head?, isLetter char = false)
    (stopsToo : ∀ char ∈ restToo.toList.head?, isLetter char = false)
    (same : name ++ rest = other ++ restToo) : name = other ∧ rest = restToo := by
  have chars := congrArg String.toList same
  rw [String.toList_append, String.toList_append] at chars
  obtain ⟨names, rests⟩ := append_inj_of_stop word.2 wordToo.2 stops stopsToo chars
  exact ⟨String.toList_inj.mp names, String.toList_inj.mp rests⟩

end IsWord

/-- A text that lacks a sign ends where the sign first occurs. -/
theorem Lacks.append_inj {sign : Char} {text other rest restToo : String} (lacks : Lacks sign text)
    (lacksToo : Lacks sign other) (stops : ∀ char ∈ rest.toList.head?, char = sign)
    (stopsToo : ∀ char ∈ restToo.toList.head?, char = sign)
    (same : text ++ rest = other ++ restToo) : text = other ∧ rest = restToo := by
  have inside : ∀ {text : String}, Lacks sign text →
      ∀ char ∈ text.toList, (char != sign) = true := by
    intro text lacks char member
    exact bne_iff_ne.mpr fun found => lacks (found ▸ member)
  have outside : ∀ {rest : String}, (∀ char ∈ rest.toList.head?, char = sign) →
      ∀ char ∈ rest.toList.head?, (char != sign) = false := by
    intro rest stops char first
    rw [stops char first, bne_self_eq_false]
  have chars := congrArg String.toList same
  rw [String.toList_append, String.toList_append] at chars
  obtain ⟨texts, rests⟩ :=
    append_inj_of_stop (inside lacks) (inside lacksToo) (outside stops) (outside stopsToo) chars
  exact ⟨String.toList_inj.mp texts, String.toList_inj.mp rests⟩

theorem Literal.char_of_mem_text {value : Int} {char : Char}
    (member : char ∈ (Literal.int value).text.toList) : char = '-' ∨ char.isDigit = true := by
  have decimal : ∀ {number : Nat}, char ∈ number.repr.toList → char.isDigit = true := by
    intro number inside
    rw [Nat.toList_repr] at inside
    exact Nat.isDigit_of_mem_toDigits (by decide) (by decide) inside
  rw [text, Int.toString_eq_repr, Int.repr_eq_if] at member
  split at member
  · exact .inr (decimal member)
  · rw [String.toList_append, List.mem_append] at member
    rcases member with sign | inside
    · exact .inl (List.mem_singleton.mp sign)
    · exact .inr (decimal inside)

theorem Literal.solid_text (value : Literal) : Solid value.text := by
  cases value with
  | bool truth => cases truth <;> decide
  | int number =>
      have lacks : ∀ {char : Char}, char ≠ '-' → char.isDigit = false →
          Lacks char (int number).text := by
        intro char unsigned decimal member
        rcases char_of_mem_text member with sign | digit
        · exact unsigned sign
        · rw [digit] at decimal
          cases decimal
      exact ⟨lacks (by decide) (by decide), lacks (by decide) (by decide)⟩

/-- An integer is what its digits are read as. -/
theorem Literal.int_text_injective {value other : Int}
    (same : (int value).text = (int other).text) : value = other := by
  have ended : ∀ next ∈ ([] : List Char).head?, next.isDigit = false := by simp
  have read := number_toString value ended
  rw [show toString value = toString other from same] at read
  exact (read.unique (number_toString other ended)).1

theorem Literal.text_injective {value other : Literal} (same : value.text = other.text) :
    value = other := by
  have word : ∀ {number : Int} {truth : Bool}, (int number).text ≠ (bool truth).text := by
    intro number truth same
    have letter : 'e' ∈ (int number).text.toList := by
      rw [same]
      cases truth <;> decide
    rcases char_of_mem_text letter with sign | digit
    · cases sign
    · cases digit
  match value, other with
  | int number, int numberToo => rw [int_text_injective same]
  | int number, bool truth => exact absurd same word
  | bool truth, int number => exact absurd same.symm word
  | bool truth, bool truthToo =>
      revert same
      cases truth <;> cases truthToo <;> decide

theorem UnaryOp.symbol_injective {op other : UnaryOp} (same : op.symbol = other.symbol) :
    op = other := by
  revert same
  cases op <;> cases other <;> decide

theorem ArithOp.symbol_injective {op other : ArithOp} (same : op.symbol = other.symbol) :
    op = other := by
  revert same
  cases op <;> cases other <;> decide

theorem LogicalOp.symbol_injective {op other : LogicalOp} (same : op.symbol = other.symbol) :
    op = other := by
  revert same
  cases op <;> cases other <;> decide

theorem ArithOp.symbol_ne_logical (op : ArithOp) (logical : LogicalOp) :
    op.symbol ≠ logical.symbol := by
  cases op <;> cases logical <;> decide

theorem ArithOp.symbol_ne_conditional (op : ArithOp) : op.symbol ≠ "if-expr" := by
  cases op <;> decide

theorem LogicalOp.symbol_ne_conditional (op : LogicalOp) : op.symbol ≠ "if-expr" := by
  cases op <;> decide

theorem UnaryOp.solid_symbol (op : UnaryOp) : Solid op.symbol := by
  cases op <;> decide

theorem ArithOp.solid_symbol (op : ArithOp) : Solid op.symbol := by
  cases op <;> decide

theorem LogicalOp.solid_symbol (op : LogicalOp) : Solid op.symbol := by
  cases op <;> decide

namespace Expr

/-- What is written of an expression without its parts. -/
def text : Expr → String
  | literal _ value => value.text
  | var _ name => "var " ++ name
  | unary _ op _ => op.symbol
  | arith _ op _ _ => op.symbol
  | logical _ op _ _ => op.symbol
  | ifThen .. => "if-expr"
  | ifElse .. => "if-expr"
  | call _ callee _ => "call " ++ callee

def parts : Expr → List Expr
  | literal .. => []
  | var .. => []
  | unary _ _ operand => [operand]
  | arith _ _ left right => [left, right]
  | logical _ _ left right => [left, right]
  | ifThen _ cond thenBranch => [cond, thenBranch]
  | ifElse _ cond thenBranch elseBranch => [cond, thenBranch, elseBranch]
  | call _ _ args => args

theorem argsUnplaced_eq_map (args : List Expr) : argsUnplaced args = args.map unplaced := by
  induction args with
  | nil => rfl
  | cons arg rest ih => rw [argsUnplaced, ih, List.map_cons]

/-- Only names stand behind a blank. -/
theorem blank_mem_text_iff (expr : Expr) : ' ' ∈ expr.text.toList ↔ expr.name?.isSome = true := by
  cases expr with
  | literal site value => exact iff_of_false value.solid_text.2 Bool.false_ne_true
  | unary site op operand => exact iff_of_false op.solid_symbol.2 Bool.false_ne_true
  | arith site op left right => exact iff_of_false op.solid_symbol.2 Bool.false_ne_true
  | logical site op left right => exact iff_of_false op.solid_symbol.2 Bool.false_ne_true
  | ifThen | ifElse =>
      have plain : Solid "if-expr" := by decide
      exact iff_of_false plain.2 Bool.false_ne_true
  | var site name => simp [text, name?]
  | call site callee args => simp [text, name?]

/-- The text of a node and its parts tell the node. -/
theorem unplaced_eq_of_parts {expr other : Expr} (texts : expr.text = other.text)
    (parts : expr.parts.map unplaced = other.parts.map unplaced) :
    expr.unplaced = other.unplaced := by
  have named : expr.name?.isSome = true ↔ other.name?.isSome = true := by
    rw [← blank_mem_text_iff, ← blank_mem_text_iff, texts]
  have first : ∀ {name callee : String}, "var " ++ name ≠ "call " ++ callee := by
    intro name callee same
    have chars := congrArg (fun text => text.toList.head?) same
    simp at chars
  have counts := congrArg List.length parts
  cases expr with
  | literal site value =>
      cases other with
      | literal siteToo valueToo => rw [unplaced, unplaced, Literal.text_injective texts]
      | _ => simp [name?, Expr.parts] at named counts
  | var site name =>
      cases other with
      | var siteToo nameToo => rw [unplaced, unplaced, (String.append_right_inj "var ").mp texts]
      | call siteToo callee args => exact absurd texts first
      | _ => simp [name?] at named
  | unary site op operand =>
      cases other with
      | unary siteToo opToo operandToo =>
          rw [unplaced, unplaced, UnaryOp.symbol_injective texts, (List.cons.inj parts).1]
      | _ => simp [name?, Expr.parts] at named counts
  | arith site op left right =>
      cases other with
      | arith siteToo opToo leftToo rightToo =>
          simp only [Expr.parts, List.map_cons, List.map_nil, List.cons.injEq, and_true] at parts
          rw [unplaced, unplaced, ArithOp.symbol_injective texts, parts.1, parts.2]
      | logical siteToo opToo => exact absurd texts (op.symbol_ne_logical opToo)
      | ifThen => exact absurd texts op.symbol_ne_conditional
      | _ => simp [name?, Expr.parts] at named counts
  | logical site op left right =>
      cases other with
      | arith siteToo opToo => exact absurd texts.symm (opToo.symbol_ne_logical op)
      | logical siteToo opToo leftToo rightToo =>
          simp only [Expr.parts, List.map_cons, List.map_nil, List.cons.injEq, and_true] at parts
          rw [unplaced, unplaced, LogicalOp.symbol_injective texts, parts.1, parts.2]
      | ifThen => exact absurd texts op.symbol_ne_conditional
      | _ => simp [name?, Expr.parts] at named counts
  | ifThen site cond thenBranch =>
      cases other with
      | arith siteToo op => exact absurd texts.symm op.symbol_ne_conditional
      | logical siteToo op => exact absurd texts.symm op.symbol_ne_conditional
      | ifThen siteToo condToo thenToo =>
          simp only [Expr.parts, List.map_cons, List.map_nil, List.cons.injEq, and_true] at parts
          rw [unplaced, unplaced, parts.1, parts.2]
      | _ => simp [name?, Expr.parts] at named counts
  | ifElse site cond thenBranch elseBranch =>
      cases other with
      | ifElse siteToo condToo thenToo elseToo =>
          simp only [Expr.parts, List.map_cons, List.map_nil, List.cons.injEq, and_true] at parts
          rw [unplaced, unplaced, parts.1, parts.2.1, parts.2.2]
      | _ => simp [name?, Expr.parts] at named counts
  | call site callee args =>
      cases other with
      | var siteToo name => exact absurd texts.symm first
      | call siteToo calleeToo argsToo =>
          rw [unplaced, unplaced, (String.append_right_inj "call ").mp texts, argsUnplaced_eq_map,
            argsUnplaced_eq_map]
          exact congrArg _ parts
      | _ => simp [name?] at named

/-- The names in an expression are words. -/
def Named (expr : Expr) : Prop :=
  ∃ position, ∀ node ∈ expr.nodes position, ∀ name ∈ node.2.name?, IsWord name

theorem Named.self {expr : Expr} (named : expr.Named) : ∀ name ∈ expr.name?, IsWord name := by
  obtain ⟨position, words⟩ := named
  apply words (position, expr)
  cases expr <;> simp [nodes]

theorem nodes_subset_argsNodes {arg : Expr} {args : List Expr} (member : arg ∈ args) :
    arg.nodes .part ⊆ argsNodes args := by
  induction args with
  | nil => cases member
  | cons first rest ih =>
      rw [argsNodes]
      rcases List.mem_cons.mp member with rfl | inside
      · exact List.subset_append_left ..
      · exact List.subset_append_of_subset_right _ (ih inside)

theorem Named.part {expr part : Expr} (named : expr.Named) (member : part ∈ expr.parts) :
    part.Named := by
  obtain ⟨position, words⟩ := named
  have inner : ∃ place, part.nodes place ⊆ expr.nodes position := by
    cases expr with
    | literal | var => cases member
    | unary site op operand =>
        obtain rfl := List.mem_singleton.mp member
        exact ⟨.part, List.subset_cons_self ..⟩
    | arith site op left right =>
        simp only [Expr.parts, List.mem_cons, List.not_mem_nil, or_false] at member
        rcases member with rfl | rfl
        · exact ⟨.part, fun node inside => by simp [nodes, inside]⟩
        · exact ⟨.part, fun node inside => by simp [nodes, inside]⟩
    | logical site op left right =>
        simp only [Expr.parts, List.mem_cons, List.not_mem_nil, or_false] at member
        rcases member with rfl | rfl
        · exact ⟨.left op, fun node inside => by simp [nodes, inside]⟩
        · exact ⟨.right op, fun node inside => by simp [nodes, inside]⟩
    | ifThen site cond thenBranch =>
        simp only [Expr.parts, List.mem_cons, List.not_mem_nil, or_false] at member
        rcases member with rfl | rfl
        · exact ⟨.whole, fun node inside => by simp [nodes, inside]⟩
        · exact ⟨.part, fun node inside => by simp [nodes, inside]⟩
    | ifElse site cond thenBranch elseBranch =>
        simp only [Expr.parts, List.mem_cons, List.not_mem_nil, or_false] at member
        rcases member with rfl | rfl | rfl
        · exact ⟨.whole, fun node inside => by simp [nodes, inside]⟩
        · exact ⟨.part, fun node inside => by simp [nodes, inside]⟩
        · exact ⟨.part, fun node inside => by simp [nodes, inside]⟩
    | call site callee args =>
        exact ⟨.part, List.subset_cons_of_subset _ (nodes_subset_argsNodes member)⟩
  obtain ⟨place, subset⟩ := inner
  exact ⟨place, fun node inside => words node (subset inside)⟩

theorem Named.clean {expr : Expr} (named : expr.Named) : Clean expr.text := by
  cases expr with
  | literal site value => exact value.solid_text.clean
  | unary site op operand => exact op.solid_symbol.clean
  | arith site op left right => exact op.solid_symbol.clean
  | logical site op left right => exact op.solid_symbol.clean
  | ifThen | ifElse => exact show Clean "if-expr" by decide
  | var site name =>
      have word := named.self name rfl
      exact Clean.append (by decide) (by decide) word.graphic.unbroken
  | call site callee args =>
      have word := named.self callee rfl
      exact Clean.append (by decide) (by decide) word.graphic.unbroken

end Expr

theorem Nat.toString_injective {number other : Nat} (same : toString number = toString other) :
    number = other := by
  have digits := congrArg (fun text => Nat.ofDigitChars 10 text.toList 0) same
  simpa [Nat.toList_repr] using digits

theorem lineNote_injective {site other : Site} (same : lineNote site = lineNote other) :
    site.line = other.line := by
  have number := (String.append_left_inj "]").mp same
  exact Nat.toString_injective ((String.append_right_inj " [line ").mp number)

theorem graphic_lineNote (site : Site) : Graphic (lineNote site) := by
  have opening : Graphic " [line " := by decide
  have closing : Graphic "]" := by decide
  exact (opening.append (Graphic.number site.line)).append closing

theorem head_lineNote (site : Site) : (lineNote site).toList.head? = some ' ' := by
  simp [lineNote]

/-- What is written of an assignment tells its target and its line. -/
theorem assignText_injective {target other : String} {site siteToo : Site} (word : IsWord target)
    (wordToo : IsWord other)
    (same : "assign " ++ target ++ lineNote site = "assign " ++ other ++ lineNote siteToo) :
    target = other ∧ site.line = siteToo.line := by
  rw [String.append_assoc, String.append_assoc, String.append_right_inj] at same
  have stops : ∀ {site : Site}, ∀ char ∈ (lineNote site).toList.head?, isLetter char = false := by
    intro site char first
    rw [head_lineNote] at first
    cases first
    rfl
  obtain ⟨targets, notes⟩ := word.append_inj wordToo stops stops same
  exact ⟨targets, lineNote_injective notes⟩

theorem intercalate_cons (text : String) (texts : List String) :
    ", ".intercalate (text :: texts) =
      text ++ if texts = [] then "" else ", " ++ ", ".intercalate texts := by
  cases texts with
  | nil => simp
  | cons next others => simp [String.intercalate_cons_cons, String.append_assoc]

/-- Texts with commas in between tell the texts, as long as these hold no comma themselves. -/
theorem intercalate_injective {texts others : List String}
    (whole : ∀ text ∈ texts, text ≠ "" ∧ Lacks ',' text)
    (wholeToo : ∀ text ∈ others, text ≠ "" ∧ Lacks ',' text)
    (same : ", ".intercalate texts = ", ".intercalate others) : texts = others := by
  have stops : ∀ {texts : List String}, ∀ char ∈
      (if texts = [] then "" else ", " ++ ", ".intercalate texts).toList.head?, char = ',' := by
    intro texts char first
    split at first
    · cases first
    · rw [String.toList_append] at first
      cases first
      rfl
  induction texts generalizing others with
  | nil =>
      cases others with
      | nil => rfl
      | cons other others =>
          have filled := (wholeToo other List.mem_cons_self).1
          rw [intercalate_cons, String.intercalate_nil] at same
          exact absurd (String.append_eq_empty_iff.mp same.symm).1 filled
  | cons text texts ih =>
      obtain ⟨filled, lacks⟩ := whole text List.mem_cons_self
      rw [intercalate_cons] at same
      cases others with
      | nil =>
          rw [String.intercalate_nil] at same
          exact absurd (String.append_eq_empty_iff.mp same).1 filled
      | cons other others =>
          rw [intercalate_cons] at same
          have lacksToo := (wholeToo other List.mem_cons_self).2
          obtain ⟨rfl, rests⟩ := lacks.append_inj lacksToo stops stops same
          split at rests
          · next none =>
              split at rests
              · next noneToo => rw [none, noneToo]
              · simp at rests
          · split at rests
            · simp at rests
            · rw [ih (fun text member => whole text (List.mem_cons_of_mem _ member))
                (fun text member => wholeToo text (List.mem_cons_of_mem _ member))
                ((String.append_right_inj ", ").mp rests)]

theorem lacks_intercalate {names : List String} {char : Char} (apart : isLetter char = false)
    (other : Lacks char ", ") (words : ∀ name ∈ names, IsWord name) :
    Lacks char (", ".intercalate names) := by
  induction names with
  | nil => exact List.not_mem_nil
  | cons name names ih =>
      rw [intercalate_cons]
      apply ((words name List.mem_cons_self).lacks apart).append
      split
      · exact List.not_mem_nil
      · exact other.append (ih fun name member => words name (List.mem_cons_of_mem _ member))

/-- What is written of a function without its body tells its name, its parameters and its line. -/
theorem functionText_injective {name other : String} {names others : List String}
    {site siteToo : Site} (word : IsWord name) (wordToo : IsWord other)
    (words : ∀ name ∈ names, IsWord name) (wordsToo : ∀ name ∈ others, IsWord name)
    (same : "func " ++ name ++ "(" ++ ", ".intercalate names ++ ")" ++ lineNote site =
      "func " ++ other ++ "(" ++ ", ".intercalate others ++ ")" ++ lineNote siteToo) :
    name = other ∧ names = others ∧ site.line = siteToo.line := by
  simp only [String.append_assoc, String.append_right_inj] at same
  obtain ⟨rfl, behind⟩ := word.append_inj wordToo (by simp; decide) (by simp; decide) same
  have inside : ∀ {names : List String}, (∀ name ∈ names, IsWord name) →
      Lacks ')' (", ".intercalate names) := lacks_intercalate rfl (by decide)
  obtain ⟨params, notes⟩ := (inside words).append_inj (inside wordsToo) (by simp) (by simp)
    ((String.append_right_inj "(").mp behind)
  have whole : ∀ {names : List String}, (∀ name ∈ names, IsWord name) →
      ∀ name ∈ names, name ≠ "" ∧ Lacks ',' name := fun words name member =>
    ⟨(words name member).1, (words name member).lacks rfl⟩
  exact ⟨rfl, intercalate_injective (whole words) (whole wordsToo) params,
    lineNote_injective ((String.append_right_inj ")").mp notes)⟩

end Sipl
