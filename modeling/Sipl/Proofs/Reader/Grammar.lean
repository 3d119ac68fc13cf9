import Sipl.Token.Basic

namespace Sipl

/-! The productions as data, and the sentences that a form derives.  The grammar is ambiguous: an
`if` expression may be the operand of an operator, and its last branch may hold the operator as
well. -/

namespace Grammar

/-- The levels of expressions, from the loosest to the tightest binding. -/
inductive Level where
  | disjunction
  | conjunction
  | comparison
  | additive
  | multiplicative
  | unary
  | primary
  deriving DecidableEq

/-- How many levels bind tighter. -/
def Level.height : Level → Nat
  | disjunction => 6
  | conjunction => 5
  | comparison => 4
  | additive => 3
  | multiplicative => 2
  | unary => 1
  | primary => 0

inductive Rule where
  | program
  | functions
  | function
  | params
  | block
  | statement
  | expr (level : Level)
  | arguments
  deriving DecidableEq

inductive Form where
  /-- One token of the given kinds. -/
  | token (kinds : List Kind)
  | rule (rule : Rule)
  | seq (first second : Form)
  | alt (left right : Form)
  | opt (form : Form)
  | star (form : Form)

open Form

/-- Comparison operators. -/
def comparisons : List Kind := [.eq, .lt, .ltEq, .gt, .gtEq, .notEq]

/-- The production of a level. -/
def Level.form : Level → Form
  | .disjunction => seq (rule (.expr .conjunction))
      (star (seq (token [.orWord]) (rule (.expr .conjunction))))
  | .conjunction => seq (rule (.expr .comparison))
      (star (seq (token [.andWord]) (rule (.expr .unary))))
  | .comparison => seq (rule (.expr .additive))
      (opt (seq (token comparisons) (rule (.expr .additive))))
  | .additive => seq (rule (.expr .multiplicative))
      (star (seq (token [.plus, .minus]) (rule (.expr .multiplicative))))
  | .multiplicative => seq (rule (.expr .unary))
      (opt (seq (token [.star, .slash]) (rule (.expr .multiplicative))))
  | .unary => alt (seq (token [.minus, .notWord]) (rule (.expr .unary))) (rule (.expr .primary))
  | .primary =>
      alt (seq (token [.leftParen]) (seq (rule (.expr .comparison)) (token [.rightParen])))
        (alt (seq (token [.ifWord]) (seq (rule (.expr .disjunction)) (seq (token [.thenWord])
            (seq (rule (.expr .comparison))
              (opt (seq (token [.elseWord]) (rule (.expr .comparison))))))))
          (alt (token [.number, .trueWord, .falseWord])
            (alt (seq (token [.ident]) (seq (token [.leftParen])
                (seq (opt (rule .arguments)) (token [.rightParen]))))
              (token [.ident]))))

def Rule.form : Rule → Form
  | .program => seq (token [.programWord]) (seq (opt (rule .functions)) (rule .block))
  | .functions => seq (rule .function)
      (seq (star (seq (token [.semicolon]) (rule .function))) (opt (token [.semicolon])))
  | .function => seq (token [.funcWord]) (seq (token [.ident]) (seq (token [.leftParen])
      (seq (opt (rule .params)) (seq (token [.rightParen]) (seq (token [.eq])
        (rule (.expr .comparison)))))))
  | .params => seq (token [.ident]) (star (seq (token [.comma]) (token [.ident])))
  | .block => seq (token [.beginWord]) (seq (rule .statement)
      (seq (star (seq (token [.semicolon]) (rule .statement))) (token [.endWord])))
  | .statement =>
      alt (seq (token [.ifWord]) (seq (rule (.expr .disjunction)) (seq (token [.thenWord])
          (seq (rule .block) (opt (seq (token [.elseWord]) (rule .block)))))))
        (alt (seq (token [.whileWord]) (seq (rule (.expr .disjunction)) (seq (token [.doWord])
            (rule .block))))
          (seq (token [.ident]) (seq (token [.assign]) (rule (.expr .disjunction)))))
  | .expr level => level.form
  | .arguments => seq (rule (.expr .comparison))
      (star (seq (token [.comma]) (rule (.expr .comparison))))

/-- A form derives a sentence. -/
inductive Derives : Form → List Kind → Prop where
  | token {kinds : List Kind} {kind : Kind} (listed : kind ∈ kinds) : Derives (.token kinds) [kind]
  | rule {rule : Rule} {sentence : List Kind} (body : Derives rule.form sentence) :
      Derives (.rule rule) sentence
  | seq {first second : Form} {left right : List Kind} (head : Derives first left)
      (tail : Derives second right) : Derives (.seq first second) (left ++ right)
  | left {left right : Form} {sentence : List Kind} (chosen : Derives left sentence) :
      Derives (.alt left right) sentence
  | right {left right : Form} {sentence : List Kind} (chosen : Derives right sentence) :
      Derives (.alt left right) sentence
  | none {form : Form} : Derives (.opt form) []
  | some {form : Form} {sentence : List Kind} (one : Derives form sentence) :
      Derives (.opt form) sentence
  | done {form : Form} : Derives (.star form) []
  | more {form : Form} {left right : List Kind} (head : Derives form left)
      (tail : Derives (.star form) right) : Derives (.star form) (left ++ right)

/-- Some tokens start with a sentence that the form derives, and the rest of them is as required. -/
def Follows (form : Form) (after : List Token → Prop) (tokens : List Token) : Prop :=
  ∃ front rest, tokens = front ++ rest ∧ Derives form (front.map Token.kind) ∧ after rest

namespace Follows

variable {form first second : Form} {after later : List Token → Prop} {tokens : List Token}

theorem mono (weaker : ∀ rest, after rest → later rest) (follows : Follows form after tokens) :
    Follows form later tokens := by
  obtain ⟨front, rest, whole, derives, holds⟩ := follows
  exact ⟨front, rest, whole, derives, weaker rest holds⟩

theorem token_iff {kinds : List Kind} {token : Token} :
    Follows (.token kinds) after (token :: tokens) ↔ token.kind ∈ kinds ∧ after tokens := by
  constructor
  · rintro ⟨front, rest, whole, derives, holds⟩
    generalize sentence : front.map Token.kind = kindsTaken at derives
    cases derives with
    | token listed =>
        obtain ⟨taken, rfl, rfl⟩ := List.map_eq_singleton_iff.mp sentence
        obtain ⟨rfl, rfl⟩ := List.cons.inj whole
        exact ⟨listed, holds⟩
  · rintro ⟨listed, holds⟩
    exact ⟨[token], tokens, rfl, .token listed, holds⟩

theorem rule_iff {rule : Rule} :
    Follows (.rule rule) after tokens ↔ Follows rule.form after tokens := by
  constructor
  · rintro ⟨front, rest, whole, derives, holds⟩
    cases derives with
    | rule body => exact ⟨front, rest, whole, body, holds⟩
  · rintro ⟨front, rest, whole, body, holds⟩
    exact ⟨front, rest, whole, .rule body, holds⟩

theorem seq_iff :
    Follows (.seq first second) after tokens ↔ Follows first (Follows second after) tokens := by
  constructor
  · rintro ⟨front, rest, whole, derives, holds⟩
    generalize sentence : front.map Token.kind = kinds at derives
    cases derives with
    | seq head tail =>
        obtain ⟨left, right, rfl, rfl, rfl⟩ := List.map_eq_append_iff.mp sentence
        exact ⟨left, right ++ rest, by rw [whole, List.append_assoc], head, right, rest, rfl, tail,
          holds⟩
  · rintro ⟨left, _, rfl, head, right, rest, rfl, tail, holds⟩
    refine ⟨left ++ right, rest, (List.append_assoc ..).symm, ?_, holds⟩
    rw [List.map_append]
    exact .seq head tail

/-- Sequences may be grouped either way. -/
theorem seq_eq : Follows (.seq first second) after = Follows first (Follows second after) :=
  funext fun _ => propext seq_iff

theorem alt_iff :
    Follows (.alt first second) after tokens ↔
      Follows first after tokens ∨ Follows second after tokens := by
  constructor
  · rintro ⟨front, rest, whole, derives, holds⟩
    cases derives with
    | left chosen => exact .inl ⟨front, rest, whole, chosen, holds⟩
    | right chosen => exact .inr ⟨front, rest, whole, chosen, holds⟩
  · rintro (⟨front, rest, whole, chosen, holds⟩ | ⟨front, rest, whole, chosen, holds⟩)
    · exact ⟨front, rest, whole, .left chosen, holds⟩
    · exact ⟨front, rest, whole, .right chosen, holds⟩

theorem opt_iff :
    Follows (.opt form) after tokens ↔ after tokens ∨ Follows form after tokens := by
  constructor
  · rintro ⟨front, rest, whole, derives, holds⟩
    generalize sentence : front.map Token.kind = kinds at derives
    cases derives with
    | none =>
        obtain rfl := List.map_eq_nil_iff.mp sentence
        exact .inl (by rwa [whole])
    | some one => exact .inr ⟨front, rest, whole, sentence ▸ one, holds⟩
  · rintro (holds | ⟨front, rest, whole, one, holds⟩)
    · exact ⟨[], tokens, rfl, .none, holds⟩
    · exact ⟨front, rest, whole, .some one, holds⟩

theorem star_iff :
    Follows (.star form) after tokens ↔
      after tokens ∨ Follows form (Follows (.star form) after) tokens := by
  constructor
  · rintro ⟨front, rest, whole, derives, holds⟩
    generalize sentence : front.map Token.kind = kinds at derives
    cases derives with
    | done =>
        obtain rfl := List.map_eq_nil_iff.mp sentence
        exact .inl (by rwa [whole])
    | more head tail =>
        obtain ⟨left, right, rfl, rfl, rfl⟩ := List.map_eq_append_iff.mp sentence
        exact .inr ⟨left, right ++ rest, by rw [whole, List.append_assoc], head, right, rest, rfl,
          tail, holds⟩
  · rintro (holds | ⟨left, _, rfl, head, right, rest, rfl, tail, holds⟩)
    · exact ⟨[], tokens, rfl, .done, holds⟩
    · refine ⟨left ++ right, rest, (List.append_assoc ..).symm, ?_, holds⟩
      rw [List.map_append]
      exact .more head tail

/-- A form and what comes behind it. -/
theorem seq {middle : List Token} (head : Follows first (· = middle) tokens)
    (tail : Follows second after middle) : Follows (.seq first second) after tokens :=
  seq_iff.mpr (head.mono (by rintro _ rfl; exact tail))

/-- One more repetition in front of others. -/
theorem more {middle : List Token} (head : Follows form (· = middle) tokens)
    (tail : Follows (.star form) after middle) : Follows (.star form) after tokens :=
  star_iff.mpr (.inr (head.mono (by rintro _ rfl; exact tail)))

end Follows

/-- The first token is of one of the kinds. -/
def StartsIn (kinds : List Kind) (tokens : List Token) : Prop :=
  ∃ token rest, tokens = token :: rest ∧ token.kind ∈ kinds

theorem StartsIn.mono {kinds more : List Kind} {tokens : List Token}
    (startsIn : StartsIn kinds tokens) (within : kinds ⊆ more) : StartsIn more tokens := by
  obtain ⟨token, rest, whole, listed⟩ := startsIn
  exact ⟨token, rest, whole, within listed⟩

/-- The kinds of tokens that an expression without an operator in front starts with. -/
def primaryStarts : List Kind := [.leftParen, .ifWord, .number, .trueWord, .falseWord, .ident]

/-- The kinds of tokens that an expression starts with. -/
def exprStarts : List Kind := .minus :: .notWord :: primaryStarts

namespace Follows

variable {form second : Form} {after : List Token → Prop} {tokens : List Token}
  {kinds : List Kind}

theorem startsIn_token (follows : Follows (.token kinds) after tokens) :
    StartsIn kinds tokens := by
  obtain ⟨front, rest, rfl, derives, holds⟩ := follows
  generalize tokens : front.map Token.kind = kindsTaken at derives
  cases derives with
  | token listed =>
      obtain ⟨taken, rfl, rfl⟩ := List.map_eq_singleton_iff.mp tokens
      exact ⟨taken, rest, rfl, listed⟩

theorem startsIn_primary (follows : Follows (.rule (.expr .primary)) after tokens) :
    StartsIn primaryStarts tokens := by
  simp only [rule_iff, Rule.form, Level.form, alt_iff, seq_iff] at follows
  rcases follows with follows | follows | follows | follows | follows <;>
    exact follows.startsIn_token.mono (by decide)

theorem startsIn_expr {level : Level} {after : List Token → Prop}
    (follows : Follows (.rule (.expr level)) after tokens) : StartsIn exprStarts tokens := by
  match level with
  | .primary => exact follows.startsIn_primary.mono (by decide)
  | .unary =>
      rcases alt_iff.mp (rule_iff.mp follows) with operator | primary
      · exact (seq_iff.mp operator).startsIn_token.mono (by decide)
      · exact primary.startsIn_primary.mono (by decide)
  | .multiplicative | .additive | .comparison | .conjunction | .disjunction =>
      exact startsIn_expr (seq_iff.mp (rule_iff.mp follows))
termination_by level.height
decreasing_by all_goals decide

end Follows

end Grammar

end Sipl
