import Sipl.Proofs.Reader.Grammar

namespace Sipl.Grammar

open Form

/-! A form is tried on tokens from left to right, and the next token alone chooses between the ways
on.  It leads through a sentence or gets stuck at a token.  What was passed up to there begins a
sentence of the form, and only the token at which it got stuck was looked at besides. -/

/-- The production of a rule, written so that one token tells the ways on apart: what a variable and
a call have in common comes first, and so does what the ways to end a list have in common. -/
def Rule.factored : Rule → Form
  | .functions => seq (rule .function) (opt (seq (token [.semicolon]) (opt (rule .functions))))
  | .function => seq (token [.funcWord]) (seq (token [.ident]) (seq (token [.leftParen])
      (seq (alt (token [.rightParen]) (seq (rule .params) (token [.rightParen])))
        (seq (token [.eq]) (rule (.expr .comparison))))))
  | .expr .primary =>
      alt (seq (token [.leftParen]) (seq (rule (.expr .comparison)) (token [.rightParen])))
        (alt (seq (token [.ifWord]) (seq (rule (.expr .disjunction)) (seq (token [.thenWord])
            (seq (rule (.expr .comparison))
              (opt (seq (token [.elseWord]) (rule (.expr .comparison))))))))
          (alt (token [.number, .trueWord, .falseWord])
            (seq (token [.ident]) (opt (seq (token [.leftParen])
              (alt (token [.rightParen]) (seq (rule .arguments) (token [.rightParen]))))))))
  | other => other.form

/-- The kinds of tokens on which a rule is chosen. -/
def Rule.starts : Rule → List Kind
  | .program => [.programWord]
  | .functions | .function => [.funcWord]
  | .params => [.ident]
  | .block => [.beginWord]
  | .statement => [.ifWord, .whileWord, .ident]
  | .expr _ | .arguments => exprStarts

/-- The kinds of tokens on which a form is chosen. -/
def Form.starts : Form → List Kind
  | .token kinds => kinds
  | .rule name => name.starts
  | .seq first _ => first.starts
  | .alt left right => left.starts ++ right.starts
  | .opt form | .star form => form.starts

/-- What comes of trying a form. -/
inductive Ending where
  | through
  | stuck

/-- A form is tried on tokens; it ends in front of those that are left. -/
inductive Tries : Form → List Token → Ending → List Token → Prop where
  | token {kinds : List Kind} {token : Token} {left : List Token} (listed : token.kind ∈ kinds) :
      Tries (.token kinds) (token :: left) .through left
  | wrong {kinds : List Kind} {left : List Token} (other : ¬ StartsIn kinds left) :
      Tries (.token kinds) left .stuck left
  | rule {rule : Rule} {tokens left : List Token} {ending : Ending}
      (body : Tries rule.factored tokens ending left) : Tries (.rule rule) tokens ending left
  | seq {first second : Form} {tokens middle left : List Token} {ending : Ending}
      (head : Tries first tokens .through middle) (tail : Tries second middle ending left) :
      Tries (.seq first second) tokens ending left
  | seqStuck {first second : Form} {tokens left : List Token}
      (head : Tries first tokens .stuck left) : Tries (.seq first second) tokens .stuck left
  | left {first second : Form} {tokens left : List Token} {ending : Ending}
      (starts : StartsIn first.starts tokens) (chosen : Tries first tokens ending left) :
      Tries (.alt first second) tokens ending left
  | right {first second : Form} {tokens left : List Token} {ending : Ending}
      (other : ¬ StartsIn first.starts tokens) (chosen : Tries second tokens ending left) :
      Tries (.alt first second) tokens ending left
  | some {form : Form} {tokens left : List Token} {ending : Ending}
      (starts : StartsIn form.starts tokens) (one : Tries form tokens ending left) :
      Tries (.opt form) tokens ending left
  | none {form : Form} {left : List Token} (other : ¬ StartsIn form.starts left) :
      Tries (.opt form) left .through left
  | more {form : Form} {tokens left : List Token} {ending : Ending}
      (starts : StartsIn form.starts tokens)
      (again : Tries (.seq form (.star form)) tokens ending left) :
      Tries (.star form) tokens ending left
  | done {form : Form} {left : List Token} (other : ¬ StartsIn form.starts left) :
      Tries (.star form) left .through left

theorem startsIn_cons {kinds : List Kind} {token : Token} {rest : List Token} :
    StartsIn kinds (token :: rest) ↔ token.kind ∈ kinds := by
  constructor
  · rintro ⟨first, others, whole, listed⟩
    obtain ⟨rfl, rfl⟩ := List.cons.inj whole
    exact listed
  · intro listed
    exact ⟨token, rest, rfl, listed⟩

namespace Tries

variable {form first second third : Form} {tokens left : List Token} {ending : Ending}

/-- Sequences may be grouped either way. -/
theorem assoc_iff :
    Tries (.seq (.seq first second) third) tokens ending left ↔
      Tries (.seq first (.seq second third)) tokens ending left := by
  constructor
  · intro tries
    cases tries with
    | seq head tail =>
        cases head with
        | seq one two => exact .seq one (.seq two tail)
    | seqStuck head =>
        cases head with
        | seq one two => exact .seq one (.seqStuck two)
        | seqStuck one => exact .seqStuck one
  · intro tries
    cases tries with
    | seq head tail =>
        cases tail with
        | seq two three => exact .seq (.seq head two) three
        | seqStuck two => exact .seqStuck (.seq head two)
    | seqStuck head => exact .seqStuck (.seqStuck head)

/-- The first part of a sequence may be replaced by one that leads wherever it leads. -/
theorem seq_mono (tries : Tries (.seq first third) tokens ending left)
    (wider : ∀ ending left, Tries first tokens ending left → Tries second tokens ending left) :
    Tries (.seq second third) tokens ending left := by
  cases tries with
  | seq head tail => exact .seq (wider _ _ head) tail
  | seqStuck head => exact .seqStuck (wider _ _ head)

/-- Nothing but the tokens decides how a form ends. -/
theorem unique {other : Ending} {others : List Token} (tries : Tries form tokens ending left)
    (again : Tries form tokens other others) : ending = other ∧ left = others := by
  induction tries generalizing other others with
  | token listed =>
      cases again with
      | token _ => exact ⟨rfl, rfl⟩
      | wrong missing => exact absurd (startsIn_cons.mpr listed) missing
  | wrong missing =>
      cases again with
      | token listed => exact absurd (startsIn_cons.mpr listed) missing
      | wrong _ => exact ⟨rfl, rfl⟩
  | rule _ ih =>
      cases again with
      | rule body => exact ih body
  | seq _ _ ihHead ihTail =>
      cases again with
      | seq head tail =>
          obtain ⟨_, rfl⟩ := ihHead head
          exact ihTail tail
      | seqStuck head => cases (ihHead head).1
  | seqStuck _ ihHead =>
      cases again with
      | seq head tail => cases (ihHead head).1
      | seqStuck head => exact ihHead head
  | left starts _ ih =>
      cases again with
      | left _ chosen => exact ih chosen
      | right missing _ => exact absurd starts missing
  | right missing _ ih =>
      cases again with
      | left starts _ => exact absurd starts missing
      | right _ chosen => exact ih chosen
  | some starts _ ih =>
      cases again with
      | some _ one => exact ih one
      | none missing => exact absurd starts missing
  | none missing =>
      cases again with
      | some starts _ => exact absurd starts missing
      | none _ => exact ⟨rfl, rfl⟩
  | more starts _ ih =>
      cases again with
      | more _ more => exact ih more
      | done missing => exact absurd starts missing
  | done missing =>
      cases again with
      | more starts _ => exact absurd starts missing
      | done _ => exact ⟨rfl, rfl⟩

theorem startsIn_replaced {kinds : List Kind} (front : List Token) (token : Token)
    (rest others : List Token) :
    StartsIn kinds (front ++ token :: rest) ↔ StartsIn kinds (front ++ token :: others) := by
  cases front <;> simp only [List.nil_append, List.cons_append, startsIn_cons]

/-- The tokens behind the one that comes next when a form ends make no difference. -/
theorem replace {token : Token} {rest : List Token} (others : List Token)
    (tries : Tries form tokens ending left) {back : List Token}
    (unread : left = back ++ token :: rest) :
    ∃ front, tokens = front ++ token :: rest ∧
      Tries form (front ++ token :: others) ending (back ++ token :: others) := by
  induction tries generalizing back with
  | token listed => exact ⟨_ :: back, by rw [unread]; rfl, .token listed⟩
  | wrong missing =>
      subst unread
      exact ⟨back, rfl, .wrong (mt (startsIn_replaced back token rest others).mpr missing)⟩
  | rule _ ih =>
      obtain ⟨front, whole, body⟩ := ih unread
      exact ⟨front, whole, .rule body⟩
  | seq _ _ ihHead ihTail =>
      obtain ⟨inner, part, tail⟩ := ihTail unread
      obtain ⟨front, whole, head⟩ := ihHead part
      exact ⟨front, whole, .seq head tail⟩
  | seqStuck _ ihHead =>
      obtain ⟨front, whole, head⟩ := ihHead unread
      exact ⟨front, whole, .seqStuck head⟩
  | left starts _ ih =>
      obtain ⟨front, rfl, chosen⟩ := ih unread
      exact ⟨front, rfl, .left ((startsIn_replaced front token rest others).mp starts) chosen⟩
  | right missing _ ih =>
      obtain ⟨front, rfl, chosen⟩ := ih unread
      exact ⟨front, rfl,
        .right (mt (startsIn_replaced front token rest others).mpr missing) chosen⟩
  | some starts _ ih =>
      obtain ⟨front, rfl, one⟩ := ih unread
      exact ⟨front, rfl, .some ((startsIn_replaced front token rest others).mp starts) one⟩
  | none missing =>
      subst unread
      exact ⟨back, rfl, .none (mt (startsIn_replaced back token rest others).mpr missing)⟩
  | more starts _ ih =>
      obtain ⟨front, rfl, again⟩ := ih unread
      exact ⟨front, rfl, .more ((startsIn_replaced front token rest others).mp starts) again⟩
  | done missing =>
      subst unread
      exact ⟨back, rfl, .done (mt (startsIn_replaced back token rest others).mpr missing)⟩

end Tries

/-- The kinds are the beginning of a sentence of the form. -/
def Begins (form : Form) (kinds : List Kind) : Prop := ∃ rest, Derives form (kinds ++ rest)

/-- Every token of the form may be of some kind. -/
def Form.proper : Form → Bool
  | .token kinds => !kinds.isEmpty
  | .rule _ => true
  | .seq first second | .alt first second => first.proper && second.proper
  | .opt form | .star form => form.proper

theorem Rule.proper_factored (rule : Rule) : rule.factored.proper := by
  cases rule with
  | expr level => cases level <;> rfl
  | _ => rfl

/-- A name is an expression of every level. -/
theorem derives_name (level : Level) : Derives (.rule (.expr level)) [.ident] := by
  match level with
  | .primary => exact .rule (.right (.right (.right (.right (.token List.mem_cons_self)))))
  | .unary => exact .rule (.right (derives_name .primary))
  | .multiplicative | .comparison => exact .rule (.seq (derives_name _) .none)
  | .additive | .conjunction | .disjunction => exact .rule (.seq (derives_name _) .done)
termination_by level.height
decreasing_by all_goals decide

theorem derives_word (kind : Kind) : Derives (.token [kind]) [kind] := .token List.mem_cons_self

/-- An assignment is a statement. -/
theorem derives_assignment : Derives (.rule .statement) [.ident, .assign, .ident] :=
  .rule (.right (.right (.seq (derives_word .ident) (.seq (derives_word .assign)
    (derives_name .disjunction)))))

theorem exists_derives_rule (rule : Rule) : ∃ sentence, Derives (.rule rule) sentence := by
  have block : Derives (.rule .block) _ :=
    .rule (.seq (derives_word .beginWord) (.seq derives_assignment
      (.seq .done (derives_word .endWord))))
  have function : Derives (.rule .function) _ :=
    .rule (.seq (derives_word .funcWord) (.seq (derives_word .ident)
      (.seq (derives_word .leftParen) (.seq .none (.seq (derives_word .rightParen)
        (.seq (derives_word .eq) (derives_name .comparison)))))))
  cases rule with
  | program => exact ⟨_, .rule (.seq (derives_word .programWord) (.seq .none block))⟩
  | functions => exact ⟨_, .rule (.seq function (.seq .done .none))⟩
  | function => exact ⟨_, function⟩
  | params => exact ⟨_, .rule (.seq (derives_word .ident) .done)⟩
  | block => exact ⟨_, block⟩
  | statement => exact ⟨_, derives_assignment⟩
  | expr level => exact ⟨_, derives_name level⟩
  | arguments => exact ⟨_, .rule (.seq (derives_name .comparison) .done)⟩

theorem exists_derives {form : Form} (proper : form.proper) :
    ∃ sentence, Derives form sentence := by
  induction form with
  | token kinds =>
      cases kinds with
      | nil => cases proper
      | cons kind others => exact ⟨[kind], .token List.mem_cons_self⟩
  | rule rule => exact exists_derives_rule rule
  | seq first second ihFirst ihSecond =>
      obtain ⟨properFirst, properSecond⟩ := Bool.and_eq_true_iff.mp proper
      obtain ⟨left, head⟩ := ihFirst properFirst
      obtain ⟨right, tail⟩ := ihSecond properSecond
      exact ⟨left ++ right, .seq head tail⟩
  | alt first second ihFirst _ =>
      obtain ⟨sentence, chosen⟩ := ihFirst (Bool.and_eq_true_iff.mp proper).1
      exact ⟨sentence, .left chosen⟩
  | opt form _ => exact ⟨[], .none⟩
  | star form _ => exact ⟨[], .done⟩

theorem Derives.of_seq {first second : Form} {sentence : List Kind}
    (derives : Derives (.seq first second) sentence) :
    ∃ left right, sentence = left ++ right ∧ Derives first left ∧ Derives second right := by
  cases derives with
  | seq head tail => exact ⟨_, _, rfl, head, tail⟩

/-- What may stand in front of a closing token may be missing. -/
theorem derives_closed {inner : Form} {closing : Kind} {sentence : List Kind}
    (derives : Derives (.alt (.token [closing]) (.seq inner (.token [closing]))) sentence) :
    Derives (.seq (.opt inner) (.token [closing])) sentence := by
  cases derives with
  | left closed => exact .seq .none closed
  | right chosen =>
      obtain ⟨_, _, rfl, listed, closed⟩ := chosen.of_seq
      exact .seq (.some listed) closed

theorem derives_functions {sentence : List Kind}
    (derives : Derives (Rule.factored .functions) sentence) :
    Derives (.rule .functions) sentence := by
  obtain ⟨_, _, rfl, head, tail⟩ := derives.of_seq
  cases tail with
  | none => exact .rule (.seq head (.seq .done .none))
  | some tail =>
      obtain ⟨_, _, rfl, semicolon, rest⟩ := tail.of_seq
      cases rest with
      | none =>
          rw [List.append_nil]
          exact .rule (.seq head (.seq .done (.some semicolon)))
      | some rest =>
          cases rest with
          | rule body =>
              obtain ⟨_, _, rfl, next, others⟩ := body.of_seq
              obtain ⟨_, _, rfl, separated, last⟩ := others.of_seq
              have production : Derives (Rule.form .functions) _ :=
                .seq head (.seq (.more (.seq semicolon next) separated) last)
              simpa only [List.append_assoc] using Derives.rule production

theorem derives_function {sentence : List Kind}
    (derives : Derives (Rule.factored .function) sentence) :
    Derives (.rule .function) sentence := by
  obtain ⟨_, _, rfl, word, rest⟩ := derives.of_seq
  obtain ⟨_, _, rfl, name, rest⟩ := rest.of_seq
  obtain ⟨_, _, rfl, opened, rest⟩ := rest.of_seq
  obtain ⟨_, _, rfl, listed, body⟩ := rest.of_seq
  obtain ⟨_, _, rfl, listed, closed⟩ := (derives_closed listed).of_seq
  rw [List.append_assoc]
  exact .rule (.seq word (.seq name (.seq opened (.seq listed (.seq closed body)))))

theorem derives_primary {sentence : List Kind}
    (derives : Derives (Rule.factored (.expr .primary)) sentence) :
    Derives (.rule (.expr .primary)) sentence := by
  refine .rule ?_
  cases derives with
  | left grouping => exact .left grouping
  | right derives =>
      cases derives with
      | left choice => exact .right (.left choice)
      | right derives =>
          cases derives with
          | left literal => exact .right (.right (.left literal))
          | right named =>
              obtain ⟨_, _, rfl, name, rest⟩ := named.of_seq
              cases rest with
              | none =>
                  rw [List.append_nil]
                  exact .right (.right (.right (.right name)))
              | some call =>
                  obtain ⟨_, _, rfl, opened, listed⟩ := call.of_seq
                  exact .right (.right (.right (.left (.seq name (.seq opened
                    (derives_closed listed))))))

/-- What a factored production derives, the production of the grammar derives as well. -/
theorem derives_of_factored {rule : Rule} {sentence : List Kind}
    (derives : Derives rule.factored sentence) : Derives (.rule rule) sentence := by
  cases rule with
  | functions => exact derives_functions derives
  | function => exact derives_function derives
  | expr level =>
      cases level with
      | primary => exact derives_primary derives
      | _ => exact .rule derives
  | _ => exact .rule derives

/-- What the kinds of the tokens passed are to a form that ended so. -/
def Ending.Tells (form : Form) (kinds : List Kind) : Ending → Prop
  | through => Derives form kinds
  | stuck => Begins form kinds

namespace Ending.Tells

variable {first second : Form} {kinds others : List Kind} {ending : Ending}

theorem map (tells : ending.Tells first kinds)
    (derives : ∀ sentence, Derives first sentence → Derives second sentence) :
    ending.Tells second kinds := by
  cases ending with
  | through => exact derives kinds tells
  | stuck =>
      obtain ⟨rest, whole⟩ := tells
      exact ⟨rest, derives _ whole⟩

theorem seq (head : Derives first kinds) (tail : ending.Tells second others) :
    ending.Tells (.seq first second) (kinds ++ others) := by
  cases ending with
  | through => exact .seq head tail
  | stuck =>
      obtain ⟨rest, whole⟩ := tail
      refine ⟨rest, ?_⟩
      rw [List.append_assoc]
      exact .seq head whole

end Ending.Tells

/-- A sentence of a form behind the beginning of another one completes the sequence. -/
theorem Begins.seq {first second : Form} {kinds : List Kind} (begins : Begins first kinds)
    (proper : second.proper) : Begins (.seq first second) kinds := by
  obtain ⟨rest, head⟩ := begins
  obtain ⟨sentence, tail⟩ := exists_derives proper
  refine ⟨rest ++ sentence, ?_⟩
  rw [← List.append_assoc]
  exact .seq head tail

theorem Derives.more_of_seq {form : Form} {sentence : List Kind}
    (derives : Derives (.seq form (.star form)) sentence) : Derives (.star form) sentence := by
  obtain ⟨_, _, rfl, head, tail⟩ := derives.of_seq
  exact .more head tail

/-- The tokens that were passed are a sentence of the form, or the beginning of one. -/
theorem Tries.passed {form : Form} {tokens left : List Token} {ending : Ending}
    (tries : Tries form tokens ending left) (proper : form.proper) :
    ∃ front, tokens = front ++ left ∧ ending.Tells form (front.map Token.kind) := by
  induction tries with
  | @token _ token _ listed => exact ⟨[token], rfl, .token listed⟩
  | wrong => exact ⟨[], rfl, exists_derives proper⟩
  | @rule rule _ _ _ _ ih =>
      obtain ⟨front, whole, tells⟩ := ih rule.proper_factored
      exact ⟨front, whole, tells.map fun _ => derives_of_factored⟩
  | seq _ _ ihHead ihTail =>
      obtain ⟨properFirst, properSecond⟩ := Bool.and_eq_true_iff.mp proper
      obtain ⟨front, rfl, head⟩ := ihHead properFirst
      obtain ⟨back, rfl, tail⟩ := ihTail properSecond
      refine ⟨front ++ back, (List.append_assoc ..).symm, ?_⟩
      rw [List.map_append]
      exact .seq head tail
  | seqStuck _ ihHead =>
      obtain ⟨properFirst, properSecond⟩ := Bool.and_eq_true_iff.mp proper
      obtain ⟨front, whole, head⟩ := ihHead properFirst
      exact ⟨front, whole, Begins.seq head properSecond⟩
  | left _ _ ih =>
      obtain ⟨front, whole, tells⟩ := ih (Bool.and_eq_true_iff.mp proper).1
      exact ⟨front, whole, tells.map fun _ => .left⟩
  | right _ _ ih =>
      obtain ⟨front, whole, tells⟩ := ih (Bool.and_eq_true_iff.mp proper).2
      exact ⟨front, whole, tells.map fun _ => .right⟩
  | some _ _ ih =>
      obtain ⟨front, whole, tells⟩ := ih proper
      exact ⟨front, whole, tells.map fun _ => .some⟩
  | none => exact ⟨[], rfl, .none⟩
  | more _ _ ih =>
      obtain ⟨front, whole, tells⟩ := ih (Bool.and_eq_true_iff.mpr ⟨proper, proper⟩)
      exact ⟨front, whole, tells.map fun _ => .more_of_seq⟩
  | done => exact ⟨[], rfl, .done⟩

end Sipl.Grammar
