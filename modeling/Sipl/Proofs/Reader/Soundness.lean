import Sipl.Proofs.Reader.Grammar
import Sipl.Proofs.Reader.Reads

namespace Sipl

open Grammar Reader

namespace Cursor

/-- What is upcoming starts with a token of the kinds. -/
theorem follows_token {cursor : Cursor} {kinds : List Kind} {after : List Token → Prop}
    (inside : .eof ∉ kinds) :
    Follows (.token kinds) after cursor.upcoming ↔
      cursor.kind ∈ kinds ∧ after cursor.advance.upcoming := by
  by_cases ended : cursor.kind = .eof
  · rw [upcoming, Follows.token_iff]
    have outside : cursor.current.kind ∉ kinds := by
      rwa [show cursor.current.kind = .eof from ended]
    exact ⟨fun follows => absurd follows.1 outside, fun follows => absurd follows.1 outside⟩
  · rw [upcoming_eq_cons ended, Follows.token_iff]
    exact Iff.rfl

end Cursor

namespace Reader

open Cursor

variable {cursor : Cursor}

theorem isSome_comparisonHere :
    (operatorHere? cursor ArithOp.isComparison).isSome ↔ cursor.kind ∈ comparisons := by
  unfold operatorHere?
  cases cursor.kind <;> decide

theorem isSome_additiveHere :
    (operatorHere? cursor ArithOp.isAdditive).isSome ↔ cursor.kind ∈ [.plus, .minus] := by
  unfold operatorHere?
  cases cursor.kind <;> decide

theorem isSome_multiplicativeHere :
    (operatorHere? cursor ArithOp.isMultiplicative).isSome ↔ cursor.kind ∈ [.star, .slash] := by
  unfold operatorHere?
  cases cursor.kind <;> decide

theorem isSome_unaryHere :
    (UnaryOp.ofKind? cursor.kind).isSome ↔ cursor.kind ∈ [.minus, .notWord] := by
  cases cursor.kind <;> decide

/-- What a part of the reader takes, as a form of the grammar. -/
def Phrase.form : Phrase → Form
  | .disjunction _ => .rule (.expr .disjunction)
  | .disjunctionTail _ _ => .star (.seq (.token [.orWord]) (.rule (.expr .conjunction)))
  | .conjunction _ => .rule (.expr .conjunction)
  | .conjunctionTail _ _ => .star (.seq (.token [.andWord]) (.rule (.expr .unary)))
  | .comparison _ => .rule (.expr .comparison)
  | .additive _ => .rule (.expr .additive)
  | .additiveTail _ _ => .star (.seq (.token [.plus, .minus]) (.rule (.expr .multiplicative)))
  | .multiplicative _ => .rule (.expr .multiplicative)
  | .unary _ => .rule (.expr .unary)
  | .primary _ => .rule (.expr .primary)
  | .conditional _ _ => .seq (.rule (.expr .disjunction)) (.seq (.token [.thenWord])
      (.seq (.rule (.expr .comparison))
        (.opt (.seq (.token [.elseWord]) (.rule (.expr .comparison))))))
  | .arguments _ => .seq (.opt (.rule .arguments)) (.token [.rightParen])
  | .argumentsTail _ =>
      .seq (.star (.seq (.token [.comma]) (.rule (.expr .comparison)))) (.token [.rightParen])

theorem token_follows {kinds : List Kind} (inside : .eof ∉ kinds) (listed : cursor.kind ∈ kinds) :
    Follows (.token kinds) (· = cursor.advance.upcoming) cursor.upcoming :=
  (follows_token inside).mpr ⟨listed, rfl⟩

theorem word_follows {kind : Kind} (found : cursor.kind = kind) (inside : .eof ∉ [kind]) :
    Follows (.token [kind]) (· = cursor.advance.upcoming) cursor.upcoming :=
  token_follows inside (List.mem_singleton.mpr found)

theorem follows_of_reads {start stop : Cursor} {phrase : Phrase}
    (reads : Reads start phrase stop) :
    Follows phrase.form (· = stop.upcoming) start.upcoming := by
  induction reads with
  | disjunction _ _ ihFirst ihOthers => exact Follows.rule_iff.mpr (.seq ihFirst ihOthers)
  | disjunctionMore operator _ _ ihNext ihOthers =>
      exact .more (.seq (word_follows operator (by decide)) ihNext) ihOthers
  | disjunctionEnd => exact Follows.star_iff.mpr (.inl rfl)
  | conjunction _ _ ihFirst ihOthers => exact Follows.rule_iff.mpr (.seq ihFirst ihOthers)
  | conjunctionMore operator _ _ ihNext ihOthers =>
      exact .more (.seq (word_follows operator (by decide)) ihNext) ihOthers
  | conjunctionEnd => exact Follows.star_iff.mpr (.inl rfl)
  | comparisonBoth _ operator _ ihFirst ihSecond =>
      have listed := isSome_comparisonHere.mp (Option.isSome_of_eq_some operator)
      have head := token_follows (by decide) listed
      exact Follows.rule_iff.mpr (.seq ihFirst (Follows.opt_iff.mpr (.inr (.seq head ihSecond))))
  | comparisonOne _ _ ihOnly =>
      exact Follows.rule_iff.mpr (.seq ihOnly (Follows.opt_iff.mpr (.inl rfl)))
  | additive _ _ ihFirst ihOthers => exact Follows.rule_iff.mpr (.seq ihFirst ihOthers)
  | additiveMore operator _ _ ihNext ihOthers =>
      have listed := isSome_additiveHere.mp (Option.isSome_of_eq_some operator)
      have head := token_follows (by decide) listed
      exact .more (.seq head ihNext) ihOthers
  | additiveEnd => exact Follows.star_iff.mpr (.inl rfl)
  | multiplicativeBoth _ operator _ ihFirst ihSecond =>
      have listed := isSome_multiplicativeHere.mp (Option.isSome_of_eq_some operator)
      have head := token_follows (by decide) listed
      exact Follows.rule_iff.mpr (.seq ihFirst (Follows.opt_iff.mpr (.inr (.seq head ihSecond))))
  | multiplicativeOne _ _ ihOnly =>
      exact Follows.rule_iff.mpr (.seq ihOnly (Follows.opt_iff.mpr (.inl rfl)))
  | unaryOperator operator _ ihInner =>
      have listed := isSome_unaryHere.mp (Option.isSome_of_eq_some operator)
      have head := token_follows (by decide) listed
      exact Follows.rule_iff.mpr (Follows.alt_iff.mpr (.inl (.seq head ihInner)))
  | unaryPrimary _ _ ihOnly => exact Follows.rule_iff.mpr (Follows.alt_iff.mpr (.inr ihOnly))
  | @grouping start later _ opened _ closed ihInner =>
      refine Follows.rule_iff.mpr (Follows.alt_iff.mpr (.inl ?_))
      exact .seq (word_follows opened (by decide)) (.seq ihInner (word_follows closed (by decide)))
  | choice word _ ihRest =>
      refine Follows.rule_iff.mpr (Follows.alt_iff.mpr (.inr (Follows.alt_iff.mpr (.inl ?_))))
      exact .seq (word_follows word (by decide)) ihRest
  | number word | trueWord word | falseWord word =>
      refine Follows.rule_iff.mpr (Follows.alt_iff.mpr (.inr (Follows.alt_iff.mpr (.inr ?_))))
      exact Follows.alt_iff.mpr (.inl (token_follows (by decide) (by simp [word])))
  | var name =>
      refine Follows.rule_iff.mpr (Follows.alt_iff.mpr (.inr (Follows.alt_iff.mpr (.inr ?_))))
      refine Follows.alt_iff.mpr (.inr (Follows.alt_iff.mpr (.inr ?_)))
      exact word_follows name (by decide)
  | call name opened _ ihInner =>
      refine Follows.rule_iff.mpr (Follows.alt_iff.mpr (.inr (Follows.alt_iff.mpr (.inr ?_))))
      refine Follows.alt_iff.mpr (.inr (Follows.alt_iff.mpr (.inl ?_)))
      exact .seq (word_follows name (by decide)) (.seq (word_follows opened (by decide)) ihInner)
  | conditionalBoth _ thenWord _ elseWord _ ihCondition ihFirst ihSecond =>
      have other := Follows.seq (word_follows elseWord (by decide)) ihSecond
      refine .seq ihCondition (.seq (word_follows thenWord (by decide)) (.seq ihFirst ?_))
      exact Follows.opt_iff.mpr (.inr other)
  | conditionalOne _ thenWord _ _ ihCondition ihOnly =>
      refine .seq ihCondition (.seq (word_follows thenWord (by decide)) (.seq ihOnly ?_))
      exact Follows.opt_iff.mpr (.inl rfl)
  | noArguments closed =>
      exact Follows.seq_iff.mpr (Follows.opt_iff.mpr (.inl (word_follows closed (by decide))))
  | arguments _ _ _ ihHead ihTail =>
      refine Follows.seq_iff.mpr (Follows.opt_iff.mpr (.inr (Follows.rule_iff.mpr ?_)))
      exact .seq ihHead (Follows.seq_iff.mp ihTail)
  | argumentsEnd closed =>
      exact Follows.seq_iff.mpr (Follows.star_iff.mpr (.inl (word_follows closed (by decide))))
  | argumentsMore comma _ _ ihHead ihTail =>
      refine Follows.seq_iff.mpr ?_
      exact .more (.seq (word_follows comma (by decide)) ihHead) (Follows.seq_iff.mp ihTail)

end Reader

end Sipl
