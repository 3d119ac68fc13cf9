import Sipl.Proofs.Concrete.Brackets
import Sipl.Proofs.Concrete.Nesting

namespace Sipl

/-- The span reaches from the first of some tokens to the last one. -/
def Span.Reaches (span : Span) (tokens : List Token) : Prop :=
  ∃ first last, tokens.head? = some first ∧ tokens.getLast? = some last ∧
    span = ⟨first.site.span.start, last.site.span.stop⟩

namespace Span.Reaches

variable {span other : Span} {front middle back : List Token} {token : Token}

theorem single (token : Token) : token.site.span.Reaches [token] := ⟨token, token, rfl, rfl, rfl⟩

/-- Two spans are merged over everything that stands between them. -/
theorem join (apart : Token.Apart (front ++ (middle ++ back))) (left : span.Reaches front)
    (right : other.Reaches back) : (span.merge other).Reaches (front ++ (middle ++ back)) := by
  obtain ⟨first, inner, opens, ends, rfl⟩ := left
  obtain ⟨start, last, starts, closes, rfl⟩ := right
  have firstMem : first ∈ front := List.mem_of_head? opens
  have innerMem : inner ∈ front := List.mem_of_getLast? ends
  have startMem : start ∈ middle ++ back := List.mem_append_right _ (List.mem_of_head? starts)
  have lastMem : last ∈ middle ++ back := List.mem_append_right _ (List.mem_of_getLast? closes)
  have between := (List.pairwise_append.mp apart.ordered).2.2
  have startsLater := between first firstMem start startMem
  have endsLater := between inner innerMem last lastMem
  have firstForward := apart.forward first (List.mem_append_left _ firstMem)
  have lastForward := apart.forward last (List.mem_append_right _ lastMem)
  refine ⟨first, last, ?_, ?_, ?_⟩
  · rw [List.head?_append, opens, Option.some_or]
  · rw [List.getLast?_append, List.getLast?_append, closes, Option.some_or, Option.some_or]
  · rw [Span.merge, Nat.min_eq_left (Nat.le_trans firstForward startsLater),
      Nat.max_eq_right (Nat.le_trans endsLater lastForward)]

/-- From the first of some tokens to the last one. -/
theorem between {first last : Token} {tokens rest front : List Token} (apart : Token.Apart tokens)
    (opens : tokens = first :: rest) (closes : tokens = front ++ [last]) :
    (first.site.span.merge last.site.span).Reaches tokens := by
  subst closes
  cases front with
  | nil =>
      obtain ⟨rfl, rfl⟩ := List.cons.inj opens
      exact ⟨last, last, rfl, rfl, by simp [Span.merge]⟩
  | cons head front =>
      obtain ⟨rfl, rfl⟩ := List.cons.inj opens
      have whole : Token.Apart ([head] ++ (front ++ [last])) := apart
      exact join whole (.single head) (.single last)

end Span.Reaches

namespace Concrete

/-- The parentheses around what stands first in a term. -/
def Term.outerOpening : Term → List Token
  | .group opening inner _ => opening :: inner.outerOpening
  | .arith left _ _ _ => left.outerOpening
  | .logical left _ _ _ => left.outerOpening
  | _ => []

/-- The parentheses around what stands last in a term. -/
def Term.outerClosing : Term → List Token
  | .group _ inner closing => inner.outerClosing ++ [closing]
  | .unary _ _ operand => operand.outerClosing
  | .arith _ _ _ right => right.outerClosing
  | .logical _ _ _ right => right.outerClosing
  | _ => []

/-- The tokens that the span of a term reaches over. -/
def Term.shown : Term → List Token
  | .group _ inner _ => inner.shown
  | .unary sign _ operand => sign :: (operand.outerOpening ++ operand.shown)
  | .arith left sign _ right =>
    left.shown ++ (left.outerClosing ++ sign :: right.outerOpening ++ right.shown)
  | .logical left word _ right =>
    left.shown ++ (left.outerClosing ++ word :: right.outerOpening ++ right.shown)
  | term => term.tokens

/-- A parenthesis at one of its ends is missing where the term is shown. -/
def Term.clipped (term : Term) : Bool :=
  !(term.outerOpening.isEmpty && term.outerClosing.isEmpty)

/-- Parentheses leave no node behind. -/
def Term.isGroup : Term → Bool
  | .group _ _ _ => true
  | _ => false

theorem Term.tokens_eq_shown (term : Term) :
    term.tokens = term.outerOpening ++ (term.shown ++ term.outerClosing) := by
  match term with
  | .literal _ _ | .var _ | .ifThen _ _ _ _ | .ifElse _ _ _ _ _ _ | .callEmpty _ _ _
  | .call _ _ _ _ => exact (List.append_nil _).symm
  | .group opening inner closing =>
      simp [tokens, outerOpening, shown, outerClosing, inner.tokens_eq_shown]
  | .unary sign op operand =>
      simp [tokens, outerOpening, shown, outerClosing, operand.tokens_eq_shown]
  | .arith left sign op right =>
      simp [tokens, outerOpening, shown, outerClosing, left.tokens_eq_shown, right.tokens_eq_shown]
  | .logical left word op right =>
      simp [tokens, outerOpening, shown, outerClosing, left.tokens_eq_shown, right.tokens_eq_shown]

theorem Term.apart_shown {term : Term} (apart : Token.Apart term.tokens) :
    Token.Apart term.shown := by
  rw [tokens_eq_shown] at apart
  exact apart.right.left

theorem Term.reaches (term : Term) (apart : Token.Apart term.tokens) :
    term.tree.span.Reaches term.shown := by
  match term with
  | .literal token _ | .var token => exact .single token
  | .group opening inner closing => exact inner.reaches apart.tail.left
  | .unary sign op operand =>
      have shown := apart_shown apart
      exact .join shown (.single sign) (operand.reaches apart.tail)
  | .arith left sign op right =>
      have shown := apart_shown apart
      exact .join shown (left.reaches apart.left) (right.reaches apart.right.tail)
  | .logical left word op right =>
      have shown := apart_shown apart
      exact .join shown (left.reaches apart.left) (right.reaches apart.right.tail)
  | .callEmpty name opening closing =>
      obtain ⟨_, closes⟩ := Term.tokens_eq (.callEmpty name opening closing)
      exact .between apart rfl closes
  | .call name opening first others =>
      obtain ⟨_, closes⟩ := Term.tokens_eq (.call name opening first others)
      exact .between apart rfl closes
  | .ifThen ifWord cond thenWord thenBranch =>
      obtain ⟨_, closes⟩ := Term.tokens_eq (.ifThen ifWord cond thenWord thenBranch)
      exact .between apart rfl closes
  | .ifElse ifWord cond thenWord thenBranch elseWord elseBranch =>
      obtain ⟨_, closes⟩ :=
        Term.tokens_eq (.ifElse ifWord cond thenWord thenBranch elseWord elseBranch)
      exact .between apart rfl closes

theorem Term.outerOpening_side (term : Term) (formed : term.Formed) :
    ∀ token ∈ term.outerOpening, token.side = .opening := by
  match term with
  | .literal _ _ | .var _ | .unary _ _ _ | .ifThen _ _ _ _ | .ifElse _ _ _ _ _ _
  | .callEmpty _ _ _ | .call _ _ _ _ => exact List.forall_mem_nil _
  | .group opening inner closing =>
      obtain ⟨opened, _, inside, _⟩ := formed
      exact List.forall_mem_cons.mpr ⟨Token.side_of_kind opened, inner.outerOpening_side inside⟩
  | .arith left _ _ _ => exact left.outerOpening_side formed.2.1.1
  | .logical left _ _ _ => exact left.outerOpening_side formed.2.1.1

theorem Term.outerClosing_side (term : Term) (formed : term.Formed) :
    ∀ token ∈ term.outerClosing, token.side = .closing := by
  match term with
  | .literal _ _ | .var _ | .ifThen _ _ _ _ | .ifElse _ _ _ _ _ _ | .callEmpty _ _ _
  | .call _ _ _ _ => exact List.forall_mem_nil _
  | .group opening inner closing =>
      obtain ⟨_, closed, inside, _⟩ := formed
      exact List.forall_mem_append.mpr ⟨inner.outerClosing_side inside,
        List.forall_mem_singleton.mpr (Token.side_of_kind closed)⟩
  | .unary _ _ operand => exact operand.outerClosing_side formed.2.1
  | .arith _ _ _ right => exact right.outerClosing_side formed.2.2.1.1
  | .logical _ _ _ right => exact right.outerClosing_side formed.2.2.1

/-- With a parenthesis missing in front, what is shown closes one too many. -/
theorem Term.depthBehind_of_opening {term : Term} (formed : term.Formed)
    (some : term.outerOpening ≠ []) :
    depthBehind Token.side 0 (term.shown ++ term.outerClosing) = none := by
  have whole := term.balanced formed
  rw [tokens_eq_shown] at whole
  exact whole.depthBehind_of_openings some (term.outerOpening_side formed)

/-- With a parenthesis missing at the end, what is shown leaves one open. -/
theorem Term.not_balanced_of_closing {term : Term} (formed : term.Formed)
    (some : term.outerClosing ≠ []) :
    ¬ Token.BalancedIn (term.outerOpening ++ term.shown) := by
  have whole := term.balanced formed
  rw [tokens_eq_shown, ← List.append_assoc] at whole
  exact whole.not_of_closings some (term.outerClosing_side formed)

/-- What stands between two operands, of which the first or the second may be shown in part. -/
theorem not_balanced_between {left right : Term} {sign : Token} (first : left.Formed)
    (plain : sign.side = .inner) (second : right.Formed)
    (clipped : left.outerOpening ≠ [] ∨ right.outerClosing ≠ []) :
    ¬ Token.BalancedIn
      (left.shown ++ (left.outerClosing ++ sign :: right.outerOpening ++ right.shown)) := by
  intro balanced
  have split : left.shown ++ (left.outerClosing ++ sign :: right.outerOpening ++ right.shown) =
      left.shown ++ left.outerClosing ++ sign :: (right.outerOpening ++ right.shown) := by simp
  rw [split] at balanced
  by_cases opening : left.outerOpening = []
  · have closing := clipped.resolve_left (not_not_intro opening)
    have front := left.balanced first
    rw [Term.tokens_eq_shown, opening, List.nil_append] at front
    have rest := balanced.of_append_left front
    exact Term.not_balanced_of_closing second closing (rest.tail plain)
  · have reached : depthBehind Token.side 0 _ = some 0 := balanced
    rw [depthBehind_append, Term.depthBehind_of_opening first opening] at reached
    cases reached

theorem clipped_iff {term : Term} :
    term.clipped = true ↔ term.outerOpening ≠ [] ∨ term.outerClosing ≠ [] := by
  rw [Term.clipped, Bool.not_eq_true', Bool.and_eq_false_iff, ← Bool.not_eq_true,
    ← Bool.not_eq_true, List.isEmpty_iff, List.isEmpty_iff]

theorem Term.shown_eq_tokens {term : Term} (whole : term.clipped = false) :
    term.shown = term.tokens := by
  rw [← Bool.not_eq_true, clipped_iff, not_or, not_not, not_not] at whole
  rw [tokens_eq_shown, whole.1, whole.2, List.nil_append, List.append_nil]

/-- A node is shown with balanced parentheses exactly if none is missing at its ends. -/
theorem Term.balanced_shown_iff {term : Term} (formed : term.Formed) (node : term.isGroup = false) :
    Token.BalancedIn term.shown ↔ term.clipped = false := by
  constructor
  · intro balanced
    rw [← Bool.not_eq_true, clipped_iff]
    intro clipped
    match term with
    | .literal _ _ | .var _ | .ifThen _ _ _ _ | .ifElse _ _ _ _ _ _ | .callEmpty _ _ _
    | .call _ _ _ _ => exact clipped.elim (fun some => some rfl) fun some => some rfl
    | .group _ _ _ => cases node
    | .unary sign op operand =>
        obtain ⟨known, inside, _⟩ := formed
        have closing := clipped.resolve_left fun some => some rfl
        have plain : sign.side = .inner := UnaryOp.side_of_known known
        exact not_balanced_of_closing inside closing (balanced.tail plain)
    | .arith left sign op right =>
        obtain ⟨known, ⟨first, _⟩, ⟨second, _⟩, _⟩ := formed
        exact not_balanced_between first (ArithOp.side_of_known known) second clipped balanced
    | .logical left word op right =>
        obtain ⟨same, ⟨first, _⟩, second, _⟩ := formed
        have plain : word.side = .inner := by
          rw [Token.side_of_kind same]
          cases op <;> rfl
        exact not_balanced_between first plain second clipped balanced
  · intro whole
    rw [shown_eq_tokens whole]
    exact term.balanced formed

end Concrete

end Sipl
