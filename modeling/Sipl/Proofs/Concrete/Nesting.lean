import Sipl.Proofs.Analysis.Positions
import Sipl.Proofs.Concrete.Faithfulness
import Sipl.Proofs.Reader.StoringAgreement

namespace Sipl

/-- Tokens that stand apart, one behind the other. -/
structure Token.Apart (tokens : List Token) : Prop where
  ordered : tokens.Pairwise fun left right => left.site.span.stop ≤ right.site.span.start
  forward : ∀ token ∈ tokens, token.site.span.start ≤ token.site.span.stop

namespace Token.Apart

variable {tokens front back : List Token} {token : Token}

theorem sublist (apart : Apart tokens) (within : front.Sublist tokens) : Apart front :=
  ⟨apart.ordered.sublist within, fun token member => apart.forward token (within.mem member)⟩

theorem left (apart : Apart (front ++ back)) : Apart front :=
  apart.sublist (List.sublist_append_left _ _)

theorem right (apart : Apart (front ++ back)) : Apart back :=
  apart.sublist (List.sublist_append_right _ _)

theorem tail (apart : Apart (token :: tokens)) : Apart tokens :=
  apart.sublist (List.sublist_cons_self _ _)

end Token.Apart

namespace SpanTree

variable {tokens more front back : List Token} {tree left right : SpanTree}
  {trees others : List SpanTree} {first last sign : Token}

theorem Nests.mono (nests : tree.Nests tokens) (within : tokens ⊆ more) : tree.Nests more := by
  induction nests with
  | node starts stops covers apart _ ih =>
      obtain ⟨opening, opens, same⟩ := starts
      obtain ⟨closing, closes, alike⟩ := stops
      exact .node ⟨opening, within opens, same⟩ ⟨closing, within closes, alike⟩ covers apart ih

theorem Nests.starts (nests : tree.Nests tokens) :
    ∃ token ∈ tokens, token.site.span.start = tree.span.start := by
  cases nests with
  | node starts => exact starts

theorem Nests.stops (nests : tree.Nests tokens) :
    ∃ token ∈ tokens, token.site.span.stop = tree.span.stop := by
  cases nests with
  | node _ stops => exact stops

/-- What is read of earlier tokens stands in front of what is read of later ones. -/
theorem Nests.before (apart : Token.Apart (front ++ back)) (first : left.Nests front)
    (second : right.Nests back) : left.span.stop ≤ right.span.start := by
  obtain ⟨closing, closes, same⟩ := first.stops
  obtain ⟨opening, opens, alike⟩ := second.starts
  rw [← same, ← alike]
  exact (List.pairwise_append.mp apart.ordered).2.2 closing closes opening opens

/-- Trees that nest and stand apart. -/
structure Forest (tokens : List Token) (trees : List SpanTree) : Prop where
  nests : ∀ tree ∈ trees, tree.Nests tokens
  apart : trees.Pairwise fun left right => left.span.stop ≤ right.span.start

theorem Forest.nil (tokens : List Token) : Forest tokens [] := ⟨List.forall_mem_nil _, .nil⟩

theorem Forest.single (nests : tree.Nests tokens) : Forest tokens [tree] :=
  ⟨List.forall_mem_singleton.mpr nests, List.pairwise_singleton _ _⟩

theorem Forest.mono (forest : Forest tokens trees) (within : tokens ⊆ more) : Forest more trees :=
  ⟨fun tree member => (forest.nests tree member).mono within, forest.apart⟩

theorem Forest.behind (token : Token) (forest : Forest tokens trees) :
    Forest (token :: tokens) trees :=
  forest.mono (List.subset_cons_self _ _)

theorem Forest.append (apart : Token.Apart (front ++ back)) (head : Forest front trees)
    (tail : Forest back others) : Forest (front ++ back) (trees ++ others) where
  nests := List.forall_mem_append.mpr
    ⟨(head.mono (List.subset_append_left _ _)).nests,
      (tail.mono (List.subset_append_right _ _)).nests⟩
  apart := List.pairwise_append.mpr ⟨head.apart, tail.apart, fun left member right also =>
    Nests.before apart (head.nests left member) (tail.nests right also)⟩

theorem Forest.cons (apart : Token.Apart (front ++ back)) (head : tree.Nests front)
    (tail : Forest back trees) : Forest (front ++ back) (tree :: trees) :=
  append apart (.single head) tail

theorem nests_token (token : Token) : (node token.site.span []).Nests [token] :=
  .node ⟨token, List.mem_cons_self, rfl⟩ ⟨token, List.mem_cons_self, rfl⟩ (List.forall_mem_nil _)
    .nil (List.forall_mem_nil _)

/-- A node that reaches from the first of some tokens to the last one. -/
theorem Forest.between (forest : Forest tokens trees) (apart : Token.Apart tokens)
    (opens : ∃ rest, tokens = first :: rest) (closes : ∃ rest, tokens = rest ++ [last]) :
    (node (first.site.span.merge last.site.span) trees).Nests tokens := by
  have firstMem : first ∈ tokens := by
    obtain ⟨rest, rfl⟩ := opens
    exact List.mem_cons_self
  have lastMem : last ∈ tokens := by
    obtain ⟨rest, rfl⟩ := closes
    exact List.mem_append_right _ List.mem_cons_self
  have lowest : ∀ token ∈ tokens, first.site.span.start ≤ token.site.span.start := by
    have forward := apart.forward first firstMem
    obtain ⟨rest, rfl⟩ := opens
    refine List.forall_mem_cons.mpr ⟨Nat.le_refl _, fun token member => ?_⟩
    exact Nat.le_trans forward ((List.pairwise_cons.mp apart.ordered).1 token member)
  have highest : ∀ token ∈ tokens, token.site.span.stop ≤ last.site.span.stop := by
    have forward := apart.forward last lastMem
    obtain ⟨rest, rfl⟩ := closes
    refine List.forall_mem_append.mpr
      ⟨fun token member => ?_, List.forall_mem_singleton.mpr (Nat.le_refl _)⟩
    have before := (List.pairwise_append.mp apart.ordered).2.2 token member last List.mem_cons_self
    exact Nat.le_trans before forward
  have start : min first.site.span.start last.site.span.start = first.site.span.start :=
    Nat.min_eq_left (lowest last lastMem)
  have stop : max first.site.span.stop last.site.span.stop = last.site.span.stop :=
    Nat.max_eq_right (highest first firstMem)
  refine .node ⟨first, firstMem, start.symm⟩ ⟨last, lastMem, stop.symm⟩ (fun child member => ?_)
    forest.apart forest.nests
  obtain ⟨opening, opens, same⟩ := (forest.nests child member).starts
  obtain ⟨closing, closes, alike⟩ := (forest.nests child member).stops
  rw [Span.merge, start, stop, ← same, ← alike]
  exact ⟨lowest opening opens, highest closing closes⟩

theorem merge_bounds {tokens : List Token} {left right : Span}
    (leftStarts : ∃ token ∈ tokens, token.site.span.start = left.start)
    (rightStarts : ∃ token ∈ tokens, token.site.span.start = right.start)
    (leftStops : ∃ token ∈ tokens, token.site.span.stop = left.stop)
    (rightStops : ∃ token ∈ tokens, token.site.span.stop = right.stop) :
    (∃ token ∈ tokens, token.site.span.start = (left.merge right).start) ∧
      ∃ token ∈ tokens, token.site.span.stop = (left.merge right).stop := by
  constructor
  · rcases Nat.le_total left.start right.start with lower | lower
    · rwa [Span.merge, Nat.min_eq_left lower]
    · rwa [Span.merge, Nat.min_eq_right lower]
  · rcases Nat.le_total left.stop right.stop with lower | lower
    · rwa [Span.merge, Nat.max_eq_right lower]
    · rwa [Span.merge, Nat.max_eq_left lower]

/-- A node between whose operands an operator stands. -/
theorem nests_joined (apart : Token.Apart (front ++ sign :: back)) (first : left.Nests front)
    (second : right.Nests back) :
    (node (left.span.merge right.span) [left, right]).Nests (front ++ sign :: back) := by
  have forest : Forest (front ++ sign :: back) [left, right] :=
    .cons apart first ((Forest.single second).behind sign)
  have one := forest.nests left List.mem_cons_self
  have other := forest.nests right (List.mem_cons_of_mem _ List.mem_cons_self)
  have bounds := merge_bounds one.starts other.starts one.stops other.stops
  refine .node bounds.1 bounds.2 ?_ forest.apart forest.nests
  refine List.forall_mem_cons.mpr ⟨⟨Nat.min_le_left _ _, Nat.le_max_left _ _⟩, ?_⟩
  exact List.forall_mem_singleton.mpr ⟨Nat.min_le_right _ _, Nat.le_max_right _ _⟩

/-- A node that starts with an operator in front of its operand. -/
theorem nests_unary (sign : Token) (operand : tree.Nests tokens) :
    (node (sign.site.span.merge tree.span) [tree]).Nests (sign :: tokens) := by
  have inner := operand.mono (List.subset_cons_self sign tokens)
  have bounds := merge_bounds ⟨sign, List.mem_cons_self, rfl⟩ inner.starts
    ⟨sign, List.mem_cons_self, rfl⟩ inner.stops
  refine .node bounds.1 bounds.2 ?_ (List.pairwise_singleton _ _)
    (List.forall_mem_singleton.mpr inner)
  exact List.forall_mem_singleton.mpr ⟨Nat.min_le_right _ _, Nat.le_max_right _ _⟩

end SpanTree

namespace Concrete

open SpanTree

mutual

theorem Term.nests (term : Term) (apart : Token.Apart term.tokens) :
    term.tree.spans.Nests term.tokens := by
  match term with
  | .literal token _ | .var token => exact nests_token token
  | .group opening inner closing =>
      refine (inner.nests apart.tail.left).mono ?_
      exact List.subset_cons_of_subset _ (List.subset_append_left _ _)
  | .unary sign op operand =>
      have nests := nests_unary sign (operand.nests apart.tail)
      rwa [Expr.span_spans] at nests
  | .arith left sign op right =>
      have nests := nests_joined apart (left.nests apart.left) (right.nests apart.right.tail)
      rwa [Expr.span_spans, Expr.span_spans] at nests
  | .logical left word op right =>
      have nests := nests_joined apart (left.nests apart.left) (right.nests apart.right.tail)
      rwa [Expr.span_spans, Expr.span_spans] at nests
  | .ifThen ifWord cond thenWord thenBranch =>
      have branch := Forest.single (thenBranch.nests apart.tail.right.tail)
      have forest : Forest _ [cond.tree.spans, thenBranch.tree.spans] :=
        .cons apart.tail (cond.nests apart.tail.left) (branch.behind _)
      exact (forest.behind ifWord).between apart ⟨_, rfl⟩ (Term.tokens_eq (.ifThen ..))
  | .ifElse ifWord cond thenWord thenBranch elseWord elseBranch =>
      have branches : Forest _ [thenBranch.tree.spans, elseBranch.tree.spans] :=
        .cons apart.tail.right.tail (thenBranch.nests apart.tail.right.tail.left)
          ((Forest.single (elseBranch.nests apart.tail.right.tail.right.tail)).behind _)
      have forest := Forest.cons apart.tail (cond.nests apart.tail.left) (branches.behind _)
      exact (forest.behind ifWord).between apart ⟨_, rfl⟩ (Term.tokens_eq (.ifElse ..))
  | .callEmpty name opening closing =>
      exact (Forest.nil _).between apart ⟨_, rfl⟩ (Term.tokens_eq (.callEmpty ..))
  | .call name opening first others =>
      have forest := Forest.cons apart.tail.tail (first.nests apart.tail.tail.left)
        (others.forest apart.tail.tail.right)
      exact ((forest.behind opening).behind name).between apart ⟨_, rfl⟩ (Term.tokens_eq (.call ..))

theorem Arguments.forest (others : Arguments) (apart : Token.Apart others.tokens) :
    Forest others.tokens (Expr.argsSpans others.trees) := by
  match others with
  | .closed closing => exact .nil _
  | .next comma arg others =>
      have forest := Forest.cons apart.tail (arg.nests apart.tail.left)
        (others.forest apart.tail.right)
      exact forest.behind comma

end

mutual

theorem Statement.nests (stmt : Statement) (apart : Token.Apart stmt.tokens) :
    stmt.tree.spans.Nests stmt.tokens := by
  match stmt with
  | .assign name assign value =>
      have forest := Forest.single (value.nests apart.tail.tail)
      exact ((forest.behind assign).behind name).between apart ⟨_, rfl⟩
        (Statement.tokens_eq (.assign ..))
  | .ifThen ifWord cond thenWord thenBlock =>
      have inner := Forest.single (thenBlock.nests apart.tail.right.tail)
      have forest := Forest.cons apart.tail (cond.nests apart.tail.left) (inner.behind thenWord)
      exact (forest.behind ifWord).between apart ⟨_, rfl⟩ (Statement.tokens_eq (.ifThen ..))
  | .ifElse ifWord cond thenWord thenBlock elseWord elseBlock =>
      have blocks := apart.tail.right.tail
      have second := Forest.single (elseBlock.nests blocks.right.tail)
      have inner := Forest.cons blocks (thenBlock.nests blocks.left) (second.behind elseWord)
      have forest := Forest.cons apart.tail (cond.nests apart.tail.left) (inner.behind thenWord)
      exact (forest.behind ifWord).between apart ⟨_, rfl⟩ (Statement.tokens_eq (.ifElse ..))
  | .whileLoop whileWord cond doWord body =>
      have inner := Forest.single (body.nests apart.tail.right.tail)
      have forest := Forest.cons apart.tail (cond.nests apart.tail.left) (inner.behind doWord)
      exact (forest.behind whileWord).between apart ⟨_, rfl⟩ (Statement.tokens_eq (.whileLoop ..))

theorem Block.nests (block : Block) (apart : Token.Apart block.tokens) :
    block.tree.spans.Nests block.tokens := by
  match block with
  | .mk opening first others =>
      have forest := Forest.cons apart.tail (first.nests apart.tail.left)
        (others.forest apart.tail.right)
      exact (forest.behind opening).between apart ⟨_, rfl⟩ (Block.tokens_eq (.mk ..))

theorem Statements.forest (others : Statements) (apart : Token.Apart others.tokens) :
    Forest others.tokens (stmtsSpans others.trees) := by
  match others with
  | .closed closing => exact .nil _
  | .next semicolon stmt others =>
      have forest := Forest.cons apart.tail (stmt.nests apart.tail.left)
        (others.forest apart.tail.right)
      exact forest.behind semicolon

end

theorem ParamsTail.forest (others : ParamsTail) (apart : Token.Apart others.tokens) :
    Forest others.tokens (others.trees.map Param.spans) := by
  induction others with
  | closed closing => exact .nil _
  | next comma name others ih =>
      exact (Forest.cons apart.tail (nests_token name) (ih apart.tail.tail)).behind comma

theorem Params.forest (params : Params) (apart : Token.Apart params.tokens) :
    Forest params.tokens (params.trees.map Param.spans) := by
  cases params with
  | none closing => exact .nil _
  | some name others => exact .cons apart (nests_token name) (others.forest apart.tail)

theorem Declaration.nests (declaration : Declaration) (apart : Token.Apart declaration.tokens) :
    declaration.tree.spans.Nests declaration.tokens := by
  have inner := apart.tail.tail.tail
  have body := Forest.single (declaration.body.nests inner.right.tail)
  have forest := Forest.append inner (declaration.params.forest inner.left)
    (body.behind declaration.eq)
  exact (((forest.behind declaration.opening).behind declaration.name).behind
    declaration.word).between apart ⟨_, rfl⟩ declaration.tokens_eq

theorem Declarations.forest (declarations : Declarations)
    (apart : Token.Apart declarations.tokens) :
    Forest declarations.tokens (declarations.trees.map Function.spans) := by
  induction declarations with
  | none => exact .nil _
  | last one => exact .single (one.nests apart)
  | more one semicolon others ih =>
      exact .cons apart (one.nests apart.left) ((ih apart.right.tail).behind semicolon)

theorem Program.forest (program : Program) (apart : Token.Apart program.tokens) :
    Forest program.tokens program.tree.spans := by
  have body := Forest.single (program.body.nests apart.tail.right)
  have forest := Forest.append apart.tail (program.declarations.forest apart.tail.left) body
  exact forest.behind program.word

end Concrete

variable {source : String}

theorem Token.Written.bounds {token : Token} (written : token.Written source.toList) :
    token.site.span.start ≤ token.site.span.stop ∧
      token.site.span.stop ≤ source.utf8ByteSize := by
  obtain ⟨before, lexeme, after, whole, _, site, _⟩ := written
  rw [site, utf8ByteSize_eq_byteSize, whole]
  simp [Site.behind]

theorem apart_scan (short : source.utf8ByteSize < 2 ^ 32) : Token.Apart (scan source).tokens := by
  refine ⟨?_, fun token member => (written_of_mem_scan short token member).bounds.1⟩
  obtain ⟨tokens, found, tokenized⟩ := tokenizes_scan short
  rw [found]
  refine List.pairwise_append.mpr ⟨tokenized.tokens_ordered, List.pairwise_singleton _ _, ?_⟩
  intro token member mark last
  obtain rfl := List.mem_singleton.mp last
  have inside := (tokenized.tokens_stand token member).written.bounds.2
  rwa [utf8ByteSize_eq_byteSize] at inside

/-- The span does not end in front of its start, and it ends within a text of the size. -/
def Span.Within (size : Nat) (span : Span) : Prop := span.start ≤ span.stop ∧ span.stop ≤ size

theorem Span.closed_within (size : Nat) : Span.Closed (Within size) where
  origin := ⟨Nat.le_refl 0, Nat.zero_le size⟩
  merge := by
    rintro left right ⟨leftForward, leftInside⟩ ⟨rightForward, rightInside⟩
    refine ⟨?_, Nat.max_le.mpr ⟨leftInside, rightInside⟩⟩
    exact Nat.le_trans (Nat.min_le_left _ _) (Nat.le_trans leftForward (Nat.le_max_left _ _))

/-- The spans in what is read of a source: they lie in the source, even where there are errors,
also those of the nodes that are stored for what could not be read; and where there are no errors,
they nest, from the starts of tokens to the ends of tokens. -/
structure SpansNest (source : String) (parsed : Parsed) : Prop where
  within : ∀ program, parsed.program? = some program →
    ∀ tree ∈ program.spans, tree.All (Span.Within source.utf8ByteSize)
  stored : ∃ stored, StoredParse.ofTokens (scan source).tokens (closed_scan source) = .ok stored ∧
    stored.Follows parsed ∧ ∀ span ∈ stored.spans, Span.Within source.utf8ByteSize span
  errorsWithin : ∀ error ∈ parsed.errors, Span.Within source.utf8ByteSize error.site.span
  nested : parsed.errors = [] → ∃ program, parsed.program? = some program ∧
    SpanTree.Forest (Concrete.beforeEnd (scan source).tokens) program.spans

/-- What is stored for a source, with or without errors, has its spans in the source. -/
theorem exists_stored_within (short : source.utf8ByteSize < 2 ^ 32) :
    ∃ stored, StoredParse.ofTokens (scan source).tokens (closed_scan source) = .ok stored ∧
      stored.Follows (Analysis.ofSource source).parsed ∧
      ∀ span ∈ stored.spans, Span.Within source.utf8ByteSize span :=
  StoredParse.ofCursor_follows (Span.closed_within _)
    (Cursor.among_start _ fun token member => (written_of_mem_scan short token member).bounds)

theorem spans_nest (source : String) (short : source.utf8ByteSize < 2 ^ 32) :
    SpansNest source (Analysis.ofSource source).parsed where
  within program found := by
    obtain ⟨stored, -, follows, told⟩ := exists_stored_within short
    exact follows.all_spans told found
  stored := exists_stored_within short
  errorsWithin error member := by
    obtain ⟨_, meets⟩ := Parsed.meets_ofCursor (.start _ (closed_scan source))
    rw [Parsed.upcoming_start] at meets
    exact (written_of_mem_scan short _ (meets.token_mem error member)).bounds
  nested clean := by
    obtain ⟨program, stop, found, _, passes, ended⟩ := Concrete.exists_program clean
    have whole := Concrete.beforeEnd_eq passes ended
    rw [Parsed.upcoming_start] at whole
    refine ⟨program.tree, found, ?_⟩
    rw [whole]
    refine program.forest ((apart_scan short).sublist ?_)
    rw [← whole]
    exact List.takeWhile_sublist _

def groupedSource : String := "program func f(a, b) = -(a + b) begin x := f(1, 2) * 3 end"

/-- The parenthesis is not closed, so nothing refers to the sum that was read. -/
def openGroupSource : String := "program begin x := (1 + 2 end"

theorem spans_nest_of_grouped :
    (groupedSource.utf8ByteSize < 2 ^ 32 ∧
      (Analysis.ofSource groupedSource).parsed.errors = [] ∧
      SpansNest groupedSource (Analysis.ofSource groupedSource).parsed) ∧
    openGroupSource.utf8ByteSize < 2 ^ 32 ∧
      (Analysis.ofSource openGroupSource).parsed.errors.map (fun error => error.site.span) =
        [⟨26, 29⟩] ∧
      (StoredParse.ofTokens (scan openGroupSource).tokens (closed_scan openGroupSource)).map
        StoredParse.spans = .ok [⟨20, 21⟩, ⟨24, 25⟩, ⟨20, 25⟩, ⟨8, 29⟩] ∧
      SpansNest openGroupSource (Analysis.ofSource openGroupSource).parsed :=
  ⟨⟨by decide, by decide +kernel, spans_nest _ (by decide)⟩,
    by decide, by decide +kernel, by decide +kernel, spans_nest _ (by decide)⟩

end Sipl
