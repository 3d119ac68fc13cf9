import Sipl.Proofs.Reader.Ahead
import Sipl.Proofs.Reader.Builds
import Sipl.Proofs.Reader.Declares
import Sipl.Proofs.Reader.Passes

namespace Sipl

/-- Behind an expression it makes no difference which of two kinds comes next. -/
def Kind.Alike (kind other : Kind) : Prop :=
  other = kind ∨ kind ∉ exprKinds ∧ other ∉ exprKinds

namespace Kind.Alike

variable {kind other known : Kind}

theorem symm (alike : kind.Alike other) : other.Alike kind :=
  alike.imp Eq.symm And.symm

theorem eq_of_mem (alike : kind.Alike other) (listed : kind ∈ exprKinds) : other = kind :=
  alike.resolve_right fun apart => apart.1 listed

theorem ne_of_mem (alike : kind.Alike other) (listed : known ∈ exprKinds) (ne : kind ≠ known) :
    other ≠ known := by
  rintro rfl
  rcases alike with same | ⟨_, apart⟩
  · exact ne same.symm
  · exact apart listed

theorem eq_of_eq (alike : kind.Alike other) (same : kind = known)
    (listed : known ∈ exprKinds := by decide) : other = known :=
  same ▸ alike.eq_of_mem (same ▸ listed)

end Kind.Alike

namespace Cursor

variable {start stop other later : Cursor} {token : Token} {tokens front back rest : List Token}

theorem Passes.eq_of_nil (passes : start.Passes [] stop) : start = stop := by
  obtain ⟨ahead, behind, _⟩ := passes
  obtain ⟨earlier, current, others, closed⟩ := start
  obtain ⟨passed, _, _, _⟩ := stop
  obtain ⟨rfl, rfl⟩ := List.cons.inj ahead
  obtain rfl : passed = earlier := behind
  rfl

theorem Passes.current_eq (passes : start.Passes (token :: tokens) stop) :
    start.current = token :=
  (List.cons.inj passes.upcoming).1

theorem Passes.tail (passes : start.Passes (token :: tokens) stop) :
    start.advance.Passes tokens stop := by
  obtain ⟨here, others⟩ := List.forall_mem_cons.mp passes.inside
  have same := passes.current_eq
  have inside : start.kind ≠ .eof := by rwa [← same] at here
  have first := Passes.advance inside
  refine ⟨?_, ?_, others⟩
  · have ahead := first.upcoming.symm.trans passes.upcoming
    exact (List.cons.inj ahead).2
  · rw [passes.passed, first.passed, same]
    simp

theorem Passes.split (passes : start.Passes (front ++ back) stop) :
    ∃ later, start.Passes front later ∧ later.Passes back stop := by
  induction front generalizing start with
  | nil => exact ⟨start, .refl _, passes⟩
  | cons token front ih =>
      obtain ⟨later, first, second⟩ := ih passes.tail
      have inside : start.kind ≠ .eof := by
        have here := (List.forall_mem_cons.mp passes.inside).1
        rwa [← passes.current_eq] at here
      exact ⟨later, passes.current_eq ▸ .cons inside first, second⟩

theorem exists_passes (ahead : start.upcoming = tokens ++ rest)
    (inside : ∀ token ∈ tokens, token.kind ≠ .eof) :
    ∃ stop, start.Passes tokens stop ∧ stop.upcoming = rest := by
  induction tokens generalizing start with
  | nil => exact ⟨start, .refl _, ahead⟩
  | cons token tokens ih =>
      obtain ⟨here, others⟩ := List.forall_mem_cons.mp inside
      have same : start.current = token := (List.cons.inj ahead).1
      have first : start.kind ≠ .eof := by rwa [← same] at here
      rw [upcoming_eq_cons first] at ahead
      obtain ⟨stop, passes, left⟩ := ih (List.cons.inj ahead).2 others
      exact ⟨stop, same ▸ .cons first passes, left⟩

/-- The token taken last is the same wherever the same tokens are taken. -/
theorem Passes.previousSpan_eq (passes : start.Passes (token :: tokens) stop)
    (also : other.Passes (token :: tokens) later) : later.previousSpan = stop.previousSpan := by
  obtain ⟨front, last, whole⟩ :=
    (List.eq_nil_or_concat (token :: tokens)).resolve_left (List.cons_ne_nil _ _)
  rw [whole, List.concat_eq_append] at passes also
  rw [passes.previousSpan, also.previousSpan]

/-- If what stands behind the same tokens is alike, so is what stands in front. -/
theorem Passes.starts_alike (passes : start.Passes tokens stop) (also : other.Passes tokens later)
    (alike : stop.kind.Alike later.kind) : start.kind.Alike other.kind := by
  cases tokens with
  | nil =>
      obtain rfl := passes.eq_of_nil
      obtain rfl := also.eq_of_nil
      exact alike
  | cons token tokens =>
      exact .inl (congrArg Token.kind (also.current_eq.trans passes.current_eq.symm))

end Cursor

open Reader Cursor

/-- What holds of two cursors holds wherever the same tokens are passed, if the tokens behind them
are alike. -/
def Portable (start stop : Cursor) (holds : Cursor → Cursor → Prop) : Prop :=
  ∃ tokens, start.Passes tokens stop ∧
    ∀ other later, other.Passes tokens later → stop.kind.Alike later.kind → holds other later

namespace Portable

variable {start middle stop : Cursor} {holds weaker first second : Cursor → Cursor → Prop}

theorem refl (here : ∀ other, start.kind.Alike other.kind → holds other other) :
    Portable start start holds := by
  refine ⟨[], .refl _, fun other later passes alike => ?_⟩
  obtain rfl := passes.eq_of_nil
  exact here other alike

theorem mono (portable : Portable start stop holds)
    (implied : ∀ other later, stop.kind.Alike later.kind → holds other later →
      weaker other later) : Portable start stop weaker := by
  obtain ⟨tokens, passes, wherever⟩ := portable
  exact ⟨tokens, passes, fun other later also alike =>
    implied other later alike (wherever other later also alike)⟩

theorem seq (head : Portable start middle first) (tail : Portable middle stop second) :
    Portable start stop fun other later => ∃ between : Cursor,
      middle.kind.Alike between.kind ∧ first other between ∧ second between later := by
  obtain ⟨front, headPasses, headHolds⟩ := head
  obtain ⟨back, tailPasses, tailHolds⟩ := tail
  refine ⟨front ++ back, headPasses.trans tailPasses, fun other later passes alike => ?_⟩
  obtain ⟨between, before, behind⟩ := passes.split
  have here := tailPasses.starts_alike behind alike
  exact ⟨between, here, headHolds _ _ before here, tailHolds _ _ behind alike⟩

/-- Behind a token that is taken. -/
theorem cons (tail : Portable start.advance stop second) (inside : start.kind ≠ .eof) :
    Portable start stop fun other later => other.current = start.current ∧
      later.previousSpan = stop.previousSpan ∧ second other.advance later := by
  obtain ⟨back, passes, wherever⟩ := tail
  have whole := Passes.cons inside passes
  refine ⟨start.current :: back, whole, fun other later also alike => ?_⟩
  exact ⟨also.current_eq, whole.previousSpan_eq also, wherever _ _ also.tail alike⟩

/-- A token that is taken and nothing else. -/
theorem single (inside : start.kind ≠ .eof) :
    Portable start start.advance fun other later => other.current = start.current ∧
      other.advance = later := by
  have here : Portable start.advance start.advance fun other later => other = later :=
    .refl fun _ _ => rfl
  exact (here.cons inside).mono fun _ _ _ ⟨same, _, behind⟩ => ⟨same, behind⟩

theorem starts (portable : Portable start stop holds) :
    Portable start stop fun other later => start.kind.Alike other.kind ∧ holds other later := by
  obtain ⟨tokens, passes, wherever⟩ := portable
  exact ⟨tokens, passes, fun other later also alike =>
    ⟨passes.starts_alike also alike, wherever other later also alike⟩⟩

/-- What holds behind some tokens in one stream holds behind them in another one. -/
theorem transport (portable : Portable start stop holds) {other : Cursor} {ending closing : Token}
    {segment others rest left : List Token} (here : start.upcoming = segment ++ ending :: rest)
    (stopped : stop.upcoming = others ++ ending :: rest)
    (there : other.upcoming = segment ++ closing :: left) (alike : ending.kind.Alike closing.kind) :
    ∃ later, holds other later ∧ later.upcoming = others ++ closing :: left := by
  obtain ⟨tokens, passes, wherever⟩ := portable
  have whole : segment = tokens ++ others := by
    have same := here.symm.trans passes.upcoming
    rw [stopped, ← List.append_assoc] at same
    exact List.append_cancel_right same
  rw [whole, List.append_assoc] at there
  obtain ⟨later, also, behind⟩ := exists_passes there passes.inside
  refine ⟨later, wherever other later also ?_, behind⟩
  cases others with
  | nil =>
      have ended : stop.current = ending := (List.cons.inj stopped).1
      have closed : later.current = closing := (List.cons.inj behind).1
      rw [Cursor.kind, Cursor.kind, ended, closed]
      exact alike
  | cons token others =>
      exact .inl (congrArg Token.kind
        ((List.cons.inj behind).1.trans (List.cons.inj stopped).1.symm))

end Portable

theorem Kind.Alike.operatorHere?_eq {here there : Cursor} (alike : here.kind.Alike there.kind)
    (strength : ArithOp → Bool) : operatorHere? there strength = operatorHere? here strength := by
  rcases alike with same | ⟨apart, further⟩
  · rw [operatorHere?, operatorHere?, same]
  · rw [Option.eq_none_iff_forall_ne_some.mpr fun _ found => apart (mem_exprKinds_of_arithOp found)]
    exact Option.eq_none_iff_forall_ne_some.mpr fun _ found =>
      further (mem_exprKinds_of_arithOp found)

theorem Kind.Alike.unaryOp_eq_none {kind other : Kind} (alike : kind.Alike other)
    (missing : UnaryOp.ofKind? kind = none) : UnaryOp.ofKind? other = none := by
  rcases alike with same | ⟨_, further⟩
  · rw [same, missing]
  · exact Option.eq_none_iff_forall_ne_some.mpr fun _ found =>
      further (mem_exprKinds_of_unaryOp found)

theorem kind_eq_of_current {cursor other : Cursor} {kind : Kind}
    (same : other.current = cursor.current) (here : cursor.kind = kind) : other.kind = kind :=
  (congrArg Token.kind same).trans here

namespace Reader

theorem Reads.portable {start stop : Cursor} {phrase : Phrase} (reads : Reads start phrase stop) :
    Portable start stop fun other later => Reads other phrase later := by
  -- A rule looks at the tokens it reads and at the one it stops before.  Where those are the same
  -- it applies elsewhere too; the token behind a part is the first one of the next part.
  induction reads with
  | disjunction _ _ ihFirst ihOthers =>
      refine (ihFirst.seq ihOthers).mono ?_
      rintro other later _ ⟨between, _, first, others⟩
      exact .disjunction first others
  | disjunctionMore operator _ _ ihNext ihOthers =>
      refine ((ihNext.seq ihOthers).cons (inside_of_kind operator)).mono ?_
      rintro other later _ ⟨same, _, between, _, next, others⟩
      exact .disjunctionMore (kind_eq_of_current same operator) next (same ▸ others)
  | disjunctionEnd last =>
      exact .refl fun other alike => .disjunctionEnd (alike.ne_of_mem (by decide) last)
  | conjunction _ _ ihFirst ihOthers =>
      refine (ihFirst.seq ihOthers).mono ?_
      rintro other later _ ⟨between, _, first, others⟩
      exact .conjunction first others
  | conjunctionMore operator _ _ ihNext ihOthers =>
      refine ((ihNext.seq ihOthers).cons (inside_of_kind operator)).mono ?_
      rintro other later _ ⟨same, _, between, _, next, others⟩
      exact .conjunctionMore (kind_eq_of_current same operator) next (same ▸ others)
  | conjunctionEnd last =>
      exact .refl fun other alike => .conjunctionEnd (alike.ne_of_mem (by decide) last)
  | comparisonBoth _ operator _ ihFirst ihSecond =>
      refine (ihFirst.seq (ihSecond.cons (inside_of_arithOp operator))).mono ?_
      rintro other later _ ⟨between, alike, first, same, _, second⟩
      have op := (alike.operatorHere?_eq _).trans operator
      exact same ▸ .comparisonBoth first op second
  | comparisonOne _ last ihOnly =>
      refine ihOnly.mono fun other later alike only => .comparisonOne only ?_
      exact (alike.operatorHere?_eq _).trans last
  | additive _ _ ihFirst ihOthers =>
      refine (ihFirst.seq ihOthers).mono ?_
      rintro other later _ ⟨between, _, first, others⟩
      exact .additive first others
  | @additiveMore start _ _ _ _ _ _ operator _ _ ihNext ihOthers =>
      refine ((ihNext.seq ihOthers).cons (inside_of_arithOp operator)).mono ?_
      rintro other later _ ⟨same, _, between, _, next, others⟩
      have alike : start.kind.Alike other.kind := .inl (congrArg Token.kind same)
      exact .additiveMore ((alike.operatorHere?_eq _).trans operator) next (same ▸ others)
  | additiveEnd last =>
      exact .refl fun other alike => .additiveEnd ((alike.operatorHere?_eq _).trans last)
  | multiplicativeBoth _ operator _ ihFirst ihSecond =>
      refine (ihFirst.seq (ihSecond.cons (inside_of_arithOp operator))).mono ?_
      rintro other later _ ⟨between, alike, first, same, _, second⟩
      have op := (alike.operatorHere?_eq _).trans operator
      exact same ▸ .multiplicativeBoth first op second
  | multiplicativeOne _ last ihOnly =>
      refine ihOnly.mono fun other later alike only => .multiplicativeOne only ?_
      exact (alike.operatorHere?_eq _).trans last
  | unaryOperator operator _ ihInner =>
      refine (ihInner.cons (inside_of_unaryOp operator)).mono ?_
      rintro other later _ ⟨same, _, inner⟩
      rw [← same]
      exact .unaryOperator (by rwa [kind_eq_of_current same rfl]) inner
  | unaryPrimary last _ ihOnly =>
      refine ihOnly.starts.mono fun other later _ ⟨alike, only⟩ => .unaryPrimary ?_ only
      exact alike.unaryOp_eq_none last
  | grouping opened _ closed ihInner =>
      refine ((ihInner.seq (.single (inside_of_kind closed))).cons (inside_of_kind opened)).mono ?_
      rintro other later _ ⟨same, _, between, alike, inner, _, rfl⟩
      exact .grouping (kind_eq_of_current same opened) inner (alike.eq_of_eq closed)
  | choice word _ ihRest =>
      refine (ihRest.cons (inside_of_kind word)).mono ?_
      rintro other later _ ⟨same, _, rest⟩
      exact .choice (kind_eq_of_current same word) (same ▸ rest)
  | number digits known =>
      refine (Portable.single (inside_of_kind digits)).mono ?_
      rintro other _ _ ⟨same, rfl⟩
      rw [← same]
      exact .number (kind_eq_of_current same digits) (same ▸ known)
  | trueWord word =>
      refine (Portable.single (inside_of_kind word)).mono ?_
      rintro other _ _ ⟨same, rfl⟩
      exact same ▸ .trueWord (kind_eq_of_current same word)
  | falseWord word =>
      refine (Portable.single (inside_of_kind word)).mono ?_
      rintro other _ _ ⟨same, rfl⟩
      exact same ▸ .falseWord (kind_eq_of_current same word)
  | var name last =>
      refine (Portable.single (inside_of_kind name)).mono ?_
      rintro other _ alike ⟨same, rfl⟩
      exact same ▸ .var (kind_eq_of_current same name) (alike.ne_of_mem (by decide) last)
  | call name opened _ ihInner =>
      refine ((ihInner.cons (inside_of_kind opened)).cons (inside_of_kind name)).mono ?_
      rintro other later _ ⟨same, span, next, _, inner⟩
      rw [← same, ← span]
      exact .call (kind_eq_of_current same name) (kind_eq_of_current next opened) inner
  | conditionalBoth _ thenWord _ elseWord _ ihCondition ihFirst ihSecond =>
      have second := ihSecond.cons (inside_of_kind elseWord)
      have branches := (ihFirst.seq second).cons (inside_of_kind thenWord)
      refine (ihCondition.seq branches).mono ?_
      rintro other later _
        ⟨afterCond, alike, condition, _, span, afterThen, also, first, _, _, last⟩
      rw [← span]
      exact .conditionalBoth condition (alike.eq_of_eq thenWord) first (also.eq_of_eq elseWord) last
  | conditionalOne _ thenWord _ last ihCondition ihOnly =>
      refine (ihCondition.seq (ihOnly.cons (inside_of_kind thenWord))).mono ?_
      rintro other later ended ⟨afterCond, alike, condition, _, span, only⟩
      rw [← span]
      exact .conditionalOne condition (alike.eq_of_eq thenWord) only
        (ended.ne_of_mem (by decide) last)
  | noArguments closed =>
      refine (Portable.single (inside_of_kind closed)).mono ?_
      rintro other _ _ ⟨same, rfl⟩
      exact .noArguments (kind_eq_of_current same closed)
  | arguments more _ _ ihHead ihTail =>
      refine (ihHead.seq ihTail).starts.mono ?_
      rintro other later _ ⟨alike, between, _, head, tail⟩
      exact .arguments (alike.ne_of_mem (by decide) more) head tail
  | argumentsEnd closed =>
      refine (Portable.single (inside_of_kind closed)).mono ?_
      rintro other _ _ ⟨same, rfl⟩
      exact .argumentsEnd (kind_eq_of_current same closed)
  | argumentsMore comma _ _ ihHead ihTail =>
      refine ((ihHead.seq ihTail).cons (inside_of_kind comma)).mono ?_
      rintro other later _ ⟨same, _, between, _, head, tail⟩
      exact .argumentsMore (kind_eq_of_current same comma) head tail

variable {start stop : Cursor}

theorem portable_assignment {stmt : Stmt} (name : start.kind = .ident)
    (read : (trees.statement start).Yields (stmt, []) stop) :
    Portable start stop fun other later =>
      other.kind = .ident ∧ (trees.statement other).Yields (stmt, []) later := by
  obtain ⟨assign, value, source, rfl, _⟩ := (yields_assignment name).mp read
  have value := (reads_of_yielded (.disjunction value) source).portable
  refine ((value.cons (inside_of_kind assign)).cons (inside_of_kind name)).mono ?_
  rintro other later _ ⟨same, span, next, _, source⟩
  have named := kind_eq_of_current same name
  refine ⟨named, (yields_assignment named).mpr ?_⟩
  rw [← same, ← span]
  exact ⟨kind_eq_of_current next assign, _, yielded_of_reads source, rfl, rfl⟩

theorem portable_paramsTail {found : List Param}
    (declares : Declares start (.paramsTail found) stop) :
    Portable start stop fun other later => Declares other (.paramsTail found) later := by
  generalize same : Declaration.paramsTail found = declaration at declares
  induction declares generalizing found with
  | paramsEnd last =>
      obtain rfl := Declaration.paramsTail.inj same
      exact .refl fun other alike => .paramsEnd (alike.ne_of_mem (by decide) last)
  | paramsMore comma name _ ihTail =>
      obtain rfl := Declaration.paramsTail.inj same
      refine (((ihTail rfl).cons (inside_of_kind name)).cons (inside_of_kind comma)).mono ?_
      rintro other later _ ⟨first, _, next, _, tail⟩
      exact next ▸ .paramsMore (kind_eq_of_current first comma) (kind_eq_of_current next name) tail
  | _ => cases same

theorem portable_params {found : List Param} (declares : Declares start (.params found) stop) :
    Portable start stop fun other later => Declares other (.params found) later := by
  cases declares with
  | noParams closed => exact .refl fun other alike => .noParams (alike.eq_of_eq closed)
  | params name tail =>
      refine ((portable_paramsTail tail).cons (inside_of_kind name)).mono ?_
      rintro other later _ ⟨same, _, tail⟩
      exact same ▸ .params (kind_eq_of_current same name) tail

theorem portable_function {found : Function} (word : start.kind = .funcWord)
    (read : (trees.function start.current start.advance).Yields (found, []) stop) :
    Portable start stop fun other later => other.kind = .funcWord ∧
      (trees.function other.current other.advance).Yields (found, []) later := by
  obtain ⟨declares, _⟩ := declares_of_function read
  cases declares with
  | function name opened inner closed eq value =>
      have behind := (value.portable.cons (inside_of_kind eq)).cons (inside_of_kind closed)
      have listed := ((portable_params inner).seq behind).cons (inside_of_kind opened)
      refine ((listed.cons (inside_of_kind name)).cons (inside_of_kind word)).mono ?_
      rintro other later _ ⟨first, span, second, _, third, _, between, alike, inner, _, _, fourth,
        _, value⟩
      refine ⟨kind_eq_of_current first word, ?_⟩
      rw [← first, ← second, ← span]
      exact declared_of_declares (.function (kind_eq_of_current second name)
        (kind_eq_of_current third opened) inner (alike.eq_of_eq closed)
        (kind_eq_of_current fourth eq) value)

end Reader

end Sipl
