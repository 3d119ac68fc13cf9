import Sipl.Diagnostic.Problem
import Sipl.Proofs.Format.Writable
import Sipl.Proofs.Run.Failures
import Sipl.Proofs.Text.Graphic

namespace Sipl

theorem ValueType.graphic_name (type : ValueType) : Graphic type.name := by
  cases type <;> decide

theorem Graphic.quoted {symbol : String} (graphic : Graphic symbol) :
    Graphic (Sipl.quoted symbol) :=
  .append (.append (by decide) graphic) (by decide)

namespace Cause

variable {name : String}

theorem graphic_typeMismatch {context : String} (graphic : Graphic context)
    (expected found : ValueType) : Graphic (typeMismatch context expected found).message :=
  .append (.append (.append (.append (.append (by decide) graphic) (by decide))
    expected.graphic_name) (by decide)) found.graphic_name

theorem graphic_undefinedVariable (named : IsName name) :
    Graphic (undefinedVariable name).message :=
  .append (.append (by decide) (.of_spells named)) (by decide)

theorem graphic_undefinedFunction (named : IsName name) :
    Graphic (undefinedFunction name).message :=
  .append (.append (by decide) (.of_spells named)) (by decide)

theorem graphic_arityMismatch (named : IsName name) (expected given : Nat) :
    Graphic (arityMismatch name expected given).message := by
  have counted : Graphic (if expected = 1 then " argument" else " arguments") := by
    split <;> decide
  have front : Graphic ("function '" ++ name ++ "' expects ") :=
    .append (.append (by decide) (.of_spells named)) (by decide)
  exact .append (.append (.append (front.append (.number expected)) counted) (by decide))
    (.number given)

theorem graphic_callDepthExceeded (limit : Nat) : Graphic (callDepthExceeded limit).message :=
  .append (.append (by decide) (.number limit)) (by decide)

theorem graphic_notes (cause : Cause) : ∀ note ∈ cause.notes, Graphic note := by
  cases cause with
  | undefinedVariable | missingElse | callDepthExceeded =>
      exact List.forall_mem_singleton.mpr (by decide)
  | _ => exact List.forall_mem_nil _

end Cause

namespace Reference

variable {program : Program} {limit? : Option Nat} {active : Nat} {names : Names}

theorem UnaryResult.graphic_message {op : UnaryOp} {value : Value} {cause : Cause}
    (refused : UnaryResult op value (.error cause)) : Graphic cause.message := by
  cases refused <;> exact Cause.graphic_typeMismatch (by decide) _ _

theorem ArithResult.graphic_message {op : ArithOp} {left right : Value} {cause : Cause}
    (refused : ArithResult op left right (.error cause)) : Graphic cause.message := by
  cases refused with
  | divisionByZero => decide
  | rightBoolean | leftBoolean =>
      exact Cause.graphic_typeMismatch (.quoted (.of_spells op.spells_symbol)) _ _

theorem Raises.graphic_message {expr : Expr} {cause : Cause} (writable : expr.Writable)
    (raises : Raises program limit? active names expr cause) : Graphic cause.message := by
  cases raises with
  | undefinedVariable => exact Cause.graphic_undefinedVariable writable
  | unary _ refused => exact refused.graphic_message
  | arith _ _ refused => exact refused.graphic_message
  | @decider _ op | @other _ op =>
      exact Cause.graphic_typeMismatch (.quoted (.of_spells op.spells_symbol)) _ _
  | ifThen | ifElse => exact Cause.graphic_typeMismatch (by decide) _ _
  | missingElse => decide
  | undefinedFunction => exact Cause.graphic_undefinedFunction writable.1
  | arityMismatch => exact Cause.graphic_arityMismatch writable.1 _ _
  | callDepthExceeded => exact Cause.graphic_callDepthExceeded _

end Reference

namespace Reference

section

variable {program : Program} {limit? : Option Nat} {active : Nat} {names : Names}

/-- The parts of a node that can be written can be written themselves. -/
theorem Enters.writable {expr part : Expr} {role : Role} (writable : expr.Writable)
    (enters : Enters program limit? active names expr role part) : part.Writable := by
  cases enters with
  | unary => exact writable.1
  | left => exact writable.1.1
  | right => exact writable.2.1
  | decider => exact writable.2.1
  | other => exact writable.1.1
  | ifThen => exact writable.1
  | ifElse => exact writable.1
  | thenBranch => exact writable.2.1
  | @eitherBranch _ _ _ _ holds =>
      cases holds with
      | true => exact writable.2.1.1
      | false => exact writable.2.2.1
  | argument =>
      exact (Expr.argsWritable_iff.mp writable.2 _ (by simp)).1

/-- The message of a trail is graphic and its calls have names. -/
structure Trail.Worded (trail : Trail) : Prop where
  message : Graphic trail.cause.message
  frames : ∀ frame ∈ trail.frames, IsName frame.name

end

section

variable {program : Program} {limit? : Option Nat} {names : Names} {trail : Trail}
  (functions : ∀ function ∈ program.functions, function.Writable)

include functions

theorem Fails.worded {active : Nat} {expr : Expr} (writable : expr.Writable)
    (fails : Fails program limit? active names expr trail) : trail.Worded := by
  induction fails with
  | raised raises => exact ⟨raises.graphic_message writable, List.forall_mem_nil _⟩
  | inside enters failed ih =>
      obtain ⟨message, frames⟩ := ih (enters.writable writable)
      exact ⟨message, by rwa [Trail.frames_through _ _ enters.role_ne_body]⟩
  | called declared arguments fit free failed ih =>
      obtain ⟨before, after, whole, _⟩ := declared
      obtain ⟨message, frames⟩ := ih (functions _ (by simp [whole])).body
      refine ⟨message, ?_⟩
      rw [Trail.frames_through_body]
      exact List.forall_mem_append.mpr ⟨frames, List.forall_mem_singleton.mpr writable.1⟩

theorem StmtFails.worded {stmt : Stmt} (writable : stmt.Writable)
    (fails : StmtFails program limit? names stmt trail) : trail.Worded := by
  cases fails with
  | value failed => exact failed.worded functions writable.2
  | condition tested failed =>
      cases stmt with
      | assign => cases tested
      | ifThen | ifElse | whileLoop => cases tested; exact failed.worded functions writable.1
  | mismatch tested evaluated =>
      refine ⟨Cause.graphic_typeMismatch ?_ _ _, List.forall_mem_nil _⟩
      cases stmt with
      | assign => cases tested
      | ifThen | ifElse | whileLoop => cases tested; decide

end

theorem Reaches.writable {program : Program} {limit? : Option Nat} {names final : Names}
    {stmts : List Stmt} {stmt : Stmt} (writable : StmtsWritable stmts)
    (reaches : Reaches program limit? names stmts final stmt) : stmt.Writable := by
  induction reaches with
  | here => exact writable.1
  | later _ _ ih => exact ih writable.2
  | ifThen _ _ ih | whileLoop _ _ ih => exact ih writable.1.2.stmts
  | @ifElse _ _ _ _ _ _ _ _ holds _ _ ih =>
      cases holds with
      | true => exact ih writable.1.2.1.stmts
      | false => exact ih writable.1.2.2.stmts
  | again _ _ _ ih => exact ih writable

theorem FailsAlong.worded {program : Program} {limit? : Option Nat} {trail : Trail}
    (writable : program.Writable) (fails : FailsAlong program limit? trail) : trail.Worded := by
  obtain ⟨names, stmt, reaches, failed⟩ := fails
  exact failed.worded writable.functions (reaches.writable writable.body.stmts)

end Reference

theorem Frame.graphic_numbered {frames : List Frame} (named : ∀ frame ∈ frames, IsName frame.name) :
    ∀ line ∈ numbered frames, Graphic line := by
  intro line member
  obtain ⟨⟨frame, number⟩, listed, rfl⟩ := List.mem_map.mp member
  have name := Graphic.of_spells (named frame (List.fst_mem_of_mem_zipIdx listed))
  exact .append (.append (.number _) (by decide)) (.append (.append name (by decide)) (.number _))

theorem Backtrace.escapeless_note {backtrace : Backtrace}
    (named : ∀ frame ∈ backtrace.frames, IsName frame.name) : Lacks '\x1b' backtrace.note := by
  have lines := Frame.graphic_numbered named
  refine .append (.append (by decide) (.join (List.forall_mem_map.mpr fun line shown => ?_))) ?_
  · exact .append (by decide) (lines line (List.mem_of_mem_take shown)).escapeless
  · split
    · exact .append (.append (by decide) (Graphic.number _).escapeless) (by decide)
    · decide

theorem Backtrace.escapeless_notes {backtrace : Backtrace}
    (named : ∀ frame ∈ backtrace.frames, IsName frame.name) :
    ∀ note ∈ backtrace.notes, Lacks '\x1b' note := by
  unfold notes
  split
  · exact List.forall_mem_nil _
  · exact List.forall_mem_singleton.mpr (escapeless_note named)

theorem Reference.Trail.Worded.escapeless_notes {trail : Trail} (worded : trail.Worded) :
    ∀ note ∈ (trail.error []).diagnostic.notes, Lacks '\x1b' note := by
  refine List.forall_mem_append.mpr ⟨?_, ?_⟩
  · exact fun note member => (trail.cause.graphic_notes note member).escapeless
  · change ∀ note ∈ ((trail.backtrace? []).map Backtrace.notes).getD [], Lacks '\x1b' note
    unfold Trail.backtrace?
    split
    · exact List.forall_mem_nil _
    · refine Backtrace.escapeless_notes ?_
      rw [List.append_nil]
      exact worded.frames

end Sipl
