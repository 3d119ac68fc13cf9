import Sipl.Proofs.Run.Declarations
import Sipl.Run.Machine

namespace Sipl

/-- The declarations of one name, in their order. -/
def declarationsOf (name : String) (functions : List Function) : List Function :=
  functions.filter (·.name == name)

/-- One list of declarations comes from another by moving and leaving out declarations that no call
can tell apart. -/
inductive Rearranges : List Function → List Function → Prop where
  /-- Declarations of different names change places; those of one name keep their order. -/
  | reorder {functions reordered : List Function} (permuted : reordered.Perm functions)
      (inOrder : ∀ name, declarationsOf name reordered = declarationsOf name functions) :
      Rearranges functions reordered
  /-- A declaration is left out that a later one of its name replaces. -/
  | drop {before after : List Function} {declared later : Function} (follows : later ∈ after)
      (sameName : later.name = declared.name) :
      Rearranges (before ++ declared :: after) (before ++ after)
  | trans {functions middle last : List Function} (first : Rearranges functions middle)
      (second : Rearranges middle last) : Rearranges functions last

theorem getLast?_declarationsOf_drop {before after : List Function} {declared later : Function}
    (follows : later ∈ after) (sameName : later.name = declared.name) (name : String) :
    (declarationsOf name (before ++ after)).getLast? =
      (declarationsOf name (before ++ declared :: after)).getLast? := by
  by_cases named : declared.name = name
  · have kept : later ∈ declarationsOf name after := by
      simp [declarationsOf, follows, sameName, named]
    have isLast := List.getLast?_eq_some_getLast (List.ne_nil_of_mem kept)
    have inserted : declarationsOf name (declared :: after) =
        declared :: declarationsOf name after := by
      simp [declarationsOf, named]
    have appended (others : List Function) : declarationsOf name (before ++ others) =
        declarationsOf name before ++ declarationsOf name others := List.filter_append ..
    rw [appended, appended, inserted, List.getLast?_append, List.getLast?_append,
      List.getLast?_cons, isLast]
    rfl
  · simp [declarationsOf, named]

/-- Rearranging keeps the last declaration of every name. -/
theorem Rearranges.getLast?_declarationsOf {functions rearranged : List Function}
    (rearranges : Rearranges functions rearranged) (name : String) :
    (declarationsOf name rearranged).getLast? = (declarationsOf name functions).getLast? := by
  induction rearranges with
  | reorder _ inOrder => rw [inOrder name]
  | drop follows sameName => exact getLast?_declarationsOf_drop follows sameName name
  | trans _ _ ihFirst ihSecond => rw [ihSecond, ihFirst]

namespace FunctionTable

/-- Both tables answer every name alike. -/
def Agrees (table other : FunctionTable) : Prop := ∀ name, table.get? name = other.get? name

theorem get?_ofProgram_eq_getLast? (program : Program) (name : String) :
    (ofProgram program).get? name = (declarationsOf name program.functions).getLast? := by
  rw [get?_ofProgram, declarationsOf, List.getLast?_eq_head?_reverse, ← List.filter_reverse,
    List.head?_filter]

theorem agrees_of_rearranges {program : Program} {functions : List Function}
    (rearranges : Rearranges program.functions functions) :
    (ofProgram { program with functions }).Agrees (ofProgram program) := by
  intro name
  rw [get?_ofProgram_eq_getLast?, get?_ofProgram_eq_getLast?]
  exact rearranges.getLast?_declarationsOf name

end FunctionTable

namespace Machine

variable {table other : FunctionTable}

theorem evalExpr_eq_of_agrees (agrees : table.Agrees other) (fuel : Nat) :
    evalExpr table fuel = evalExpr other fuel := by
  induction fuel with
  | zero => rfl
  | succ fuel ih =>
      funext expr machine
      cases expr with
      | call site callee args => simp only [evalExpr, agrees callee, ih]
      | literal | var | unary | arith | logical | ifThen | ifElse => simp only [evalExpr, ih]

theorem execStmt_eq_of_agrees (agrees : table.Agrees other) (fuel : Nat) :
    execStmt table fuel = execStmt other fuel := by
  induction fuel with
  | zero => rfl
  | succ fuel ih =>
      funext stmt machine
      have sameValues := evalExpr_eq_of_agrees agrees fuel
      cases stmt with
      | assign | ifThen | ifElse | whileLoop => simp only [execStmt, sameValues, ih]

theorem execProgram_eq_of_rearranges {program : Program} {functions : List Function}
    (rearranges : Rearranges program.functions functions) (fuel : Nat) (limit? : Option Nat) :
    execProgram fuel limit? { program with functions } = execProgram fuel limit? program := by
  have agrees := FunctionTable.agrees_of_rearranges rearranges
  rw [execProgram, execProgram, execStmt_eq_of_agrees agrees fuel]

end Machine

/-- A run gives the same answer, bindings or error, however the functions are arranged. -/
theorem declaration_order_is_immaterial {program : Program} {functions : List Function}
    (rearranges : Rearranges program.functions functions) (fuel : Nat) (limit? : Option Nat) :
    evaluate fuel limit? { program with functions } = evaluate fuel limit? program := by
  rw [evaluate, evaluate, Machine.execProgram_eq_of_rearranges rearranges]

/-- `func f() = 1; func g() = f(7); func f(a) = a` -/
def Redeclared.functions : List Function :=
  [⟨⟨1, ⟨8, 21⟩⟩, "f", [], .literal ⟨1, ⟨19, 20⟩⟩ (.int 1)⟩,
    ⟨⟨2, ⟨22, 38⟩⟩, "g", [], .call ⟨2, ⟨33, 37⟩⟩ "f" [.literal ⟨2, ⟨35, 36⟩⟩ (.int 7)]⟩,
    ⟨⟨3, ⟨39, 53⟩⟩, "f", [⟨"a", ⟨46, 47⟩⟩], .var ⟨3, ⟨51, 52⟩⟩ "a"⟩]

/-- The later declaration of `f`, then that of `g`. -/
def Redeclared.rearranged : List Function := (Redeclared.functions.drop 1).reverse

def Redeclared.program : Program :=
  ⟨Redeclared.functions,
    .mk ⟨54, 72⟩ [.assign ⟨4, ⟨60, 68⟩⟩ "x" (.call ⟨4, ⟨65, 68⟩⟩ "g" [])]⟩

theorem declaration_order_is_immaterial_of_redeclared :
    Rearranges Redeclared.program.functions Redeclared.rearranged ∧
      evaluate 5 none { Redeclared.program with functions := Redeclared.rearranged } =
        evaluate 5 none Redeclared.program := by
  have replaced : Rearranges Redeclared.functions (Redeclared.functions.drop 1) :=
    @Rearranges.drop [] _ _ _ (List.mem_cons_of_mem _ (List.mem_cons_self ..)) rfl
  have swapped : Rearranges (Redeclared.functions.drop 1) Redeclared.rearranged := by
    refine .reorder (List.reverse_perm _) fun name => ?_
    by_cases first : "f" = name
    · subst first
      rfl
    · by_cases second : "g" = name
      · subst second
        rfl
      · simp [declarationsOf, Redeclared.rearranged, Redeclared.functions, first, second]
  have rearranges := replaced.trans swapped
  exact ⟨rearranges, declaration_order_is_immaterial rearranges 5 none⟩

end Sipl
