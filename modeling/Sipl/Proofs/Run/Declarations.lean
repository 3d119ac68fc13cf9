import Sipl.Proofs.Run.Reference
import Sipl.Run.FunctionTable

namespace Sipl

open Reference

theorem Reference.LastDeclared.name_eq {program : Program} {name : String} {function : Function}
    (declared : LastDeclared program name function) : function.name = name := by
  obtain ⟨_, _, _, named, _⟩ := declared
  exact named

namespace FunctionTable

theorem find?_declare (functions : List Function) (declared : Function) (name : String) :
    (declare functions declared).find? (·.name == name) =
      if declared.name = name then some declared else functions.find? (·.name == name) := by
  induction functions with
  | nil =>
      by_cases same : declared.name = name
      · simp [declare, same]
      · simp [declare, same]
  | cons other rest ih =>
      rw [declare]
      split
      · next replaced =>
          by_cases same : declared.name = name
          · simp [same]
          · simp [same, replaced]
      · next kept =>
          by_cases found : other.name = name
          · have different : declared.name ≠ name := fun same => kept (found.trans same.symm)
            simp [found, different]
          · simp [found, ih]

theorem find?_foldl_declare (functions declared : List Function) (name : String) :
    (declared.foldl declare functions).find? (·.name == name) =
      (declared.reverse.find? (·.name == name)).or (functions.find? (·.name == name)) := by
  induction declared generalizing functions with
  | nil => rfl
  | cons first rest ih =>
      rw [List.foldl_cons, ih, find?_declare, List.reverse_cons, List.find?_append, Option.or_assoc]
      by_cases same : first.name = name
      · simp [same]
      · simp [same]

theorem get?_ofProgram (program : Program) (name : String) :
    (ofProgram program).get? name = program.functions.reverse.find? (·.name == name) := by
  rw [get?, ofProgram, find?_foldl_declare]
  simp

theorem get?_eq_some_iff {program : Program} {name : String} {function : Function} :
    (ofProgram program).get? name = some function ↔ LastDeclared program name function := by
  rw [get?_ofProgram, List.find?_eq_some_iff_append]
  constructor
  · rintro ⟨named, after, before, split, unlike⟩
    refine ⟨before.reverse, after.reverse, ?_, eq_of_beq named, ?_⟩
    · have whole := congrArg List.reverse split
      simpa using whole
    · intro other member
      simpa using unlike other (List.mem_reverse.mp member)
  · rintro ⟨before, after, split, named, unlike⟩
    refine ⟨beq_iff_eq.mpr named, after.reverse, before.reverse, by simp [split], ?_⟩
    intro other member
    simpa using unlike other (List.mem_reverse.mp member)

theorem get?_eq_none_iff {program : Program} {name : String} :
    (ofProgram program).get? name = none ↔ Undeclared program name := by
  rw [get?_ofProgram, List.find?_eq_none, Undeclared]
  simp

end FunctionTable

end Sipl
