import Sipl.Proofs.Run.Reference

namespace Sipl

open Reference

theorem UnaryOp.apply_eq_iff {op : UnaryOp} {value : Value} {result : Except Cause Value} :
    op.apply value = result ↔ UnaryResult op value result := by
  constructor
  · rintro rfl
    cases op <;> cases value <;> constructor
  · intro known
    cases known <;> rfl

namespace ArithOp

/-- The quotient is the one whose remainder is small and on the side of the dividend. -/
theorem tdiv_eq_iff {left right quotient : Int} (nonzero : right ≠ 0) :
    left.tdiv right = quotient ↔
      ∃ remainder, left = right * quotient + remainder ∧ remainder.natAbs < right.natAbs ∧
        0 ≤ left * remainder := by
  constructor
  · rintro rfl
    refine ⟨left.tmod right, (Int.mul_tdiv_add_tmod left right).symm, ?_, ?_⟩
    · rw [Int.natAbs_tmod]
      exact Nat.mod_lt _ (Int.natAbs_pos.mpr nonzero)
    · rcases Int.le_total 0 left with positive | negative
      · exact Int.mul_nonneg positive (Int.tmod_nonneg right positive)
      · have mirrored := Int.tmod_nonneg right (Int.neg_nonneg_of_nonpos negative)
        rw [Int.neg_tmod] at mirrored
        exact Int.mul_nonneg_of_nonpos_of_nonpos negative (Int.nonpos_of_neg_nonneg mirrored)
  · rintro ⟨remainder, exact, small, sided⟩
    have sides : (0 ≤ left ∧ 0 ≤ remainder) ∨ (left ≤ 0 ∧ remainder ≤ 0) := by
      rcases Int.lt_trichotomy left 0 with below | rfl | above
      · exact .inr ⟨Int.le_of_lt below, Int.nonpos_of_mul_nonneg_right sided below⟩
      · rcases Int.le_total 0 remainder with positive | negative
        · exact .inl ⟨Int.le_refl 0, positive⟩
        · exact .inr ⟨Int.le_refl 0, negative⟩
      · exact .inl ⟨Int.le_of_lt above, Int.nonneg_of_mul_nonneg_right sided above⟩
    rcases sides with ⟨positive, above⟩ | ⟨negative, below⟩
    · exact ((Int.tdiv_tmod_unique positive nonzero).mpr ⟨by omega, above, by omega⟩).1
    · exact ((Int.tdiv_tmod_unique' negative nonzero).mpr ⟨by omega, by omega, below⟩).1

theorem compute_notEq (left right : Int) :
    notEq.compute left right = .bool (decide (left ≠ right)) := by
  rw [compute, bne, decide_not]
  rfl

theorem computes_iff {op : ArithOp} {left right : Int} {value : Value} :
    Computes op left right value ↔ (op = .div → right ≠ 0) ∧ op.compute left right = value := by
  constructor
  · intro computes
    cases computes with
    | div exact small sided =>
        have nonzero : right ≠ 0 := by omega
        have quotient := (tdiv_eq_iff nonzero).mpr ⟨_, exact, small, sided⟩
        exact ⟨fun _ => nonzero, by rw [compute, quotient]⟩
    | notEq => exact ⟨nofun, compute_notEq left right⟩
    | _ => exact ⟨nofun, rfl⟩
  · rintro ⟨nonzero, rfl⟩
    cases op with
    | div =>
        obtain ⟨remainder, exact, small, sided⟩ := (tdiv_eq_iff (nonzero rfl)).mp rfl
        exact .div exact small sided
    | notEq =>
        rw [compute_notEq]
        exact .notEq
    | _ => constructor

theorem apply_eq_iff {op : ArithOp} {left right : Value} {result : Except Cause Value} :
    op.apply left right = result ↔ ArithResult op left right result := by
  constructor
  · rintro rfl
    unfold apply
    by_cases zero : op = .div ∧ right = .int 0
    · rw [if_pos zero]
      obtain ⟨rfl, rfl⟩ := zero
      exact .divisionByZero
    · rw [if_neg zero]
      cases left with
      | bool left => exact .leftBoolean zero
      | int left =>
          cases right with
          | bool right => exact .rightBoolean
          | int right =>
              have nonzero : op = .div → right ≠ 0 := fun same none => zero ⟨same, by rw [none]⟩
              exact .integers (computes_iff.mpr ⟨nonzero, rfl⟩)
  · intro known
    cases known with
    | divisionByZero => rfl
    | integers computes =>
        obtain ⟨nonzero, rfl⟩ := computes_iff.mp computes
        rw [apply, if_neg]
        rintro ⟨same, zero⟩
        exact nonzero same (Value.int.inj zero)
    | rightBoolean => simp [apply, Value.type]
    | leftBoolean other => simp only [apply, if_neg other, Value.type]

end ArithOp

end Sipl
