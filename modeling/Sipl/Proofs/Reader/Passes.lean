import Sipl.Proofs.Reader.Declares

namespace Sipl

namespace Cursor

/-- The tokens are taken between two cursors. -/
structure Passes (start : Cursor) (tokens : List Token) (stop : Cursor) : Prop where
  upcoming : start.upcoming = tokens ++ stop.upcoming
  passed : stop.passed = tokens.reverse ++ start.passed
  inside : ∀ token ∈ tokens, token.kind ≠ .eof

namespace Passes

variable {start later stop : Cursor} {front back : List Token}

theorem refl (cursor : Cursor) : cursor.Passes [] cursor := ⟨rfl, rfl, List.forall_mem_nil _⟩

theorem advance {cursor : Cursor} (inside : cursor.kind ≠ .eof) :
    cursor.Passes [cursor.current] cursor.advance := by
  refine ⟨upcoming_eq_cons inside, ?_, List.forall_mem_singleton.mpr inside⟩
  have more := ahead_ne_nil inside
  obtain ⟨passed, current, ahead, closed⟩ := cursor
  cases ahead with
  | nil => exact absurd rfl more
  | cons next ahead => simp [Cursor.advance, show current.kind ≠ .eof from inside]

theorem trans (first : start.Passes front later) (second : later.Passes back stop) :
    start.Passes (front ++ back) stop where
  upcoming := by rw [first.upcoming, second.upcoming, List.append_assoc]
  passed := by rw [second.passed, first.passed, List.reverse_append, List.append_assoc]
  inside := List.forall_mem_append.mpr ⟨first.inside, second.inside⟩

/-- Past one token, and then past others. -/
theorem cons {cursor : Cursor} (inside : cursor.kind ≠ .eof)
    (rest : cursor.advance.Passes back stop) : cursor.Passes (cursor.current :: back) stop :=
  (advance inside).trans rest

theorem concat (first : start.Passes front later) (inside : later.kind ≠ .eof) :
    start.Passes (front ++ [later.current]) later.advance :=
  first.trans (advance inside)

/-- Past some tokens, one more, and then others. -/
theorem around (first : start.Passes front later) (inside : later.kind ≠ .eof)
    (rest : later.advance.Passes back stop) :
    start.Passes (front ++ later.current :: back) stop :=
  first.trans (cons inside rest)

theorem previousSpan {last : Token} (passes : start.Passes (front ++ [last]) stop) :
    stop.previousSpan = last.site.span := by
  simp [Cursor.previousSpan, passes.passed]

theorem position_eq (passes : start.Passes front stop) :
    stop.position = start.position + front.length := by
  simp [position, passes.passed, Nat.add_comm]

end Passes

/-- A search skips tokens of other kinds and stops before one of the set or before an end marker. -/
structure Skips (set : KindSet) (start : Cursor) (skipped : List Token) (stop : Cursor) : Prop where
  passes : start.Passes skipped stop
  others : ∀ token ∈ skipped, set.contains token.kind = false
  stops : stop.kind = .eof ∨ set.contains stop.kind = true

theorem exists_skips (set : KindSet) (cursor : Cursor) :
    ∃ skipped, Skips set cursor skipped (cursor.skipTo set) := by
  fun_induction skipTo set cursor with
  | case1 cursor ended => exact ⟨[], .refl cursor, List.forall_mem_nil _, .inl ended⟩
  | case2 cursor _ listed => exact ⟨[], .refl cursor, List.forall_mem_nil _, .inr listed⟩
  | case3 cursor inside other ih =>
      obtain ⟨skipped, rest⟩ := ih
      exact ⟨cursor.current :: skipped, .cons inside rest.passes,
        List.forall_mem_cons.mpr ⟨Bool.eq_false_iff.mpr other, rest.others⟩, rest.stops⟩

end Cursor

end Sipl
