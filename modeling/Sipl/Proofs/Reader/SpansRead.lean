import Sipl.Proofs.Reader.Yields

namespace Sipl

/-- What holds of the spans of a stream holds of the spans that are made from them. -/
structure Span.Closed (told : Span → Prop) : Prop where
  origin : told .origin
  merge : ∀ {left right : Span}, told left → told right → told (left.merge right)

/-- All tokens of the stream that a cursor stands in have spans as told. -/
def Cursor.Among (told : Span → Prop) (cursor : Cursor) : Prop :=
  ∀ token ∈ cursor.passed ++ cursor.upcoming, told token.site.span

namespace Cursor

variable {told : Span → Prop} {cursor : Cursor}

theorem among_start {tokens : List Token} (closed : Token.Closed tokens)
    (held : ∀ token ∈ tokens, told token.site.span) : (start tokens closed).Among told := by
  cases tokens with
  | nil => simp [Token.Closed] at closed
  | cons first others => exact held

theorem Among.here (among : cursor.Among told) : told cursor.span :=
  among _ (List.mem_append_right _ List.mem_cons_self)

theorem Among.previousSpan (closed : Span.Closed told) (among : cursor.Among told) :
    told cursor.previousSpan := by
  obtain ⟨passed, current, ahead, ended⟩ := cursor
  cases passed with
  | nil => exact closed.origin
  | cons last earlier => exact among last List.mem_cons_self

theorem Among.advance (among : cursor.Among told) : cursor.advance.Among told := by
  obtain ⟨passed, current, ahead, ended⟩ := cursor
  cases ahead with
  | nil => exact among
  | cons next ahead =>
      simp only [Cursor.advance]
      split
      · exact among
      · intro token member
        refine among token ?_
        simp only [upcoming, List.mem_append, List.mem_cons] at member ⊢
        exact or_left_comm.mp (or_assoc.mp member)

end Cursor

end Sipl
