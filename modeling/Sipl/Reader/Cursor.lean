import Sipl.Reader.SyntaxError
import Sipl.Token.KindSet
import Sipl.Token.Scan

namespace Sipl

/-! A cursor is a place in a token stream that is closed by an end marker.  It moves forward one
token at a time and never past an end marker, so the tokens ahead measure the work that is left. -/

structure Cursor where
  /-- The tokens already taken, the latest one first. -/
  passed : List Token
  current : Token
  ahead : List Token
  closed : Token.Closed (current :: ahead)

namespace Cursor

/-- The first place of a closed stream. -/
def start (tokens : List Token) (closed : Token.Closed tokens) : Cursor :=
  match tokens, closed with
  | current :: ahead, closed => ⟨[], current, ahead, closed⟩
  | [], closed => absurd closed (by simp [Token.Closed])

def kind (cursor : Cursor) : Kind := cursor.current.kind

def span (cursor : Cursor) : Span := cursor.current.site.span

/-- How many tokens have been taken. -/
def position (cursor : Cursor) : Nat := cursor.passed.length

/-- How many tokens stand behind the current one. -/
def remaining (cursor : Cursor) : Nat := cursor.ahead.length

def atEnd (cursor : Cursor) : Bool := cursor.kind == .eof

/-- The kind of the token behind the current one; past the stream there are only ends. -/
def nextKind (cursor : Cursor) : Kind := (cursor.ahead.head?.map Token.kind).getD .eof

/-- The span of the token taken last. -/
def previousSpan (cursor : Cursor) : Span :=
  (cursor.passed.head?.map fun token => token.site.span).getD .origin

/-- Take the current token.  An end marker is never taken. -/
def advance (cursor : Cursor) : Cursor :=
  match cursor with
  | ⟨passed, current, next :: ahead, closed⟩ =>
    if current.kind = .eof then cursor
    else ⟨current :: passed, next, ahead, by simpa [Token.Closed] using closed⟩
  | ⟨_, _, [], _⟩ => cursor

theorem advance_of_eof {cursor : Cursor} (ended : cursor.kind = .eof) :
    cursor.advance = cursor := by
  obtain ⟨passed, current, ahead, closed⟩ := cursor
  cases ahead with
  | nil => rfl
  | cons next ahead => simp only [advance, if_pos (show current.kind = .eof from ended)]

theorem ahead_ne_nil {cursor : Cursor} (inside : cursor.kind ≠ .eof) : cursor.ahead ≠ [] := by
  intro nothing
  have closed := cursor.closed
  rw [nothing] at closed
  exact inside (by simpa [Token.Closed, kind] using closed)

theorem remaining_advance_le (cursor : Cursor) : cursor.advance.remaining ≤ cursor.remaining := by
  unfold advance
  split
  · split <;> simp [remaining]
  · exact Nat.le_refl _

theorem remaining_advance_lt {cursor : Cursor} (inside : cursor.kind ≠ .eof) :
    cursor.advance.remaining < cursor.remaining := by
  have more := ahead_ne_nil inside
  unfold advance
  split
  · next current next ahead closed =>
      split
      · next atEnd => exact absurd atEnd inside
      · simp [remaining]
  · exact absurd rfl more

theorem kind_advance {cursor : Cursor} (inside : cursor.kind ≠ .eof) :
    cursor.advance.kind = cursor.nextKind := by
  have more := ahead_ne_nil inside
  obtain ⟨passed, current, ahead, closed⟩ := cursor
  cases ahead with
  | nil => exact absurd rfl more
  | cons next ahead => simp [Cursor.advance, nextKind, kind, show current.kind ≠ .eof from inside]

/-- Take the current token if it has the kind. -/
def eat (cursor : Cursor) (kind : Kind) : Cursor :=
  if cursor.kind = kind then cursor.advance else cursor

/-- A fault met at the current token. -/
def errorHere (cursor : Cursor) (fault : SyntaxFault) (message : String) : SyntaxError :=
  ⟨fault, message, cursor.current⟩

/-- Skip tokens up to the next one whose kind is in the set, or to the end marker. -/
def skipTo (set : KindSet) (cursor : Cursor) : Cursor :=
  if _ : cursor.kind = .eof then cursor
  else if set.contains cursor.kind then cursor
  else skipTo set cursor.advance
termination_by cursor.remaining
decreasing_by exact remaining_advance_lt ‹_›

/-- Skip like `skipTo`, and tell whether a token of the set was met before an end marker.  An end
marker is never met, even if it is in the set. -/
def seek (set : KindSet) (cursor : Cursor) : Bool × Cursor :=
  if _ : cursor.kind = .eof then (false, cursor)
  else if set.contains cursor.kind then (true, cursor)
  else seek set cursor.advance
termination_by cursor.remaining
decreasing_by exact remaining_advance_lt ‹_›

@[simp] theorem seek_snd (set : KindSet) (cursor : Cursor) :
    (cursor.seek set).2 = cursor.skipTo set := by
  fun_induction skipTo set cursor with
  | case1 cursor ended => rw [seek, dif_pos ended]
  | case2 cursor inside listed => rw [seek, dif_neg inside, if_pos listed]
  | case3 cursor inside other ih => rw [seek, dif_neg inside, if_neg other, ih]

end Cursor

namespace Scan

theorem closed_prepend {offset line : Nat} {piece : Piece} {later : Scan}
    (closed : Token.Closed later.tokens) :
    Token.Closed (prepend offset line piece later).tokens := by
  unfold prepend
  split
  · exact closed
  · unfold Token.Closed at closed ⊢
    cases tokens : later.tokens with
    | nil => simp [tokens] at closed
    | cons head tail => simpa [tokens] using closed
  · exact closed

theorem closed_scanFrom (offset line : Nat) (text : List Char) :
    Token.Closed (scanFrom offset line text).tokens := by
  fun_induction scanFrom offset line text with
  | case1 => simp [Token.Closed, tokenAt]
  | case2 _ _ _ _ _ ih => exact closed_prepend ih

end Scan

/-- What `scan` returns can be read to its end. -/
theorem closed_scan (source : String) : Token.Closed (scan source).tokens :=
  Scan.closed_scanFrom 0 1 source.toList

end Sipl
