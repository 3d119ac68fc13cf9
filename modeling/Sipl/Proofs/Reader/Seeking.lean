import Mathlib.Order.Bounds.Defs
import Sipl.Proofs.Reader.Acceptance
import Sipl.Proofs.Reader.Passes

namespace Sipl

namespace KindSet

theorem contains_foldl_insert (kinds : List Kind) (set : KindSet) (kind : Kind) :
    (kinds.foldl insert set).contains kind = true ↔ kind ∈ kinds ∨ set.contains kind = true := by
  induction kinds generalizing set with
  | nil => simp
  | cons added others ih =>
      rw [List.foldl_cons, ih, contains_insert, Bool.or_eq_true, decide_eq_true_eq,
        List.mem_cons, or_left_comm, or_assoc, eq_comm]

/-- A set holds the kinds it is built from. -/
theorem contains_ofList (kinds : List Kind) (kind : Kind) :
    (ofList kinds).contains kind = true ↔ kind ∈ kinds := by
  rw [ofList, contains_foldl_insert, contains_empty]
  simp

/-- The word in which only the bit of the kind is set. -/
def wordOf (kind : Kind) : BitVec 128 := 1#128 <<< kind.index

/-- The word in which the bits of the kinds are set one after the other. -/
def word (kinds : List Kind) : BitVec 128 :=
  kinds.foldl (fun word kind => word ||| wordOf kind) 0#128

theorem index_lt_width (kind : Kind) : kind.index < 128 :=
  Nat.lt_trans kind.index_lt (by decide)

theorem toNat_wordOf (kind : Kind) : (wordOf kind).toNat = 1 <<< kind.index := by
  rw [wordOf, ← BitVec.twoPow_eq, BitVec.toNat_twoPow_of_lt (index_lt_width kind),
    Nat.one_shiftLeft]

/-- No kind is lost in a word. -/
theorem bits_ofList (kinds : List Kind) : (ofList kinds).bits = (word kinds).toNat := by
  suffices step : ∀ (set : KindSet) (mask : BitVec 128), set.bits = mask.toNat →
      (kinds.foldl insert set).bits =
        (kinds.foldl (fun word kind => word ||| wordOf kind) mask).toNat from step _ _ rfl
  induction kinds with
  | nil => exact fun _ _ same => same
  | cons added others ih =>
      intro set mask same
      refine ih _ _ ?_
      rw [insert, same, BitVec.toNat_or, toNat_wordOf]

/-- Masking a word with that of a kind leaves the bit of the kind. -/
theorem masked_ne_zero (mask : BitVec 128) (kind : Kind) :
    (mask &&& wordOf kind != 0#128) = mask.getLsbD kind.index := by
  have single : BitVec.twoPow 128 kind.index ≠ 0#128 := by
    intro zero
    have bit := congrArg (BitVec.getLsbD · kind.index) zero
    simp [index_lt_width kind] at bit
  rw [wordOf, ← BitVec.twoPow_eq, BitVec.and_twoPow]
  cases held : mask.getLsbD kind.index <;> simp [single]

theorem contains_eq_masked (kinds : List Kind) (kind : Kind) :
    (ofList kinds).contains kind = (word kinds &&& wordOf kind != 0#128) := by
  rw [masked_ne_zero, contains, bits_ofList, BitVec.getLsbD]

end KindSet

namespace Cursor

variable {start stop cursor : Cursor} {tokens : List Token}

/-- All tokens of the stream that the cursor is at. -/
def stream (cursor : Cursor) : List Token := cursor.passed.reverse ++ cursor.upcoming

theorem stream_start (closed : Token.Closed tokens) :
    (Cursor.start tokens closed).stream = tokens := by
  have nothing : (Cursor.start tokens closed).passed = [] := by
    cases tokens with
    | nil => simp [Token.Closed] at closed
    | cons => rfl
  rw [stream, nothing, Parsed.upcoming_start]
  rfl

/-- The tokens at the position of a cursor and behind it are those that come up. -/
theorem getElem?_stream (cursor : Cursor) (distance : Nat) :
    cursor.stream[cursor.position + distance]? = cursor.upcoming[distance]? := by
  rw [stream, position, List.getElem?_append_right (by simp)]
  simp

theorem Passes.stream_eq (passes : start.Passes tokens stop) : stop.stream = start.stream := by
  simp [stream, passes.passed, passes.upcoming]

/-- The cursors that operations on a cursor lead to. -/
inductive Reached (first : Cursor) : Cursor → Prop where
  | start : Reached first first
  | advance {cursor : Cursor} (before : Reached first cursor) : Reached first cursor.advance
  | eat {cursor : Cursor} (kind : Kind) (before : Reached first cursor) :
      Reached first (cursor.eat kind)
  | expect {cursor : Cursor} (kind : Kind) (message : String) (before : Reached first cursor) :
      Reached first (cursor.expect kind message).stop
  | expectName {cursor : Cursor} (message : String) (before : Reached first cursor) :
      Reached first (cursor.expectName message).stop
  | seek {cursor : Cursor} (set : KindSet) (before : Reached first cursor) :
      Reached first (cursor.seek set).2

/-- A token of the set was met where the search did not stop before an end marker. -/
theorem seek_fst (set : KindSet) (cursor : Cursor) :
    (cursor.seek set).1 = true ↔ (cursor.skipTo set).kind ≠ .eof := by
  fun_induction skipTo set cursor with
  | case1 cursor ended => simp [seek, ended]
  | case2 cursor inside listed => simp [seek, inside, listed]
  | case3 cursor inside other ih => rw [seek, dif_neg inside, if_neg other, ih]

/-- Where a search stopped, the same search stays. -/
theorem seek_skipTo (set : KindSet) (cursor : Cursor) :
    (cursor.skipTo set).seek set = cursor.seek set := by
  fun_induction skipTo set cursor with
  | case1 | case2 => rfl
  | case3 cursor inside other ih =>
      rw [ih, seek.eq_def set cursor, dif_neg inside, if_neg other]

theorem passes_advance (cursor : Cursor) : ∃ taken, cursor.Passes taken cursor.advance := by
  by_cases ended : cursor.kind = .eof
  · refine ⟨[], ?_⟩
    rw [advance_of_eof ended]
    exact .refl cursor
  · exact ⟨[cursor.current], .advance ended⟩

theorem passes_eat (cursor : Cursor) (kind : Kind) :
    ∃ taken, cursor.Passes taken (cursor.eat kind) := by
  unfold eat
  split
  · exact cursor.passes_advance
  · exact ⟨[], .refl cursor⟩

theorem stop_expect (cursor : Cursor) (kind : Kind) (message : String) :
    (cursor.expect kind message).stop = cursor.eat kind := by
  unfold expect Keeper.expect eat
  split <;> rfl

theorem stop_expectName (cursor : Cursor) (message : String) :
    (cursor.expectName message).stop = cursor.eat .ident := by
  unfold expectName Keeper.expectName eat
  split <;> rfl

/-- Whatever leads to a cursor passes the tokens up to it. -/
theorem Reached.passes (reached : Reached start cursor) : ∃ taken, start.Passes taken cursor := by
  have onwards {later stop : Cursor} (before : ∃ taken, start.Passes taken later)
      (more : ∃ taken, later.Passes taken stop) : ∃ taken, start.Passes taken stop := by
    obtain ⟨front, first⟩ := before
    obtain ⟨back, second⟩ := more
    exact ⟨front ++ back, first.trans second⟩
  induction reached with
  | start => exact ⟨[], .refl start⟩
  | advance _ ih => exact onwards ih (passes_advance _)
  | eat kind _ ih => exact onwards ih (passes_eat _ kind)
  | expect kind message _ ih => exact onwards ih (stop_expect _ kind message ▸ passes_eat _ kind)
  | expectName message _ ih => exact onwards ih (stop_expectName _ message ▸ passes_eat _ .ident)
  | seek set _ ih =>
      obtain ⟨skipped, skips⟩ := exists_skips set _
      exact onwards ih ⟨skipped, seek_snd set _ ▸ skips.passes⟩

theorem Reached.stream_eq (closed : Token.Closed tokens)
    (reached : Reached (.start tokens closed) cursor) : cursor.stream = tokens := by
  obtain ⟨_, passes⟩ := reached.passes
  exact passes.stream_eq.trans (stream_start closed)

/-- The places of a stream, from one on, where a search for the kinds has to stop. -/
def stopsFrom (tokens : List Token) (kinds : List Kind) (first : Nat) : Set Nat :=
  {place | first ≤ place ∧ ∃ token, tokens[place]? = some token ∧
    (token.kind = .eof ∨ token.kind ∈ kinds)}

theorem Skips.isLeast {kinds : List Kind} {skipped : List Token}
    (skips : Skips (.ofList kinds) start skipped stop) :
    IsLeast (stopsFrom start.stream kinds start.position) stop.position := by
  have behind := skips.passes.position_eq
  constructor
  · refine ⟨by omega, stop.current, ?_, ?_⟩
    · rw [← skips.passes.stream_eq]
      exact stop.getElem?_stream 0
    · exact skips.stops.imp_right (KindSet.contains_ofList kinds stop.kind).mp
  · rintro place ⟨onwards, token, found, wanted⟩
    -- A place in front of the stop is that of a token that was skipped.
    obtain ⟨distance, rfl⟩ := Nat.exists_eq_add_of_le onwards
    rw [start.getElem?_stream, skips.passes.upcoming] at found
    rcases Nat.lt_or_ge distance skipped.length with within | beyond
    · rw [List.getElem?_append_left within] at found
      have member := List.mem_of_getElem? found
      rcases wanted with ended | listed
      · exact absurd ended (skips.passes.inside token member)
      · have other := skips.others token member
        rw [(KindSet.contains_ofList kinds token.kind).mpr listed] at other
        cases other
    · omega

/-- From any cursor that a closed stream can be at, a search stops before the next token that ends
the stream or is of one of the kinds, tells whether it is no end marker, and would stay there.  What
the reader skips is the same.  The kinds are kept in a word of 128 bits. -/
theorem seek_stops_at_next (closed : Token.Closed tokens)
    (reached : Reached (.start tokens closed) cursor) (kinds : List Kind) :
    ∃ found stop, cursor.seek (.ofList kinds) = (found, stop) ∧
      IsLeast (stopsFrom tokens kinds cursor.position) stop.position ∧
      tokens[stop.position]? = some stop.current ∧
      (found = true ↔ stop.kind ≠ .eof) ∧
      stop.seek (.ofList kinds) = (found, stop) ∧
      cursor.skipTo (.ofList kinds) = stop ∧
      (KindSet.ofList kinds).bits = (KindSet.word kinds).toNat ∧
      ∀ kind, (KindSet.ofList kinds).contains kind =
        (KindSet.word kinds &&& KindSet.wordOf kind != 0#128) := by
  obtain ⟨skipped, skips⟩ := exists_skips (.ofList kinds) cursor
  have whole := reached.stream_eq closed
  refine ⟨_, cursor.skipTo (.ofList kinds), Prod.ext rfl (seek_snd _ _), ?_, ?_,
    seek_fst _ _, (seek_skipTo _ _).trans (Prod.ext rfl (seek_snd _ _)), rfl,
    KindSet.bits_ofList kinds, KindSet.contains_eq_masked kinds⟩
  · rw [← whole]
    exact skips.isLeast
  · rw [← whole, ← skips.passes.stream_eq]
    exact getElem?_stream _ 0

/-- The tokens of `x 1 ; y`. -/
def sparseTokens : List Token :=
  [⟨.ident, "x", ⟨1, ⟨0, 1⟩⟩, none⟩, ⟨.number, "1", ⟨1, ⟨2, 3⟩⟩, some (.int 1)⟩,
    ⟨.semicolon, ";", ⟨1, ⟨4, 5⟩⟩, none⟩, ⟨.ident, "y", ⟨1, ⟨6, 7⟩⟩, none⟩,
    ⟨.eof, "", ⟨1, ⟨7, 7⟩⟩, none⟩]

/-- Behind the semicolon. -/
def sparseCursor : Cursor :=
  (((Cursor.start sparseTokens (by decide)).eat .ident).skipTo (.ofList [.semicolon])).advance

theorem seek_stops_at_next_of_sparseTokens :
    Reached (.start sparseTokens (by decide)) sparseCursor ∧ sparseCursor.position = 3 ∧
      IsLeast (stopsFrom sparseTokens [.comma, .eof] 3) 4 ∧
      (sparseCursor.seek (.ofList [.comma, .eof])).1 = false := by
  have reached : Reached (.start sparseTokens (by decide)) sparseCursor := by
    rw [sparseCursor, ← seek_snd]
    exact ((Reached.start.eat .ident).seek (.ofList [.semicolon])).advance
  have here : sparseCursor.position = 3 := by cbv
  have there : (sparseCursor.skipTo (.ofList [.comma, .eof])).position = 4 := by cbv
  have ended : (sparseCursor.skipTo (.ofList [.comma, .eof])).kind = .eof := by cbv
  obtain ⟨found, _, sought, least, -, answer, -, rfl, -⟩ :=
    seek_stops_at_next (by decide) reached [.comma, .eof]
  rw [here, there] at least
  rw [sought]
  exact ⟨reached, here, least, Bool.eq_false_iff.mpr fun met => answer.mp met ended⟩

end Cursor

end Sipl
