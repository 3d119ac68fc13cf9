import Mathlib.Data.List.Basic
import Sipl.Proofs.Reader.Acceptance
import Sipl.Proofs.Reader.Tried

namespace Sipl

open Grammar

namespace Parsed

/-- The tokens in front of this place are the beginning of a program, and with the token at the
place they are not. -/
def Misfit (tokens : List Token) (i : Nat) : Prop :=
  i < tokens.length ∧ Begins (.rule .program) ((tokens.take i).map Token.kind) ∧
    ¬ Begins (.rule .program) ((tokens.take (i + 1)).map Token.kind)

theorem begins_of_append {form : Form} {kinds others : List Kind}
    (begins : Begins form (kinds ++ others)) : Begins form kinds := by
  obtain ⟨rest, derives⟩ := begins
  exact ⟨others ++ rest, by rwa [← List.append_assoc]⟩

theorem begins_of_take {form : Form} {tokens : List Token} {i j : Nat} (bound : i ≤ j)
    (begins : Begins form ((tokens.take j).map Token.kind)) :
    Begins form ((tokens.take i).map Token.kind) := by
  have front : (tokens.take j).take i = tokens.take i := by
    rw [List.take_take, Nat.min_eq_left bound]
  rw [← List.take_append_drop i (tokens.take j), front, List.map_append] at begins
  exact begins_of_append begins

/-- No other token is the first that does not fit. -/
theorem Misfit.unique {tokens : List Token} {i j : Nat} (misfit : Misfit tokens i)
    (other : Misfit tokens j) : j = i := by
  obtain ⟨_, viable, unfit⟩ := misfit
  obtain ⟨_, viableOther, unfitOther⟩ := other
  rcases Nat.lt_trichotomy i j with less | same | more
  · exact absurd (begins_of_take less viableOther) unfit
  · exact same.symm
  · exact absurd (begins_of_take more viable) unfitOther

/-- A sentence in front of the end marker is read without an error. -/
theorem errors_eq_nil_of_derives {tokens : List Token} (closed : Token.Closed tokens)
    (numbered : (Cursor.start tokens closed).Numbered)
    (derives : Derives (.rule .program) (tokens.dropLast.map Token.kind)) :
    (ofTokens tokens closed).errors = [] := by
  have follows := (derives_dropLast_iff closed .program).mp derives
  rw [← upcoming_start closed] at follows
  obtain ⟨listed, rest⟩ :=
    (Cursor.follows_token (by decide)).mp (Follows.seq_iff.mp (Follows.rule_iff.mp follows))
  have word := List.mem_singleton.mp listed
  have main : ∀ tokens, Follows (.rule .block) AtEnd tokens → StartsIn [.beginWord] tokens :=
    fun tokens follows => (Follows.seq_iff.mp (Follows.rule_iff.mp follows)).startsIn_token
  obtain ⟨found, later, declares, numberedLater, rest⟩ :=
    Reader.isDeclared_functions (numbered.advance (by simp [word])) main (Follows.seq_iff.mp rest)
  obtain ⟨body, stop, builds, _, mark, left, ended⟩ := Reader.isBuilt_block numberedLater rest
  have marked : stop.current = mark := (List.cons.inj left).1
  have atEnd : stop.kind = .eof := by rw [Cursor.kind, marked, ended]
  exact errors_ofCursor_eq_nil_iff.mpr ⟨word, found, later, declares, body, stop, builds, atEnd⟩

/-- A token of a kind.  It has a value in case it is a number. -/
def tokenOf (kind : Kind) : Token := ⟨kind, "", ⟨1, .origin⟩, some (.int 0)⟩

/-- The stream that starts with some tokens and goes on with tokens of the kinds. -/
def extended (front : List Token) (kinds : List Kind) : List Token :=
  front ++ kinds.map tokenOf ++ [tokenOf .eof]

variable {front : List Token} {kinds : List Kind}

theorem closed_extended : Token.Closed (extended front kinds) := by
  simp [Token.Closed, extended, tokenOf]

theorem numbered_extended
    (known : ∀ token ∈ front, token.kind = .number → ∃ value, token.literal? = some (.int value)) :
    (Cursor.start (extended front kinds) closed_extended).Numbered := by
  intro token member
  rw [upcoming_start, extended, List.append_assoc, List.mem_append] at member
  rcases member with member | member
  · exact known token member
  · have made : token ∈ (kinds ++ [Kind.eof]).map tokenOf := by rwa [List.map_append]
    obtain ⟨kind, _, rfl⟩ := List.mem_map.mp made
    exact fun _ => ⟨0, rfl⟩

theorem errors_extended
    (known : ∀ token ∈ front, token.kind = .number → ∃ value, token.literal? = some (.int value))
    (derives : Derives (.rule .program) (front.map Token.kind ++ kinds)) :
    (ofTokens (extended front kinds) closed_extended).errors = [] := by
  have sentence : ((extended front kinds).dropLast).map Token.kind =
      front.map Token.kind ++ kinds := by
    have same : Token.kind ∘ tokenOf = id := rfl
    rw [extended, List.dropLast_concat, List.map_append, List.map_map, same, List.map_id]
  exact errors_eq_nil_of_derives closed_extended (numbered_extended known) (sentence ▸ derives)

/-- What was passed before a program got stuck is the beginning of one. -/
theorem begins_of_stuck {tokens left : List Token} (tries : Tries whole tokens .stuck left) :
    ∃ front, tokens = front ++ left ∧ Begins (.rule .program) (front.map Token.kind) := by
  cases tries with
  | seqStuck head => exact head.passed rfl
  | seq head tail =>
      cases tail with
      | wrong =>
          obtain ⟨front, whole, derives⟩ := head.passed rfl
          exact ⟨front, whole, [], by rwa [List.append_nil]⟩

/-- With the token at which a program got stuck, what was passed is no beginning of one. -/
theorem not_begins_of_stuck {token : Token} {rest : List Token}
    (known : ∀ one ∈ front ++ [token], one.kind = .number →
      ∃ value, one.literal? = some (.int value))
    (tries : Tries whole (front ++ token :: rest) .stuck (token :: rest)) :
    ¬ Begins (.rule .program) ((front ++ [token]).map Token.kind) := by
  rintro ⟨kinds, derives⟩
  have clean := errors_extended known derives
  -- Tokens behind the one in question are not looked at, so the sentence would be stuck there too.
  obtain ⟨inner, same, again⟩ :=
    tries.replace (kinds.map tokenOf ++ [tokenOf .eof]) (List.nil_append _).symm
  obtain rfl := List.append_cancel_right same
  have tokens : front ++ token :: (kinds.map tokenOf ++ [tokenOf .eof]) =
      extended (front ++ [token]) kinds := by simp [extended]
  rcases tries_whole (Cursor.start (extended (front ++ [token]) kinds) closed_extended)
    (numbered_extended known) with ⟨_, left, through⟩ | ⟨_, _, _, reported, _⟩
  · rw [upcoming_start, ← tokens] at through
    cases (again.unique through).1
  · rw [ofTokens, reported] at clean
    cases clean

/-- The first error of a stream, whose only end marker closes it and whose numbers have values, is
at the only token that is the first not to fit.  If that is the end marker, more tokens are needed
to complete a program. -/
theorem first_error_at_misfit (tokens : List Token) (closed : Token.Closed tokens)
    (single : ∀ token ∈ tokens.dropLast, token.kind ≠ .eof)
    (numbered : ∀ token ∈ tokens, token.kind = .number →
      ∃ value, token.literal? = some (.int value))
    {error : SyntaxError} {others : List SyntaxError}
    (reported : (ofTokens tokens closed).errors = error :: others) :
    ∃ i, tokens[i]? = some error.token ∧ Misfit tokens i ∧ (∀ j, Misfit tokens j → j = i) ∧
      (error.token.kind = .eof →
        ¬ Derives (.rule .program) (tokens.dropLast.map Token.kind) ∧
          ∃ rest, rest ≠ [] ∧
            Derives (.rule .program) (tokens.dropLast.map Token.kind ++ rest)) := by
  have start : (Cursor.start tokens closed).Numbered := by
    intro token member
    exact numbered token (upcoming_start closed ▸ member)
  have dirty : (ofTokens tokens closed).errors ≠ [] := by simp [reported]
  rcases tries_whole _ start with ⟨clean, _⟩ | ⟨first, more, left, met, tries, here⟩
  · exact absurd clean dirty
  obtain ⟨rfl, rfl⟩ := List.cons.inj (reported.symm.trans met)
  obtain ⟨rest, rfl⟩ := List.head?_eq_some_iff.mp here
  rw [upcoming_start] at tries
  obtain ⟨front, rfl, begins⟩ := begins_of_stuck tries
  have regrouped : front ++ error.token :: rest = (front ++ [error.token]) ++ rest := by simp
  have unfit : ¬ Begins (.rule .program) ((front ++ [error.token]).map Token.kind) := by
    refine not_begins_of_stuck (fun token member => numbered token ?_) tries
    exact regrouped ▸ List.mem_append_left rest member
  have misfit : Misfit (front ++ error.token :: rest) front.length := by
    refine ⟨by simp, by rwa [List.take_left], ?_⟩
    have length : front.length + 1 = (front ++ [error.token]).length := by simp
    rwa [regrouped, length, List.take_left]
  refine ⟨front.length, by simp, misfit, fun j other => misfit.unique other, fun ended => ?_⟩
  obtain rfl : rest = [] := by
    cases rest with
    | nil => rfl
    | cons next behind =>
        have member : error.token ∈ (front ++ error.token :: next :: behind).dropLast := by
          rw [List.dropLast_append_of_ne_nil (List.cons_ne_nil _ _), List.dropLast_cons_cons]
          exact List.mem_append_right front List.mem_cons_self
        exact absurd ended (single _ member)
  rw [List.dropLast_concat]
  have missing : ¬ Derives (.rule .program) (front.map Token.kind) := by
    intro derives
    exact dirty (errors_eq_nil_of_derives closed start (by rwa [List.dropLast_concat]))
  obtain ⟨rest, derives⟩ := begins
  refine ⟨missing, rest, ?_, derives⟩
  rintro rfl
  exact missing (by rwa [List.append_nil] at derives)

/-- The tokens of `program begin x := 1`. -/
def unclosedTokens : List Token :=
  [⟨.programWord, "program", ⟨1, ⟨0, 7⟩⟩, none⟩, ⟨.beginWord, "begin", ⟨1, ⟨8, 13⟩⟩, none⟩,
    ⟨.ident, "x", ⟨1, ⟨14, 15⟩⟩, none⟩, ⟨.assign, ":=", ⟨1, ⟨16, 18⟩⟩, none⟩,
    ⟨.number, "1", ⟨1, ⟨19, 20⟩⟩, some (.int 1)⟩, ⟨.eof, "", ⟨1, ⟨20, 20⟩⟩, none⟩]

theorem errors_of_unclosed : (ofTokens unclosedTokens (by decide)).errors =
    [⟨.unexpectedToken .endWord, "expected 'end' after block",
      ⟨.eof, "", ⟨1, ⟨20, 20⟩⟩, none⟩⟩] := by
  cbv

theorem first_error_of_unclosed :
    ∃ i, unclosedTokens[i]? = some ⟨.eof, "", ⟨1, ⟨20, 20⟩⟩, none⟩ ∧ Misfit unclosedTokens i ∧
      (∀ j, Misfit unclosedTokens j → j = i) ∧
      ¬ Derives (.rule .program) (unclosedTokens.dropLast.map Token.kind) ∧
        ∃ rest, rest ≠ [] ∧
          Derives (.rule .program) (unclosedTokens.dropLast.map Token.kind ++ rest) := by
  obtain ⟨i, place, misfit, unique, incomplete⟩ := first_error_at_misfit unclosedTokens (by decide)
    (by decide) (by simp [unclosedTokens]) errors_of_unclosed
  exact ⟨i, place, misfit, unique, incomplete rfl⟩

end Parsed

end Sipl
