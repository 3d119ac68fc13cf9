import Sipl.Reader.Trees

namespace Sipl

open Keeper

/-- A reading yields a value and stops at a cursor. -/
def Reading.Yields {start : Cursor} {α : Type} (reading : Reading start α) (value : α)
    (stop : Cursor) : Prop :=
  reading.result = .ok value ∧ reading.stop = stop

namespace Reading

variable {start : Cursor} {α β : Type}

/-- The errors in what was read, or the one that the reading fails with. -/
def errors (reading : Reading start α) (met : α → List SyntaxError) : List SyntaxError :=
  match reading.result with
  | .ok value => met value
  | .error error => [error]

@[simp] theorem yields_done {value yielded : α} {stop : Cursor} :
    (done value : Reading start α).Yields yielded stop ↔ value = yielded ∧ start = stop := by
  simp [Yields, done]

@[simp] theorem yields_fail {fault : SyntaxFault} {message : String} {value : α} {stop : Cursor} :
    ¬ (fail fault message : Reading start α).Yields value stop := by
  simp [Yields, fail]

theorem Yields.bound {reading : Reading start α} {value : α} {stop : Cursor}
    (yields : reading.Yields value stop) : stop.remaining ≤ start.remaining :=
  yields.2 ▸ reading.bound

theorem yields_andThen {reading : Id (Reading start α)}
    {next : α → (later : Cursor) → later.remaining ≤ start.remaining → Id (Reading later β)}
    {value : β} {stop : Cursor} :
    (andThen reading next).Yields value stop ↔
      ∃ first later, ∃ yields : reading.Yields first later,
        (next first later yields.bound).Yields value stop := by
  obtain ⟨result, middle, bound⟩ := reading
  cases result with
  | error error => simp [andThen, Yields]
  | ok first =>
      constructor
      · exact fun yields => ⟨first, middle, ⟨rfl, rfl⟩, yields⟩
      · rintro ⟨_, _, ⟨same, rfl⟩, yields⟩
        obtain rfl := Except.ok.inj same
        exact yields

theorem yields_finish {reading : Id (Reading start α)} {make : α → Cursor → β} {value : β}
    {stop : Cursor} :
    (finish reading make).Yields value stop ↔
      ∃ first, reading.Yields first stop ∧ make first stop = value := by
  obtain ⟨result, middle, bound⟩ := reading
  cases result with
  | error error => simp [finish, Yields]
  | ok first =>
      simp only [finish, Yields, bind_trees, pure_trees, Except.ok.injEq]
      constructor
      · rintro ⟨made, rfl⟩
        exact ⟨first, ⟨rfl, rfl⟩, made⟩
      · rintro ⟨_, ⟨rfl, rfl⟩, made⟩
        exact ⟨made, rfl⟩

end Reading

namespace Cursor

open Reading

variable {α : Type}

@[simp] theorem yields_take {cursor stop : Cursor} {inside : cursor.kind ≠ .eof}
    {next : Token → (later : Cursor) → later.remaining < cursor.remaining → Reading later α}
    {value : α} :
    (trees.take cursor inside next).Yields value stop ↔
      (next cursor.current cursor.advance (remaining_advance_lt inside)).Yields value stop :=
  Iff.rfl

theorem yields_expect {cursor stop : Cursor} {kind : Kind} {message : String} {token : Token} :
    (trees.expect cursor kind message).Yields token stop ↔
      cursor.kind = kind ∧ cursor.current = token ∧ cursor.advance = stop := by
  unfold Keeper.expect
  split
  · next found => simp [Yields, found]
  · next other => simp [other]

theorem yields_expectName {cursor stop : Cursor} {message : String} {token : Token} :
    (trees.expectName cursor message).Yields token stop ↔
      cursor.kind = .ident ∧ cursor.current = token ∧ cursor.advance = stop := by
  unfold Keeper.expectName
  split
  · next found => simp [Yields, found]
  · next other => simp [other]

/-- The tokens that are not taken yet. -/
def upcoming (cursor : Cursor) : List Token := cursor.current :: cursor.ahead

theorem upcoming_eq_cons {cursor : Cursor} (inside : cursor.kind ≠ .eof) :
    cursor.upcoming = cursor.current :: cursor.advance.upcoming := by
  have more := ahead_ne_nil inside
  obtain ⟨passed, current, ahead, closed⟩ := cursor
  cases ahead with
  | nil => exact absurd rfl more
  | cons next ahead => simp [advance, upcoming, show current.kind ≠ .eof from inside]

end Cursor

namespace Recovered

variable {start : Cursor} {α β : Type}

/-- A reading that cannot fail comes out with a value, its errors, and the place where it stops. -/
def Yields (recovered : Recovered start α) (value : α) (errors : List SyntaxError)
    (stop : Cursor) : Prop :=
  recovered.value = value ∧ recovered.errors = errors ∧ recovered.stop = stop

theorem Yields.bound {recovered : Recovered start α} {value : α} {errors : List SyntaxError}
    {stop : Cursor} (yields : recovered.Yields value errors stop) :
    stop.remaining ≤ start.remaining :=
  yields.2.2 ▸ recovered.bound

theorem yields_self (recovered : Recovered start α) :
    recovered.Yields recovered.value recovered.errors recovered.stop :=
  ⟨rfl, rfl, rfl⟩

@[simp] theorem yields_done {value yielded : α} {errors : List SyntaxError} {stop : Cursor} :
    (done value : Recovered start α).Yields yielded errors stop ↔
      value = yielded ∧ [] = errors ∧ start = stop :=
  Iff.rfl

theorem yields_andThen {recovered : Id (Recovered start α)}
    {next : α → (later : Cursor) → later.remaining ≤ start.remaining → Id (Recovered later β)}
    {value : β} {errors : List SyntaxError} {stop : Cursor} :
    (andThen recovered next).Yields value errors stop ↔
      ∃ first before later after, ∃ yields : recovered.Yields first before later,
        (next first later yields.bound).Yields value after stop ∧ before ++ after = errors := by
  constructor
  · rintro ⟨rfl, rfl, rfl⟩
    exact ⟨_, _, _, _, ⟨rfl, rfl, rfl⟩, ⟨rfl, rfl, rfl⟩, rfl⟩
  · rintro ⟨_, _, _, _, ⟨rfl, rfl, rfl⟩, ⟨rfl, rfl, rfl⟩, rfl⟩
    exact ⟨rfl, rfl, rfl⟩

theorem yields_finish {recovered : Id (Recovered start α)} {make : α → Cursor → β} {value : β}
    {errors : List SyntaxError} {stop : Cursor} :
    (finish recovered make).Yields value errors stop ↔
      ∃ first, recovered.Yields first errors stop ∧ make first stop = value := by
  constructor
  · rintro ⟨rfl, rfl, rfl⟩
    exact ⟨_, ⟨rfl, rfl, rfl⟩, rfl⟩
  · rintro ⟨_, ⟨rfl, rfl, rfl⟩, rfl⟩
    exact ⟨rfl, rfl, rfl⟩

theorem yields_noted {recovered : Id (Recovered start α)} {value : α} {errors : List SyntaxError}
    {stop : Cursor} :
    (noted recovered).Yields (value, errors) stop ↔ recovered.Yields value errors stop := by
  simp [noted, toReading, Reading.Yields, Yields, and_assoc]

end Recovered

namespace Cursor

variable {α : Type}

@[simp] theorem yields_pass {cursor stop : Cursor} {inside : cursor.kind ≠ .eof}
    {next : (later : Cursor) → later.remaining < cursor.remaining → Recovered later α}
    {value : α} {errors : List SyntaxError} :
    (trees.pass cursor inside next).Yields value errors stop ↔
      (next cursor.advance (remaining_advance_lt inside)).Yields value errors stop :=
  Iff.rfl

end Cursor

/-- What is kept of a reading that succeeds, and of one that fails. -/
theorem Reading.yields_orSkip {start : Cursor} {α : Type}
    {reading : Reading start (α × List SyntaxError)} {boundary : KindSet} {values : List α}
    {errors : List SyntaxError} {stop : Cursor} :
    (trees.orSkip reading boundary).Yields values errors stop ↔
      (∃ value, reading.Yields (value, errors) stop ∧ values = [value]) ∨
        ∃ error, reading.result = .error error ∧ values = [] ∧ errors = [error] ∧
          reading.stop.skipTo boundary = stop := by
  obtain ⟨result, middle, bound⟩ := reading
  cases result with
  | error error => simp [orSkip, Recovered.Yields, Reading.Yields, stop_skip, eq_comm]
  | ok pair =>
      obtain ⟨value, met⟩ := pair
      simp only [orSkip, Recovered.Yields, Reading.Yields, Except.ok.injEq, Prod.mk.injEq,
        reduceCtorEq, false_and, exists_false, or_false]
      constructor
      · rintro ⟨rfl, rfl, rfl⟩
        exact ⟨value, ⟨⟨rfl, rfl⟩, rfl⟩, rfl⟩
      · rintro ⟨_, ⟨⟨rfl, rfl⟩, rfl⟩, rfl⟩
        exact ⟨rfl, rfl, rfl⟩

end Sipl
