import Sipl.Proofs.Reader.Passes
import Sipl.Proofs.Reader.Watched

namespace Sipl

/-! What the reader does at one place of the stream it does in a fixed order, and last of all it
takes the token.  So the visits of a watched reader are ordered by where they are and then by what
they are, and each way of putting readers together keeps that order. -/

/-- At one place of the stream, productions are entered from the outer to the inner one, and loops
go round behind those that came to nothing.  Declarations that could not be read are followed by
others or by a block. -/
def Production.rank : Production → Nat
  | program => 0
  | functions => 1
  | statement => 2
  | params => 3
  | disjunction => 4
  | conjunction => 5
  | comparison => 6
  | additive => 7
  | multiplicative => 8
  | unary => 9
  | primary => 10
  | conditional => 11
  | call => 12
  | function => 19
  | block => 20

def Loop.rank : Loop → Nat
  | disjunction => 13
  | conjunction => 14
  | additive => 15
  | arguments => 16
  | params => 17
  | functions => 18
  | statements => 21

/-- Above the rank of whatever is done where a reading fails. -/
def Activity.faultRank : Nat := 18

/-- Above the rank of whatever is done before the token is taken. -/
def Activity.takeRank : Nat := 31

def Activity.rank : Activity → Nat
  | enter production => production.rank
  | turn loop => loop.rank
  | take => takeRank

@[simp] theorem Activity.rank_take : take.rank = 31 := rfl

/-- Visits are ordered by their position and then by their rank. -/
def Visit.key (visit : Visit) : Nat := visit.position * 32 + visit.activity.rank

theorem Activity.rank_lt (activity : Activity) : activity.rank < 32 := by
  cases activity with
  | enter production => cases production <;> decide
  | turn loop => cases loop <;> decide
  | take => decide

namespace Cursor

variable {start stop : Cursor} {front : List Token}

theorem Passes.remaining_eq (passes : start.Passes front stop) :
    start.remaining = front.length + stop.remaining := by
  have lengths := congrArg List.length passes.upcoming
  simp only [Cursor.upcoming, List.length_cons, List.length_append] at lengths
  rw [remaining, remaining]
  omega

end Cursor

/-- Between two cursors the visits are in order, from one key on and below another, each token is
taken, and each loop that goes round takes one. -/
structure Visited (start stop : Cursor) (visits : List Visit) (low high : Nat) : Prop where
  passes : ∃ front, start.Passes front stop
  bounds : low ≤ high
  ordered : visits.Pairwise fun earlier later => earlier.key < later.key
  above : ∀ visit ∈ visits, low ≤ visit.key
  below : ∀ visit ∈ visits, visit.key < high
  taken : ∀ position, start.position ≤ position → position < stop.position →
    ⟨.take, position⟩ ∈ visits
  paid : ∀ loop position, ⟨.turn loop, position⟩ ∈ visits → position < stop.position

namespace Visited

variable {start later stop : Cursor} {front back : List Visit} {low mid midToo high : Nat}

theorem position_le (visited : Visited start stop front low high) :
    start.position ≤ stop.position := by
  obtain ⟨tokens, passes⟩ := visited.passes
  have positions := passes.position_eq
  omega

/-- Where fewer tokens remain, the position is a later one. -/
theorem position_lt (visited : Visited start stop front low high)
    (less : stop.remaining < start.remaining) : start.position < stop.position := by
  obtain ⟨tokens, passes⟩ := visited.passes
  have positions := passes.position_eq
  have rest := passes.remaining_eq
  omega

theorem refl (cursor : Cursor) (bounds : low ≤ high) : Visited cursor cursor [] low high where
  passes := ⟨[], .refl cursor⟩
  bounds := bounds
  ordered := .nil
  above := List.forall_mem_nil _
  below := List.forall_mem_nil _
  taken := by omega
  paid := by simp

theorem mono {lower higher : Nat} (visited : Visited start stop front low high)
    (fewer : lower ≤ low) (more : high ≤ higher) : Visited start stop front lower higher where
  passes := visited.passes
  bounds := Nat.le_trans fewer (Nat.le_trans visited.bounds more)
  ordered := visited.ordered
  above visit member := Nat.le_trans fewer (visited.above visit member)
  below visit member := Nat.lt_of_lt_of_le (visited.below visit member) more
  taken := visited.taken
  paid := visited.paid

theorem append (first : Visited start later front low mid)
    (second : Visited later stop back midToo high) (fits : mid ≤ midToo) :
    Visited start stop (front ++ back) low high where
  passes := by
    obtain ⟨tokens, passes⟩ := first.passes
    obtain ⟨others, passesToo⟩ := second.passes
    exact ⟨tokens ++ others, passes.trans passesToo⟩
  bounds := by
    have lower := first.bounds
    have upper := second.bounds
    omega
  ordered := by
    refine List.pairwise_append.mpr ⟨first.ordered, second.ordered, ?_⟩
    intro one inFront other inBack
    have less := first.below one inFront
    have more := second.above other inBack
    omega
  above := by
    have bounds := first.bounds
    intro visit member
    rcases List.mem_append.mp member with inFront | inBack
    · exact first.above visit inFront
    · have more := second.above visit inBack
      omega
  below := by
    have bounds := second.bounds
    intro visit member
    rcases List.mem_append.mp member with inFront | inBack
    · have less := first.below visit inFront
      omega
    · exact second.below visit inBack
  taken := by
    intro position from_start before_stop
    by_cases early : position < later.position
    · exact List.mem_append_left _ (first.taken position from_start early)
    · exact List.mem_append_right _ (second.taken position (by omega) before_stop)
  paid := by
    intro loop position member
    have forward := second.position_le
    rcases List.mem_append.mp member with inFront | inBack
    · exact Nat.lt_of_lt_of_le (first.paid loop position inFront) forward
    · exact second.paid loop position inBack

/-- One thing is done before others, at a place that is left behind if a loop goes round. -/
theorem note (visited : Visited start stop front low high) (activity : Activity)
    (before : start.position * 32 + activity.rank < low)
    (moves : ∀ loop, activity = .turn loop → start.position < stop.position) :
    Visited start stop (⟨activity, start.position⟩ :: front)
      (start.position * 32 + activity.rank) high where
  passes := visited.passes
  bounds := by
    have bounds := visited.bounds
    omega
  ordered := by
    refine List.pairwise_cons.mpr ⟨?_, visited.ordered⟩
    intro other member
    exact Nat.lt_of_lt_of_le before (visited.above other member)
  above := by
    refine List.forall_mem_cons.mpr ⟨Nat.le_refl _, ?_⟩
    intro other member
    exact Nat.le_trans (Nat.le_of_lt before) (visited.above other member)
  below := List.forall_mem_cons.mpr ⟨Nat.lt_of_lt_of_le before visited.bounds, visited.below⟩
  taken position from_start before_stop :=
    List.mem_cons_of_mem _ (visited.taken position from_start before_stop)
  paid := by
    intro loop position member
    rcases List.mem_cons.mp member with same | inside
    · obtain ⟨turned, rfl⟩ := Visit.mk.inj same
      exact moves loop turned.symm
    · exact visited.paid loop position inside

theorem take {cursor : Cursor} (inside : cursor.kind ≠ .eof) :
    Visited cursor cursor.advance [⟨.take, cursor.position⟩] (cursor.position * 32 + 31)
      (cursor.advance.position * 32) := by
  have passes := Cursor.Passes.advance inside
  have moved := passes.position_eq
  rw [List.length_singleton] at moved
  have bounds : cursor.position * 32 + 31 ≤ cursor.advance.position * 32 := by omega
  refine ⟨⟨_, passes⟩, bounds, List.pairwise_singleton .., ?_, ?_, ?_, ?_⟩
  · exact List.forall_mem_singleton.mpr (Nat.le_refl _)
  · refine List.forall_mem_singleton.mpr ?_
    simp only [Visit.key, Activity.rank, Activity.takeRank]
    omega
  · intro position from_start before_stop
    obtain rfl : position = cursor.position := by omega
    exact List.mem_singleton_self _
  · intro loop position member
    cases List.mem_singleton.mp member

end Visited

/-- With some fuel a watched reader comes to what is read, and its visits between two cursors are in
order. -/
def Watched.ComesTo {α : Type} (reader : Watched α) (read : α) (fuel : Nat) (start stop : Cursor)
    (low high : Nat) : Prop :=
  ∃ visits, reader fuel = some (read, visits) ∧ Visited start stop visits low high

namespace Watched.ComesTo

variable {α β : Type} {reader : Watched α} {read : α} {next : α → Watched β} {rest : β}
  {fuel low mid midToo high : Nat} {start middle stop : Cursor}

theorem mono {lower higher : Nat} (tracked : Watched.ComesTo reader read fuel start stop low high)
    (fewer : lower ≤ low) (more : high ≤ higher) :
    Watched.ComesTo reader read fuel start stop lower higher := by
  obtain ⟨visits, same, visited⟩ := tracked
  exact ⟨visits, same, visited.mono fewer more⟩

theorem pure (read : α) (fuel : Nat) (start : Cursor) (bounds : low ≤ high) :
    Watched.ComesTo (pure read) read fuel start start low high :=
  ⟨[], rfl, .refl start bounds⟩

theorem bind (first : Watched.ComesTo reader read fuel start middle low mid)
    (second : Watched.ComesTo (next read) rest fuel middle stop midToo high) (fits : mid ≤ midToo) :
    Watched.ComesTo (reader >>= next) rest fuel start stop low high := by
  obtain ⟨visits, same, visited⟩ := first
  obtain ⟨others, sameToo, visitedToo⟩ := second
  refine ⟨visits ++ others, ?_, visited.append visitedToo fits⟩
  simp only [Bind.bind, same, sameToo, Option.map_some]

/-- What is read may be seen as something else. -/
theorem map (tracked : Watched.ComesTo reader read fuel start stop low high)
    (same : next read = Pure.pure rest) :
    Watched.ComesTo (reader >>= next) rest fuel start stop low high :=
  tracked.bind (same ▸ .pure rest fuel stop (Nat.le_refl high)) (Nat.le_refl high)

/-- One thing is done before others, at a place that is left behind if a loop goes round. -/
theorem during (activity : Activity)
    (tracked : Watched.ComesTo reader read (fuel - 1) start stop low high) (enough : 0 < fuel)
    (before : start.position * 32 + activity.rank < low)
    (moves : ∀ loop, activity = .turn loop → stop.remaining < start.remaining) :
    Watched.ComesTo (watching.during activity start reader) read fuel start stop
      (start.position * 32 + activity.rank) high := by
  obtain ⟨visits, same, visited⟩ := tracked
  cases fuel with
  | zero => omega
  | succ fuel =>
      refine ⟨⟨activity, start.position⟩ :: visits, ?_, visited.note activity before ?_⟩
      · exact congrArg (Option.map _) same
      · exact fun loop turned => visited.position_lt (moves loop turned)

theorem take (inside : start.kind ≠ .eof)
    (tracked : Watched.ComesTo reader read (fuel - 1) start.advance stop low high)
    (enough : 0 < fuel)
    (behind : start.advance.position * 32 ≤ low) :
    Watched.ComesTo (watching.during .take start reader) read fuel start stop
      (start.position * 32 + 31) high := by
  obtain ⟨visits, same, visited⟩ := tracked
  cases fuel with
  | zero => omega
  | succ fuel =>
      refine ⟨⟨.take, start.position⟩ :: visits, ?_, (Visited.take inside).append visited behind⟩
      exact congrArg (Option.map _) same

end Watched.ComesTo

/-- Below this key are the visits of a reading.  One that fails may have done more where it stops
than one that does not. -/
def Reading.ceiling {start : Cursor} {α : Type} (reading : Reading start α) (high : Nat) : Nat :=
  match reading.result with
  | .ok _ => reading.stop.position * 32 + high
  | .error _ => reading.stop.position * 32 + Activity.faultRank

/-- A watched reader comes to the reading, and its visits are in order, from one rank on where it
starts and below another where it stops. -/
def Reading.TrackedBy {start : Cursor} {α : Type} (reading : Reading start α)
    (reader : Watched (Reading start α)) (fuel low high : Nat) : Prop :=
  Watched.ComesTo reader reading fuel start reading.stop (start.position * 32 + low)
    (reading.ceiling high)

def Recovered.TrackedBy {start : Cursor} {α : Type} (recovered : Recovered start α)
    (reader : Watched (Recovered start α)) (fuel low high : Nat) : Prop :=
  Watched.ComesTo reader recovered fuel start recovered.stop (start.position * 32 + low)
    (recovered.stop.position * 32 + high)

open Keeper

/-- Where a token can be taken there is fuel for two more things. -/
theorem Cursor.one_lt_fuel {cursor : Cursor} {fuel : Nat} (inside : cursor.kind ≠ .eof)
    (enough : cursor.remaining * 16 ≤ fuel) : 1 < fuel := by
  have less := remaining_advance_lt inside
  omega

namespace Reading

variable {α β : Type} {start : Cursor} {fuel low lowToo mid high : Nat}

theorem ceiling_le (reading : Reading start α) {higher : Nat} (more : high ≤ higher) :
    reading.ceiling high ≤ reading.ceiling higher := by
  obtain ⟨result, stop, bound⟩ := reading
  cases result with
  | ok value => exact Nat.add_le_add_left more _
  | error error => exact Nat.le_refl _

theorem TrackedBy.weaken {reading : Reading start α} {reader : Watched (Reading start α)}
    (tracked : reading.TrackedBy reader fuel lowToo high) (fewer : low ≤ lowToo) :
    reading.TrackedBy reader fuel low high :=
  tracked.mono (Nat.add_le_add_left fewer _) (Nat.le_refl _)

theorem TrackedBy.raise {reading : Reading start α} {reader : Watched (Reading start α)}
    (tracked : reading.TrackedBy reader fuel low mid) (more : mid ≤ high) :
    reading.TrackedBy reader fuel low high :=
  tracked.mono (Nat.le_refl _) (reading.ceiling_le more)

theorem tracked_done {value : α} (fits : low ≤ high) :
    (done value : Reading start α).TrackedBy (pure (done value)) fuel low high :=
  .pure _ fuel start (Nat.add_le_add_left fits _)

theorem tracked_fail {fault : SyntaxFault} {message : String} (fits : low ≤ Activity.faultRank) :
    (fail fault message : Reading start α).TrackedBy (pure (fail fault message)) fuel low high :=
  .pure _ fuel start (Nat.add_le_add_left fits _)

theorem tracked_andThen {reading : Id (Reading start α)} {reader : Watched (Reading start α)}
    {more : α → (later : Cursor) → later.remaining ≤ start.remaining → Id (Reading later β)}
    {next : α → (later : Cursor) → later.remaining ≤ start.remaining → Watched (Reading later β)}
    (first : reading.TrackedBy reader fuel low mid)
    (second : ∀ value later bound,
      (more value later bound).TrackedBy (next value later bound) fuel lowToo high)
    (fits : mid ≤ lowToo) :
    (andThen reading more).TrackedBy (andThen reader next) fuel low high := by
  obtain ⟨result, middle, bound⟩ := reading
  cases result with
  | error error => exact Watched.ComesTo.map first rfl
  | ok value =>
      exact Watched.ComesTo.bind first (.map (second value middle bound) rfl)
        (Nat.add_le_add_left fits _)

theorem tracked_finish {reading : Id (Reading start α)} {reader : Watched (Reading start α)}
    {make : α → Cursor → β} {making : α → Cursor → Watched β}
    (first : reading.TrackedBy reader fuel low high)
    (made : ∀ value stop, making value stop = pure (make value stop)) :
    (finish reading make).TrackedBy (finish reader making) fuel low high := by
  obtain ⟨result, middle, bound⟩ := reading
  cases result with
  | error error => exact Watched.ComesTo.map first rfl
  | ok value =>
      refine Watched.ComesTo.map first ?_
      dsimp only
      rw [made]
      rfl

/-- A value that is kept takes no fuel. -/
theorem tracked_kept {reading : Reading start α} {value : β} {keeping : Watched β}
    {next : β → Watched (Reading start α)} (kept : keeping = pure value)
    (tracked : reading.TrackedBy (next value) fuel low high) :
    reading.TrackedBy (keeping >>= next) fuel low high := by
  subst kept
  exact Watched.ComesTo.bind (.pure value fuel start (Nat.le_refl _)) tracked (Nat.le_refl _)

theorem tracked_take {cursor : Cursor} {inside : cursor.kind ≠ .eof}
    {more : Token → (later : Cursor) → later.remaining < cursor.remaining → Id (Reading later α)}
    {next : Token → (later : Cursor) → later.remaining < cursor.remaining →
      Watched (Reading later α)}
    (enough : cursor.remaining * 16 ≤ fuel) (fits : low ≤ 31)
    (second : ∀ token later less,
      (more token later less).TrackedBy (next token later less) (fuel - 1) lowToo high) :
    (trees.take cursor inside more).TrackedBy (watching.take cursor inside next) fuel low high := by
  have paid := Nat.zero_lt_of_lt (Cursor.one_lt_fuel inside enough)
  exact Watched.ComesTo.mono (.take inside (.map (second ..) rfl) paid (Nat.le_add_right _ _))
    (Nat.add_le_add_left fits _) (Nat.le_refl _)

theorem tracked_expect {kind : Kind} {message : String} (other : kind ≠ .eof)
    (enough : start.remaining * 16 ≤ fuel) (fits : low ≤ Activity.faultRank) :
    (trees.expect start kind message).TrackedBy (watching.expect start kind message) fuel low
      0 := by
  rw [expect, expect]
  split
  · next found =>
      have inside : start.kind ≠ .eof := found ▸ other
      have before : low ≤ 31 := Nat.le_trans fits (by decide)
      have paid := Nat.zero_lt_of_lt (Cursor.one_lt_fuel inside enough)
      exact Watched.ComesTo.mono (.take inside (.pure _ _ _ (Nat.le_refl _)) paid (Nat.le_refl _))
        (Nat.add_le_add_left before _) (Nat.le_refl _)
  · exact tracked_fail fits

theorem tracked_expectName {message : String} (enough : start.remaining * 16 ≤ fuel)
    (fits : low ≤ Activity.faultRank) :
    (trees.expectName start message).TrackedBy (watching.expectName start message) fuel low 0 := by
  rw [expectName, expectName]
  split
  · next found =>
      have inside : start.kind ≠ .eof := by simp [found]
      have before : low ≤ 31 := Nat.le_trans fits (by decide)
      have paid := Nat.zero_lt_of_lt (Cursor.one_lt_fuel inside enough)
      exact Watched.ComesTo.mono (.take inside (.pure _ _ _ (Nat.le_refl _)) paid (Nat.le_refl _))
        (Nat.add_le_add_left before _) (Nat.le_refl _)
  · exact tracked_fail fits

/-- To enter a production is the first thing that it does. -/
theorem tracked_enter {reading : Reading start α} {reader : Watched (Reading start α)}
    (production : Production) (enough : 0 < fuel)
    (tracked : reading.TrackedBy reader (fuel - 1) (production.rank + 1) high) :
    Reading.TrackedBy (trees.during (.enter production) start reading)
      (watching.during (.enter production) start reader) fuel production.rank high :=
  Watched.ComesTo.during (.enter production) tracked enough (Nat.lt_succ_self _) (by simp)

/-- A loop that goes round takes a token. -/
theorem tracked_turn {cursor : Cursor} {inside : cursor.kind ≠ .eof}
    {more : Token → (later : Cursor) → later.remaining < cursor.remaining → Id (Reading later α)}
    {next : Token → (later : Cursor) → later.remaining < cursor.remaining →
      Watched (Reading later α)}
    (loop : Loop) (enough : cursor.remaining * 16 ≤ fuel) (fits : low ≤ loop.rank)
    (second : ∀ token later less,
      (more token later less).TrackedBy (next token later less) (fuel - 2) lowToo high) :
    Reading.TrackedBy (trees.during (.turn loop) cursor (trees.take cursor inside more))
      (watching.during (.turn loop) cursor (watching.take cursor inside next)) fuel low high := by
  have before : loop.rank < 31 := by cases loop <;> decide
  have paid := Cursor.one_lt_fuel inside enough
  refine Watched.ComesTo.mono (.during (.turn loop) (.take inside (.map (second ..) rfl) (by omega)
    (Nat.le_add_right _ _)) (by omega) (Nat.add_lt_add_left before _) ?_)
    (Nat.add_le_add_left fits _) (Nat.le_refl _)
  intro other turned
  exact Nat.lt_of_le_of_lt (more ..).bound (Cursor.remaining_advance_lt inside)

end Reading

namespace Recovered

variable {α β : Type} {start : Cursor} {fuel low lowToo mid high : Nat}

theorem TrackedBy.weaken {recovered : Recovered start α} {reader : Watched (Recovered start α)}
    (tracked : recovered.TrackedBy reader fuel lowToo high) (fewer : low ≤ lowToo) :
    recovered.TrackedBy reader fuel low high :=
  tracked.mono (Nat.add_le_add_left fewer _) (Nat.le_refl _)

theorem tracked_done {value : α} (fits : low ≤ high) :
    (done value : Recovered start α).TrackedBy (pure (done value)) fuel low high :=
  .pure _ fuel start (Nat.add_le_add_left fits _)

theorem tracked_andThen {recovered : Id (Recovered start α)}
    {reader : Watched (Recovered start α)}
    {more : α → (later : Cursor) → later.remaining ≤ start.remaining → Id (Recovered later β)}
    {next : α → (later : Cursor) → later.remaining ≤ start.remaining →
      Watched (Recovered later β)}
    (first : recovered.TrackedBy reader fuel low mid)
    (second : ∀ value later bound,
      (more value later bound).TrackedBy (next value later bound) fuel lowToo high)
    (fits : mid ≤ lowToo) :
    (andThen recovered more).TrackedBy (andThen reader next) fuel low high :=
  Watched.ComesTo.bind first (.map (second _ _ recovered.bound) rfl) (Nat.add_le_add_left fits _)

theorem tracked_finish {recovered : Id (Recovered start α)}
    {reader : Watched (Recovered start α)} {make : α → Cursor → β}
    {making : α → Cursor → Watched β} (first : recovered.TrackedBy reader fuel low high)
    (made : ∀ value stop, making value stop = pure (make value stop)) :
    (finish recovered make).TrackedBy (finish reader making) fuel low high := by
  refine Watched.ComesTo.map first ?_
  dsimp only
  rw [made]
  rfl

theorem tracked_noted {recovered : Id (Recovered start α)} {reader : Watched (Recovered start α)}
    (first : recovered.TrackedBy reader fuel low high) :
    (noted recovered).TrackedBy (noted reader) fuel low high :=
  Watched.ComesTo.map first rfl

theorem tracked_pass {cursor : Cursor} {inside : cursor.kind ≠ .eof}
    {more : (later : Cursor) → later.remaining < cursor.remaining → Id (Recovered later α)}
    {next : (later : Cursor) → later.remaining < cursor.remaining → Watched (Recovered later α)}
    (enough : cursor.remaining * 16 ≤ fuel) (fits : low ≤ 31)
    (second : ∀ later less,
      (more later less).TrackedBy (next later less) (fuel - 1) lowToo high) :
    (trees.pass cursor inside more).TrackedBy (watching.pass cursor inside next) fuel low high := by
  have paid := Nat.zero_lt_of_lt (Cursor.one_lt_fuel inside enough)
  exact Watched.ComesTo.mono (.take inside (.map (second ..) rfl) paid (Nat.le_add_right _ _))
    (Nat.add_le_add_left fits _) (Nat.le_refl _)

theorem tracked_enter {recovered : Recovered start α} {reader : Watched (Recovered start α)}
    (production : Production) (enough : 0 < fuel)
    (tracked : recovered.TrackedBy reader (fuel - 1) (production.rank + 1) high) :
    Recovered.TrackedBy (trees.during (.enter production) start recovered)
      (watching.during (.enter production) start reader) fuel production.rank high :=
  Watched.ComesTo.during (.enter production) tracked enough (Nat.lt_succ_self _) (by simp)

/-- A loop that goes round takes a token. -/
theorem tracked_turn {recovered : Recovered start α} {reader : Watched (Recovered start α)}
    (loop : Loop) (enough : start.remaining * 16 ≤ fuel)
    (moves : recovered.stop.remaining < start.remaining)
    (tracked : recovered.TrackedBy reader (fuel - 1) (loop.rank + 1) high) :
    Recovered.TrackedBy (trees.during (.turn loop) start recovered)
      (watching.during (.turn loop) start reader) fuel loop.rank high :=
  Watched.ComesTo.during (.turn loop) tracked (by omega) (Nat.lt_succ_self _) fun _ _ => moves

theorem remaining_stop_pass_lt {cursor : Cursor} {inside : cursor.kind ≠ .eof}
    {more : (later : Cursor) → later.remaining < cursor.remaining → Id (Recovered later α)} :
    (trees.pass cursor inside more).stop.remaining < cursor.remaining :=
  Nat.lt_of_le_of_lt (more ..).bound (Cursor.remaining_advance_lt inside)

/-- The tokens that are skipped are taken one after another. -/
theorem tracked_skip {fuel : Nat} (set : KindSet) (cursor : Cursor)
    (enough : cursor.remaining * 16 ≤ fuel) (fits : low ≤ 31) :
    (trees.skip set cursor).TrackedBy (watching.skip set cursor) fuel low low := by
  rw [skip, skip]
  split
  · exact tracked_done (Nat.le_refl low)
  · split
    · exact tracked_done (Nat.le_refl low)
    · have rest := fun behind (less : behind.remaining < cursor.remaining) =>
        tracked_skip set behind (show behind.remaining * 16 ≤ fuel - 1 by omega) fits
      exact tracked_pass enough fits rest
termination_by cursor.remaining

theorem tracked_eat {kind : Kind} {other : kind ≠ .eof} (enough : start.remaining * 16 ≤ fuel)
    (fits : low ≤ 31) :
    (trees.eat start kind other).TrackedBy (watching.eat start kind other) fuel low low := by
  rw [eat, eat]
  split
  · exact tracked_pass enough fits fun _ _ => tracked_done (Nat.le_refl low)
  · exact tracked_done (Nat.le_refl low)

theorem tracked_orSkip {reading : Id (Reading start (α × List SyntaxError))}
    {reader : Watched (Reading start (α × List SyntaxError))} (boundary : KindSet)
    (enough : start.remaining * 16 ≤ fuel) (tracked : reading.TrackedBy reader fuel low mid)
    (fits : mid ≤ high) (faults : Activity.faultRank ≤ high) :
    (trees.orSkip reading boundary).TrackedBy (watching.orSkip reader boundary) fuel low high := by
  obtain ⟨result, stop, bound⟩ := reading
  cases result with
  | ok read =>
      exact Watched.ComesTo.mono (.map tracked rfl) (Nat.le_refl _) (Nat.add_le_add_left fits _)
  | error error =>
      have skipped := tracked_skip boundary stop (show stop.remaining * 16 ≤ fuel by omega)
        (show Activity.faultRank ≤ 31 by decide)
      exact Watched.ComesTo.mono (.bind tracked (.map skipped rfl) (Nat.le_refl _)) (Nat.le_refl _)
        (Nat.add_le_add_left faults _)

end Recovered

end Sipl
