import Sipl.Proofs.Text.Brackets

namespace Sipl

section Depths

variable {Item Other : Type} {side : Item → Side} {other : Other → Side}

/-- How many parentheses are open around each item that is none, behind a number of open ones. -/
def depths (side : Item → Side) (depth : Nat) : List Item → List Nat
  | [] => []
  | item :: rest =>
    match side item with
    | .opening => depths side (depth + 1) rest
    | .closing => depths side (depth - 1) rest
    | .inner => depth :: depths side depth rest

/-- The number of items that are no parentheses. -/
def inners (side : Item → Side) (items : List Item) : Nat :=
  items.countP fun item => side item == .inner

variable {item opening closing : Item} {items front middle back more : List Item} {depth : Nat}

theorem depths_inner (plain : side item = .inner) :
    depths side depth (item :: items) = depth :: depths side depth items := by
  rw [depths, plain]

theorem depths_opening (opens : side item = .opening) :
    depths side depth (item :: items) = depths side (depth + 1) items := by
  rw [depths, opens]

theorem depths_closing (closes : side item = .closing) :
    depths side depth (item :: items) = depths side (depth - 1) items := by
  rw [depths, closes]

theorem length_depths (depth : Nat) (items : List Item) :
    (depths side depth items).length = inners side items := by
  induction items generalizing depth with
  | nil => rfl
  | cons item rest ih =>
      rw [inners, List.countP_cons]
      cases turns : side item with
      | opening =>
          rw [depths_opening turns, ih]
          rfl
      | closing =>
          rw [depths_closing turns, ih]
          rfl
      | inner =>
          rw [depths_inner turns, List.length_cons, ih]
          rfl

@[simp] theorem inners_append (front back : List Item) :
    inners side (front ++ back) = inners side front + inners side back :=
  List.countP_append

theorem inners_inner (plain : side item = .inner) :
    inners side (item :: items) = inners side items + 1 := by
  simp [inners, plain]

theorem inners_opening (opens : side item = .opening) :
    inners side (item :: items) = inners side items := by
  simp [inners, opens]

theorem inners_closing (closes : side item = .closing) :
    inners side (item :: items) = inners side items := by
  simp [inners, closes]

theorem depths_of_depthBehind {behind : Nat}
    (reached : depthBehind side depth front = some behind) :
    depths side depth (front ++ back) = depths side depth front ++ depths side behind back := by
  induction front generalizing depth with
  | nil =>
      obtain rfl := Option.some.inj reached
      rfl
  | cons item rest ih =>
      rw [List.cons_append]
      cases turns : side item with
      | opening =>
          rw [depthBehind_opening turns] at reached
          rw [depths_opening turns, depths_opening turns, ih reached]
      | inner =>
          rw [depthBehind_inner turns] at reached
          rw [depths_inner turns, depths_inner turns, ih reached, List.cons_append]
      | closing =>
          cases depth with
          | zero =>
              rw [depthBehind_zero_closing turns] at reached
              cases reached
          | succ depth =>
              rw [depthBehind_closing turns] at reached
              rw [depths_closing turns, depths_closing turns]
              exact ih reached

theorem WellBracketed.depths_append (balanced : WellBracketed side front) :
    depths side depth (front ++ back) = depths side depth front ++ depths side depth back :=
  depths_of_depthBehind (balanced.depthBehind_eq depth)

theorem depths_enclosed (opens : side opening = .opening) (balanced : WellBracketed side items)
    (closes : side closing = .closing) :
    depths side depth (opening :: (items ++ [closing])) = depths side (depth + 1) items := by
  rw [depths_opening opens, balanced.depths_append, depths_closing closes, depths, List.append_nil]

/-- No item of a balanced list stands less deep than the list. -/
theorem WellBracketed.le_of_mem_depths (balanced : WellBracketed side items) :
    ∀ reached ∈ depths side depth items, depth ≤ reached := by
  have above : ∀ (items : List Item) (start behind : Nat),
      depthBehind side start items = some behind →
        ∀ reached ∈ depths side (depth + start) items, depth ≤ reached := by
    intro items
    induction items with
    | nil => exact fun _ _ _ => List.forall_mem_nil _
    | cons item rest ih =>
        intro start behind closed
        cases turns : side item with
        | opening =>
            rw [depthBehind_opening turns] at closed
            rw [depths_opening turns]
            exact ih _ _ closed
        | inner =>
            rw [depthBehind_inner turns] at closed
            rw [depths_inner turns]
            exact List.forall_mem_cons.mpr ⟨Nat.le_add_right _ _, ih _ _ closed⟩
        | closing =>
            cases start with
            | zero =>
                rw [depthBehind_zero_closing turns] at closed
                cases closed
            | succ start =>
                rw [depthBehind_closing turns] at closed
                rw [depths_closing turns]
                exact ih _ _ closed
  exact above items 0 0 balanced

variable {left right : List Other}

/-- Balanced lists with as many items at the start of lists with the same depths have the same
depths themselves. -/
theorem WellBracketed.split_depths (first : WellBracketed side front)
    (second : WellBracketed other left) (long : inners side front = inners other left)
    (alike : depths side depth (front ++ back) = depths other depth (left ++ right)) :
    depths side depth front = depths other depth left ∧
      depths side depth back = depths other depth right := by
  rw [first.depths_append, second.depths_append] at alike
  exact List.append_inj alike (by rw [length_depths, length_depths, long])

theorem tail_depths {word : Other} (plain : side item = .inner) (also : other word = .inner)
    (alike : depths side depth (item :: items) = depths other depth (word :: left)) :
    depths side depth items = depths other depth left := by
  rw [depths_inner plain, depths_inner also] at alike
  exact (List.cons.inj alike).2

/-- Among the items stands a pair of matching parentheses, around some that are balanced. -/
structure Pair (side : Item → Side) (items front middle back : List Item) : Prop where
  whole : ∃ opening closing, side opening = .opening ∧ side closing = .closing ∧
    items = front ++ opening :: (middle ++ closing :: back)
  inside : WellBracketed side middle

namespace Pair

theorem not_nil : ¬ Pair side [] front middle back := by
  rintro ⟨⟨opening, closing, _, _, whole⟩, _⟩
  simp at whole

/-- In a balanced list, what is opened is closed: no balanced list that starts in front of its end
reaches behind it. -/
theorem not_open (balanced : WellBracketed side (front ++ opening :: items))
    (opens : side opening = .opening) : ¬ WellBracketed side (items ++ more) := by
  intro inside
  rw [WellBracketed, depthBehind_append] at balanced inside
  obtain ⟨depth, _, rest⟩ := Option.bind_eq_some_iff.mp balanced
  obtain ⟨behind, reached, _⟩ := Option.bind_eq_some_iff.mp inside
  have deeper := depthBehind_add (depth + 1) reached
  rw [depthBehind_opening opens, ← Nat.zero_add (depth + 1), deeper] at rest
  cases rest

/-- A pair stands in one of two parts if the first one is balanced. -/
theorem append (pair : Pair side (items ++ more) front middle back)
    (balanced : WellBracketed side items) :
    (∃ rest, Pair side items front middle rest ∧ back = rest ++ more) ∨
      ∃ rest, Pair side more rest middle back ∧ front = items ++ rest := by
  obtain ⟨⟨opening, closing, opens, closes, whole⟩, inside⟩ := pair
  rcases List.append_eq_append_iff.mp whole with ⟨rest, rfl, split⟩ | ⟨rest, rfl, split⟩
  · exact .inr ⟨rest, ⟨⟨opening, closing, opens, closes, split⟩, inside⟩, rfl⟩
  · rcases List.cons_eq_append_iff.mp split with ⟨rfl, same⟩ | ⟨held, rfl, tail⟩
    · exact .inr ⟨[], ⟨⟨opening, closing, opens, closes, same⟩, inside⟩, by simp⟩
    · rcases List.append_eq_append_iff.mp tail with ⟨within, rfl, ends⟩ | ⟨within, rfl, ends⟩
      · rcases List.cons_eq_append_iff.mp ends with ⟨rfl, same⟩ | ⟨rest, rfl, rfl⟩
        · rw [List.append_nil] at balanced
          rw [← List.append_nil middle] at inside
          exact absurd inside (not_open balanced opens)
        · exact .inl ⟨rest, ⟨⟨opening, closing, opens, closes, rfl⟩, inside⟩, rfl⟩
      · exact absurd inside (not_open balanced opens)

/-- Behind an item that is no parenthesis. -/
theorem behind (pair : Pair side (item :: items) front middle back) (plain : side item = .inner) :
    ∃ rest, Pair side items rest middle back ∧ front = item :: rest := by
  have single : [item] ++ items = item :: items := rfl
  rw [← single] at pair
  rcases pair.append (.single plain) with
    ⟨rest, ⟨⟨opening, closing, opens, _, whole⟩, _⟩, _⟩ | found
  · rcases List.cons_eq_append_iff.mp whole with ⟨rfl, same⟩ | ⟨held, rfl, nothing⟩
    · obtain ⟨rfl, _⟩ := List.cons.inj same
      rw [plain] at opens
      cases opens
    · simp at nothing
  · exact found

/-- Around some balanced items stands their own pair, and others stand within. -/
theorem enclosed (pair : Pair side (opening :: (items ++ [closing])) front middle back)
    (balanced : WellBracketed side items) :
    (front = [] ∧ middle = items ∧ back = []) ∨
      ∃ rest more, Pair side items rest middle more ∧ front = opening :: rest ∧
        back = more ++ [closing] := by
  obtain ⟨⟨first, last, opens, ends, whole⟩, inside⟩ := pair
  rcases List.cons_eq_append_iff.mp whole with ⟨rfl, same⟩ | ⟨rest, rfl, same⟩
  · obtain ⟨rfl, tail⟩ := List.cons.inj same
    refine .inl ⟨rfl, ?_⟩
    rcases List.append_eq_append_iff.mp tail with ⟨extra, rfl, single⟩ | ⟨extra, rfl, single⟩
    · rcases List.cons_eq_append_iff.mp single with ⟨rfl, only⟩ | ⟨held, rfl, _⟩
      · exact ⟨(List.append_nil _).symm, (List.cons.inj only).2.symm⟩
      · have rest := balanced.of_append_left inside
        rw [WellBracketed, depthBehind_zero_closing ends] at rest
        cases rest
    · rcases List.cons_eq_append_iff.mp single with ⟨rfl, only⟩ | ⟨held, rfl, nothing⟩
      · exact ⟨List.append_nil _, (List.cons.inj only).2⟩
      · simp at nothing
  · have pair : Pair side (items ++ [closing]) rest middle back :=
      ⟨⟨first, last, opens, ends, same⟩, inside⟩
    rcases pair.append balanced with ⟨more, within, rfl⟩ | ⟨more, ⟨⟨_, _, _, _, whole⟩, _⟩, _⟩
    · exact .inr ⟨rest, more, within, rfl, rfl⟩
    · have long := congrArg List.length whole
      simp at long
      omega

/-- Without the pair, the rest stays balanced. -/
theorem without (pair : Pair side items front middle back) (balanced : WellBracketed side items) :
    WellBracketed side (front ++ (middle ++ back)) := by
  obtain ⟨⟨opening, closing, opens, closes, rfl⟩, inside⟩ := pair
  rw [WellBracketed, depthBehind_append] at balanced ⊢
  obtain ⟨depth, reached, rest⟩ := Option.bind_eq_some_iff.mp balanced
  rw [depthBehind_opening opens, depthBehind_append, inside.depthBehind_eq, Option.bind_some,
    depthBehind_closing closes] at rest
  rw [reached, Option.bind_some, depthBehind_append, inside.depthBehind_eq, Option.bind_some, rest]

theorem inners_without (pair : Pair side items front middle back) :
    inners side (front ++ (middle ++ back)) = inners side items := by
  obtain ⟨⟨opening, closing, opens, closes, rfl⟩, _⟩ := pair
  simp [inners_opening opens, inners_closing closes]

end Pair

end Depths

end Sipl
