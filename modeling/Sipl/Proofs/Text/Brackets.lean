namespace Sipl

inductive Side where
  | opening
  | closing
  | inner
  deriving DecidableEq, Inhabited

/-- The number of open parentheses behind an item, if it does not close one that was not opened. -/
def Side.turn : Side → Nat → Option Nat
  | opening, depth => some (depth + 1)
  | closing, 0 => none
  | closing, depth + 1 => some depth
  | inner, depth => some depth

section Depth

variable {Item Other : Type} {side : Item → Side} {other : Other → Side}

/-- The number of open parentheses behind the items. -/
def depthBehind (side : Item → Side) (depth : Nat) : List Item → Option Nat
  | [] => some depth
  | item :: rest => ((side item).turn depth).bind fun behind => depthBehind side behind rest

/-- Every parenthesis is closed behind the place where it is opened. -/
def WellBracketed (side : Item → Side) (items : List Item) : Prop :=
  depthBehind side 0 items = some 0

instance (items : List Item) : Decidable (WellBracketed side items) :=
  inferInstanceAs (Decidable (_ = _))

variable {item : Item} {items front back : List Item} {depth behind : Nat}

theorem depthBehind_opening (opens : side item = .opening) :
    depthBehind side depth (item :: items) = depthBehind side (depth + 1) items := by
  rw [depthBehind, opens]
  rfl

theorem depthBehind_closing (closes : side item = .closing) :
    depthBehind side (depth + 1) (item :: items) = depthBehind side depth items := by
  rw [depthBehind, closes]
  rfl

theorem depthBehind_zero_closing (closes : side item = .closing) :
    depthBehind side 0 (item :: items) = none := by
  rw [depthBehind, closes]
  rfl

theorem depthBehind_inner (plain : side item = .inner) :
    depthBehind side depth (item :: items) = depthBehind side depth items := by
  rw [depthBehind, plain]
  rfl

theorem depthBehind_append (front back : List Item) :
    depthBehind side depth (front ++ back) =
      (depthBehind side depth front).bind fun behind => depthBehind side behind back := by
  induction front generalizing depth with
  | nil => rfl
  | cons item rest ih => simp only [List.cons_append, depthBehind, ih, Option.bind_assoc]

/-- Parentheses that were open before stay open. -/
theorem depthBehind_add (more : Nat) (reached : depthBehind side depth items = some behind) :
    depthBehind side (depth + more) items = some (behind + more) := by
  induction items generalizing depth with
  | nil =>
      obtain rfl := Option.some.inj reached
      rfl
  | cons item rest ih =>
      cases turns : side item with
      | opening =>
          rw [depthBehind_opening turns] at reached ⊢
          rw [Nat.add_right_comm]
          exact ih reached
      | inner =>
          rw [depthBehind_inner turns] at reached ⊢
          exact ih reached
      | closing =>
          cases depth with
          | zero =>
              rw [depthBehind_zero_closing turns] at reached
              cases reached
          | succ depth =>
              rw [depthBehind_closing turns] at reached
              rw [Nat.add_right_comm, depthBehind_closing turns]
              exact ih reached

theorem depthBehind_openings (opens : ∀ item ∈ items, side item = .opening) :
    depthBehind side depth items = some (depth + items.length) := by
  induction items generalizing depth with
  | nil => rfl
  | cons item rest ih =>
      obtain ⟨first, others⟩ := List.forall_mem_cons.mp opens
      rw [depthBehind_opening first, ih others, List.length_cons]
      congr 1
      omega

namespace WellBracketed

theorem nil : WellBracketed side [] := rfl

theorem depthBehind_eq (balanced : WellBracketed side items) (depth : Nat) :
    depthBehind side depth items = some depth := by
  have reached := depthBehind_add depth balanced
  rwa [Nat.zero_add] at reached

theorem append (first : WellBracketed side front) (second : WellBracketed side back) :
    WellBracketed side (front ++ back) := by
  rw [WellBracketed, depthBehind_append, first]
  exact second

theorem cons (plain : side item = .inner) (balanced : WellBracketed side items) :
    WellBracketed side (item :: items) := by
  rw [WellBracketed, depthBehind_inner plain]
  exact balanced

theorem single (plain : side item = .inner) : WellBracketed side [item] := cons plain nil

theorem tail (plain : side item = .inner) (balanced : WellBracketed side (item :: items)) :
    WellBracketed side items := by
  rwa [WellBracketed, depthBehind_inner plain] at balanced

theorem enclosed {opening closing : Item} (opens : side opening = .opening)
    (balanced : WellBracketed side items) (closes : side closing = .closing) :
    WellBracketed side (opening :: (items ++ [closing])) := by
  rw [WellBracketed, depthBehind_opening opens, depthBehind_append, balanced.depthBehind_eq]
  exact depthBehind_closing closes

/-- What is balanced in between can be left out. -/
theorem of_append_left (whole : WellBracketed side (front ++ back))
    (first : WellBracketed side front) :
    WellBracketed side back := by
  rw [WellBracketed, depthBehind_append, first] at whole
  exact whole

theorem of_append_right (whole : WellBracketed side (front ++ back))
    (second : WellBracketed side back) :
    WellBracketed side front := by
  rw [WellBracketed, depthBehind_append] at whole
  obtain ⟨behind, reached, last⟩ := Option.bind_eq_some_iff.mp whole
  rw [second.depthBehind_eq] at last
  rw [WellBracketed, reached, last]

/-- Without the parentheses that stand first, there are too many closing ones. -/
theorem depthBehind_of_openings (whole : WellBracketed side (front ++ back)) (some : front ≠ [])
    (opens : ∀ item ∈ front, side item = .opening) : depthBehind side 0 back = none := by
  rw [WellBracketed, depthBehind_append, depthBehind_openings opens, Option.bind_some] at whole
  have filled := List.length_pos_iff.mpr some
  cases reached : depthBehind side 0 back with
  | none => rfl
  | some behind =>
      have shifted := depthBehind_add front.length reached
      have same := Option.some.inj (shifted.symm.trans whole)
      omega

/-- Without the parentheses that stand last, one stays open. -/
theorem not_of_closings (whole : WellBracketed side (front ++ back)) (some : back ≠ [])
    (closes : ∀ item ∈ back, side item = .closing) : ¬ WellBracketed side front := by
  intro balanced
  have rest := whole.of_append_left balanced
  obtain ⟨item, others, rfl⟩ := List.exists_cons_of_ne_nil some
  rw [WellBracketed, depthBehind_zero_closing (closes item List.mem_cons_self)] at rest
  cases rest

end WellBracketed

theorem balanced_of_inner (plain : ∀ item ∈ items, side item = .inner) :
    WellBracketed side items := by
  induction items with
  | nil => exact .nil
  | cons item rest ih =>
      obtain ⟨first, others⟩ := List.forall_mem_cons.mp plain
      exact (ih others).cons first

theorem depthBehind_map (form : Item → Other) (items : List Item) :
    depthBehind other depth (items.map form) = depthBehind (fun item => other (form item)) depth
      items := by
  induction items generalizing depth with
  | nil => rfl
  | cons item rest ih => simp only [List.map_cons, depthBehind, ih]

/-- Items that are no parentheses may be left out. -/
theorem depthBehind_filterMap (form : Item → Option Other) (items : List Item)
    (dropped : ∀ item, form item = none → side item = .inner)
    (kept : ∀ item formed, form item = some formed → other formed = side item) :
    depthBehind other depth (items.filterMap form) = depthBehind side depth items := by
  induction items generalizing depth with
  | nil => rfl
  | cons item rest ih =>
      cases formed : form item with
      | none =>
          rw [List.filterMap_cons_none formed, ih, depthBehind_inner (dropped item formed)]
      | some made =>
          rw [List.filterMap_cons_some formed]
          simp only [depthBehind, kept item made formed, ih]

/-- Each item may be replaced by others that turn as it does. -/
theorem depthBehind_flatMap (form : Item → List Other) (items : List Item)
    (alike : ∀ item ∈ items, ∀ depth,
      depthBehind other depth (form item) = depthBehind side depth [item]) :
    depthBehind other depth (items.flatMap form) = depthBehind side depth items := by
  induction items generalizing depth with
  | nil => rfl
  | cons item rest ih =>
      obtain ⟨first, others⟩ := List.forall_mem_cons.mp alike
      simp only [List.flatMap_cons, depthBehind_append, first, ih others]
      rw [← depthBehind_append, List.singleton_append]

end Depth

end Sipl
