import Sipl.Proofs.Text.Graphic
import Sipl.Tree.Outline

namespace Sipl

/-! An outline has a line for every node, in front of the lines of its children, which stand one
step deeper.  Such lines tell the tree, and a text of indented lines tells the lines, as long as
none of them is broken or starts with a blank. -/

/-- A stretch that ends where a property does is told by what it is part of. -/
theorem append_inj_of_stop {α : Type} {inside : α → Bool} {left right leftToo rightToo : List α}
    (filled : ∀ item ∈ left, inside item = true) (filledToo : ∀ item ∈ leftToo, inside item = true)
    (stops : ∀ item ∈ right.head?, inside item = false)
    (stopsToo : ∀ item ∈ rightToo.head?, inside item = false)
    (same : left ++ right = leftToo ++ rightToo) : left = leftToo ∧ right = rightToo := by
  have front : ∀ {left right : List α}, (∀ item ∈ left, inside item = true) →
      (∀ item ∈ right.head?, inside item = false) →
      (left ++ right).takeWhile inside = left := by
    intro left right filled stops
    rw [List.takeWhile_append_of_pos filled]
    cases right with
    | nil => exact List.append_nil left
    | cons item others => simp [stops item rfl]
  have fronts := congrArg (List.takeWhile inside) same
  rw [front filled stops, front filledToo stopsToo] at fronts
  subst fronts
  exact ⟨rfl, List.append_cancel_left same⟩

/-- Members of lists that have one image alike have the other alike, too. -/
theorem map_eq_of_map_eq {α β γ : Type} {shown : α → β} {known : α → γ} {items others : List α}
    (same : items.map shown = others.map shown)
    (each : ∀ item ∈ items, ∀ other ∈ others, shown item = shown other → known item = known other) :
    items.map known = others.map known := by
  induction items generalizing others with
  | nil =>
      cases others with
      | nil => rfl
      | cons other rest => cases same
  | cons item items ih =>
      cases others with
      | nil => cases same
      | cons other rest =>
          obtain ⟨first, later⟩ := List.cons.inj same
          have firsts := each item List.mem_cons_self other List.mem_cons_self first
          rw [List.map_cons, List.map_cons, firsts, ih later]
          intro inner member innerToo memberToo
          exact each inner (List.mem_cons_of_mem _ member) innerToo
            (List.mem_cons_of_mem _ memberToo)

namespace OutlineLine

/-- A text that leaves its line whole and its indentation as it is. -/
def Clean (text : String) : Prop := Lacks '\n' text ∧ text.toList.head? ≠ some ' '

instance (text : String) : Decidable (Clean text) := inferInstanceAs (Decidable (_ ∧ _))

/-- A text without blanks. -/
def Solid (text : String) : Prop := Lacks '\n' text ∧ Lacks ' ' text

instance (text : String) : Decidable (Solid text) := inferInstanceAs (Decidable (_ ∧ _))

theorem Solid.clean {text : String} (solid : Solid text) : Clean text := by
  refine ⟨solid.1, fun first => solid.2 ?_⟩
  exact List.mem_of_mem_head? first

namespace Clean

theorem append {text rest : String} (clean : Clean text) (filled : text ≠ "")
    (unbroken : Lacks '\n' rest) : Clean (text ++ rest) := by
  refine ⟨clean.1.append unbroken, ?_⟩
  have starts := clean.2
  have more : text.toList ≠ [] := by simpa using filled
  rw [String.toList_append]
  cases chars : text.toList with
  | nil => exact absurd chars more
  | cons first others => simpa [chars] using starts

end Clean

/-- A line in front of its end. -/
def chars (line : OutlineLine) : List Char :=
  List.replicate (2 * line.depth) ' ' ++ line.text.toList

theorem toList_join_render (line : OutlineLine) (lines : List OutlineLine) :
    (String.join ((line :: lines).map render)).toList =
      line.chars ++ '\n' :: (String.join (lines.map render)).toList := by
  simp [render, chars]

theorem Clean.unbroken {line : OutlineLine} (clean : Clean line.text) :
    ∀ char ∈ line.chars, (char != '\n') = true := by
  intro char member
  rcases List.mem_append.mp member with blank | letter
  · rw [List.eq_of_mem_replicate blank]
    rfl
  · apply bne_iff_ne.mpr
    intro same
    exact clean.1 (same ▸ letter)

theorem eq_of_chars {line other : OutlineLine} (clean : Clean line.text)
    (cleanToo : Clean other.text) (same : line.chars = other.chars) : line = other := by
  obtain ⟨depth, text⟩ := line
  obtain ⟨depthToo, textToo⟩ := other
  have blank : ∀ {count : Nat}, ∀ char ∈ List.replicate count ' ', (char == ' ') = true := by
    intro count char member
    exact beq_iff_eq.mpr (List.eq_of_mem_replicate member)
  have solid : ∀ {text : String}, Clean text →
      ∀ char ∈ text.toList.head?, (char == ' ') = false := by
    intro text clean char first
    apply beq_eq_false_iff_ne.mpr
    intro same
    exact clean.2 (same ▸ first)
  obtain ⟨columns, letters⟩ := append_inj_of_stop blank blank (solid clean) (solid cleanToo) same
  have widths := congrArg List.length columns
  simp only [List.length_replicate] at widths
  obtain rfl : depth = depthToo := by omega
  obtain rfl := String.toList_inj.mp letters
  rfl

/-- Rendered lines tell what was rendered. -/
theorem render_injective (lines others : List OutlineLine)
    (clean : ∀ line ∈ lines, Clean line.text) (cleanToo : ∀ line ∈ others, Clean line.text)
    (same : String.join (lines.map render) = String.join (others.map render)) : lines = others := by
  have chars := congrArg String.toList same
  induction lines generalizing others with
  | nil =>
      cases others with
      | nil => rfl
      | cons other rest =>
          rw [toList_join_render] at chars
          simp at chars
  | cons line lines ih =>
      rw [toList_join_render] at chars
      cases others with
      | nil => simp at chars
      | cons other rest =>
          obtain ⟨cleanLine, cleanLines⟩ := List.forall_mem_cons.mp clean
          obtain ⟨cleanOther, cleanRest⟩ := List.forall_mem_cons.mp cleanToo
          rw [toList_join_render] at chars
          obtain ⟨first, behind⟩ := append_inj_of_stop cleanLine.unbroken cleanOther.unbroken
            (by simp) (by simp) chars
          obtain rfl := eq_of_chars cleanLine cleanOther first
          have rests := (List.cons.inj behind).2
          rw [ih rest cleanLines cleanRest (String.toList_inj.mp rests) rests]

end OutlineLine

/-- What an outline shows. -/
inductive OutlineTree where
  | node (text : String) (children : List OutlineTree)

namespace OutlineTree

mutual

def lines (depth : Nat) : OutlineTree → List OutlineLine
  | node text children => ⟨depth, text⟩ :: linesAll (depth + 1) children

def linesAll (depth : Nat) : List OutlineTree → List OutlineLine
  | [] => []
  | tree :: rest => tree.lines depth ++ linesAll depth rest

end

mutual

theorem depth_le_of_mem_lines (depth : Nat) (tree : OutlineTree) :
    ∀ line ∈ tree.lines depth, depth ≤ line.depth := by
  match tree with
  | node text children =>
      rw [lines, List.forall_mem_cons]
      refine ⟨Nat.le_refl depth, fun line member => ?_⟩
      exact Nat.le_of_succ_le (depth_le_of_mem_linesAll (depth + 1) children line member)

theorem depth_le_of_mem_linesAll (depth : Nat) (trees : List OutlineTree) :
    ∀ line ∈ linesAll depth trees, depth ≤ line.depth := by
  match trees with
  | [] => exact List.forall_mem_nil _
  | tree :: rest =>
      rw [linesAll, List.forall_mem_append]
      exact ⟨depth_le_of_mem_lines depth tree, depth_le_of_mem_linesAll depth rest⟩

end

theorem depth_head_linesAll (depth : Nat) (trees : List OutlineTree) :
    ∀ line ∈ (linesAll depth trees).head?, line.depth = depth := by
  cases trees with
  | nil => simp [linesAll]
  | cons tree rest =>
      cases tree
      simp [linesAll, lines]

theorem mem_linesAll {depth : Nat} {trees : List OutlineTree} {line : OutlineLine} :
    line ∈ linesAll depth trees ↔ ∃ tree ∈ trees, line ∈ tree.lines depth := by
  induction trees with
  | nil => simp [linesAll]
  | cons tree rest ih => simp [linesAll, ih]

/-- The lines of a tree's children are those that stand deeper than the tree, up to the first one
that does not. -/
theorem linesAll_injective (depth : Nat) (trees others : List OutlineTree)
    (same : linesAll depth trees = linesAll depth others) : trees = others := by
  match trees, others with
  | [], [] => rfl
  | [], node .. :: _ => simp [linesAll, lines] at same
  | node .. :: _, [] => simp [linesAll, lines] at same
  | node text children :: rest, node textToo childrenToo :: restToo =>
      have deeper : ∀ {children : List OutlineTree}, ∀ line ∈ linesAll (depth + 1) children,
          decide (depth < line.depth) = true := by
        intro children line member
        exact decide_eq_true (depth_le_of_mem_linesAll (depth + 1) children line member)
      have stops : ∀ {rest : List OutlineTree}, ∀ line ∈ (linesAll depth rest).head?,
          decide (depth < line.depth) = false := by
        intro rest line first
        rw [depth_head_linesAll depth rest line first]
        exact decide_eq_false (Nat.lt_irrefl depth)
      simp only [linesAll, lines, List.cons_append] at same
      obtain ⟨head, tail⟩ := List.cons.inj same
      obtain ⟨inner, outer⟩ := append_inj_of_stop deeper deeper stops stops tail
      rw [(OutlineLine.mk.inj head).2, linesAll_injective (depth + 1) children childrenToo inner,
        linesAll_injective depth rest restToo outer]

end OutlineTree

end Sipl
