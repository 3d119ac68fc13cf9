import Sipl.Proofs.Run.Scopes
import Sipl.Run.Bindings

namespace Sipl

open Reference

namespace Bindings

def Ordered (entries : List (String × Value)) : Prop :=
  entries.Pairwise fun first second => first.1 < second.1

theorem mem_insertEntry {entries : List (String × Value)} {name : String} {value : Value}
    (ordered : Ordered entries) (entry : String × Value) :
    entry ∈ insertEntry name value entries ↔
      entry = (name, value) ∨ entry.1 ≠ name ∧ entry ∈ entries := by
  induction entries with
  | nil => simp [insertEntry]
  | cons first rest ih =>
      obtain ⟨other, bound⟩ := first
      obtain ⟨above, ordered⟩ := List.pairwise_cons.mp ordered
      have later : ∀ found ∈ rest, found.1 ≠ other := fun found member same =>
        String.lt_irrefl other (same ▸ above found member)
      rw [insertEntry]
      split
      · next same =>
          subst same
          constructor
          · intro member
            rcases List.mem_cons.mp member with found | member
            · exact .inl found
            · exact .inr ⟨later entry member, List.mem_cons_of_mem _ member⟩
          · rintro (rfl | ⟨different, member⟩)
            · exact List.mem_cons_self
            · rcases List.mem_cons.mp member with rfl | member
              · exact absurd rfl different
              · exact List.mem_cons_of_mem _ member
      · next different =>
          split
          · next before =>
              have behind : ∀ found ∈ (other, bound) :: rest, found.1 ≠ name := by
                intro found member same
                rcases List.mem_cons.mp member with rfl | member
                · exact different same.symm
                · exact String.lt_asymm before (same ▸ above found member)
              constructor
              · intro member
                rcases List.mem_cons.mp member with found | member
                · exact .inl found
                · exact .inr ⟨behind entry member, member⟩
              · rintro (rfl | ⟨_, member⟩)
                · exact List.mem_cons_self
                · exact List.mem_cons_of_mem _ member
          · rw [List.mem_cons, ih ordered, List.mem_cons]
            constructor
            · rintro (rfl | found | ⟨unlike, member⟩)
              · exact .inr ⟨Ne.symm different, .inl rfl⟩
              · exact .inl found
              · exact .inr ⟨unlike, .inr member⟩
            · rintro (found | ⟨unlike, found | member⟩)
              · exact .inr (.inl found)
              · exact .inl found
              · exact .inr (.inr ⟨unlike, member⟩)

theorem ordered_insertEntry {entries : List (String × Value)} (name : String) (value : Value)
    (ordered : Ordered entries) : Ordered (insertEntry name value entries) := by
  induction entries with
  | nil => exact List.pairwise_singleton ..
  | cons first rest ih =>
      obtain ⟨other, bound⟩ := first
      obtain ⟨above, orderedRest⟩ := List.pairwise_cons.mp ordered
      rw [insertEntry]
      split
      · next same =>
          subst same
          exact List.pairwise_cons.mpr ⟨above, orderedRest⟩
      · next different =>
          split
          · next before =>
              refine List.pairwise_cons.mpr ⟨?_, ordered⟩
              intro found member
              rcases List.mem_cons.mp member with rfl | member
              · exact before
              · exact String.lt_trans before (above found member)
          · next after =>
              have behind : other < name :=
                Std.lt_of_le_of_ne (String.not_lt.mp after) (Ne.symm different)
              refine List.pairwise_cons.mpr ⟨?_, ih orderedRest⟩
              intro found member
              rcases (mem_insertEntry orderedRest found).mp member with rfl | ⟨_, member⟩
              · exact behind
              · exact above found member

/-- Entries of different names are all there, whatever was bound before under other names. -/
theorem mem_foldl_insert {entries : List (String × Value)} {bindings : Bindings}
    (ordered : Ordered bindings.entries) (distinct : Store.Distinct entries) :
    Ordered
        (entries.foldl (fun bindings entry => bindings.insert entry.1 entry.2) bindings).entries ∧
      ∀ entry,
        entry ∈
            (entries.foldl (fun bindings entry => bindings.insert entry.1 entry.2)
              bindings).entries ↔
          entry ∈ entries ∨ entry.1 ∉ entries.map Prod.fst ∧ entry ∈ bindings.entries := by
  induction entries generalizing bindings with
  | nil => simpa using ordered
  | cons first rest ih =>
      obtain ⟨fresh, distinct⟩ := List.nodup_cons.mp distinct
      have orderedFirst : Ordered (bindings.insert first.1 first.2).entries :=
        ordered_insertEntry first.1 first.2 ordered
      obtain ⟨orderedAll, members⟩ := ih orderedFirst distinct
      refine ⟨orderedAll, fun entry => ?_⟩
      have inserted : entry ∈ (bindings.insert first.1 first.2).entries ↔
          entry = first ∨ entry.1 ≠ first.1 ∧ entry ∈ bindings.entries :=
        mem_insertEntry ordered entry
      rw [List.foldl_cons, members, inserted, List.mem_cons, List.map_cons, List.mem_cons]
      constructor
      · rintro (member | ⟨absent, rfl | ⟨unlike, member⟩⟩)
        · exact .inl (.inr member)
        · exact .inl (.inl rfl)
        · exact .inr ⟨by simp [unlike, absent], member⟩
      · rintro ((rfl | member) | ⟨absent, member⟩)
        · exact .inr ⟨fresh, .inl rfl⟩
        · exact .inl member
        · obtain ⟨unlike, absent⟩ := not_or.mp absent
          exact .inr ⟨absent, .inr ⟨unlike, member⟩⟩

end Bindings

theorem Store.mem_iff {store : Store} (distinct : store.Distinct) (name : String)
    (value : Value) : (name, value) ∈ store ↔ store.get? name = some value := by
  induction store with
  | nil => simp [get?]
  | cons entry rest ih =>
      obtain ⟨other, bound⟩ := entry
      obtain ⟨fresh, distinct⟩ := List.nodup_cons.mp distinct
      by_cases same : name = other
      · subst same
        have absent : (name, value) ∉ rest := fun member =>
          fresh (List.mem_map.mpr ⟨_, member, rfl⟩)
        simp [get?, absent, eq_comm]
      · have tail := ih distinct
        rw [get?] at tail ⊢
        simp [List.lookup_cons, same, beq_eq_false_iff_ne.mpr same, tail]

theorem Bindings.lists_ofList {store : Store} {names : Names}
    (distinct : store.Distinct) (same : ∀ name, store.get? name = names name) :
    Lists (ofList store) names := by
  obtain ⟨ordered, members⟩ :=
    mem_foldl_insert (by exact List.Pairwise.nil : Ordered empty.entries) distinct
  refine ⟨ordered, fun name value => ?_⟩
  rw [← same, ← Store.mem_iff distinct]
  exact (members (name, value)).trans (by simp [empty])

theorem Reference.Lists.nodup {bindings : Bindings} {names : Names}
    (listed : Lists bindings names) : bindings.entries.Nodup := by
  refine listed.ordered.imp fun {one other} before same => ?_
  exact String.lt_irrefl _ (same ▸ before)

/-- A map is listed in one way only. -/
theorem Reference.Lists.unique {first second : Bindings} {names : Names}
    (listed : Lists first names) (again : Lists second names) : first = second := by
  have perm : first.entries.Perm second.entries := by
    rw [List.perm_ext_iff_of_nodup listed.nodup again.nodup]
    intro entry
    exact (listed.complete _ _).trans (again.complete _ _).symm
  have equal : first.entries = second.entries := by
    refine perm.eq_of_pairwise ?_ listed.ordered again.ordered
    intro one other _ _ before after
    exact absurd after (String.lt_asymm before)
  exact congrArg Bindings.mk equal

end Sipl
