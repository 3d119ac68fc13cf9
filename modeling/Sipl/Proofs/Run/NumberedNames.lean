import Mathlib.Data.List.Nodup
import Sipl.NameTable
import Sipl.Proofs.Run.FinalBindings

namespace Sipl

open Reference

namespace NameTable

variable {table later : NameTable} {name text : String}

theorem prefix_intern (table : NameTable) (text : String) :
    table.names <+: (table.intern text).2.names := by
  rw [intern]
  split
  · exact List.prefix_refl table.names
  · exact List.prefix_append table.names [text]

theorem mem_intern (table : NameTable) (text : String) : text ∈ (table.intern text).2.names := by
  rw [intern]
  split
  · next found =>
      obtain ⟨inside, same, _⟩ := List.idxOf?_eq_some_iff.mp found
      exact List.mem_of_getElem same
  · exact List.mem_append_right table.names List.mem_cons_self

theorem prefix_internAll (table : NameTable) (texts : List String) :
    table.names <+: (table.internAll texts).names := by
  rw [internAll]
  induction texts generalizing table with
  | nil => exact List.prefix_refl table.names
  | cons text rest ih => exact (table.prefix_intern text).trans (ih (table.intern text).2)

theorem mem_internAll {texts : List String} (member : text ∈ texts) :
    text ∈ (table.internAll texts).names := by
  induction texts generalizing table with
  | nil => cases member
  | cons first rest ih =>
      rcases List.mem_cons.mp member with rfl | member
      · exact (prefix_internAll _ rest).subset (table.mem_intern text)
      · exact ih member

theorem internAll_append (table : NameTable) (texts more : List String) :
    table.internAll (texts ++ more) = (table.internAll texts).internAll more :=
  List.foldl_append

/-- A known text is found under its number, whatever was numbered since. -/
theorem lookup_intern (known : name ∈ table.names) (grown : table.names <+: later.names) :
    later.lookup (table.intern name).1 = name := by
  rw [intern]
  split
  · next number found =>
      obtain ⟨inside, same, _⟩ := List.idxOf?_eq_some_iff.mp found
      rw [lookup, List.prefix_iff_getElem?.mp grown number inside, same, Option.getD_some]
  · next absent => exact absurd known (List.idxOf?_eq_none_iff.mp absent)

/-- The entries of a store under the numbers of their names. -/
def numbered (table : NameTable) (store : Store) : List (Nat × Value) :=
  store.map fun entry => ((table.intern entry.1).1, entry.2)

/-- The entries with the names that their numbers stand for. -/
def named (table : NameTable) (entries : List (Nat × Value)) : Store :=
  entries.map fun entry => (table.lookup entry.1, entry.2)

theorem named_numbered {store : Store} (known : ∀ entry ∈ store, entry.1 ∈ table.names)
    (grown : table.names <+: later.names) : later.named (table.numbered store) = store := by
  rw [named, numbered, List.map_map]
  refine (List.map_congr_left fun entry member => ?_).trans (List.map_id store)
  exact Prod.ext (lookup_intern (known entry member) grown) rfl

end NameTable

namespace Bindings

variable {store others : Store}

/-- A store with one entry for each name is bound as it is. -/
theorem perm_ofList (distinct : store.Distinct) : (ofList store).entries.Perm store := by
  have listed : Lists (ofList store) store.get? := lists_ofList distinct fun _ => rfl
  rw [List.perm_ext_iff_of_nodup listed.nodup (List.Nodup.of_map Prod.fst distinct)]
  intro entry
  rw [listed.complete, Store.mem_iff distinct]

/-- The order in which the names are bound makes no difference. -/
theorem ofList_eq_of_perm (distinct : store.Distinct) (perm : others.Perm store) :
    ofList others = ofList store := by
  have distinctToo : others.Distinct := (perm.map Prod.fst).nodup_iff.mpr distinct
  have listed : Lists (ofList others) store.get? := by
    refine lists_ofList distinctToo fun name => Option.ext fun value => ?_
    rw [← Store.mem_iff distinctToo, perm.mem_iff, Store.mem_iff distinct]
  exact listed.unique (lists_ofList distinct fun _ => rfl)

/-- Numbered entries have numbers of their own, and naming them again loses nothing. -/
theorem ofList_named {table later : NameTable} {listed : List (Nat × Value)}
    (distinct : store.Distinct) (known : ∀ entry ∈ store, entry.1 ∈ table.names)
    (grown : table.names <+: later.names) (listing : listed.Perm (table.numbered store)) :
    (listed.map Prod.fst).Nodup ∧ ofList (later.named listed) = ofList store := by
  have perm : (later.named listed).Perm (later.named (table.numbered store)) := listing.map _
  rw [NameTable.named_numbered known grown] at perm
  refine ⟨?_, ofList_eq_of_perm distinct perm⟩
  -- Entries with one number would have one name.
  have names : (later.named listed).map Prod.fst = (listed.map Prod.fst).map later.lookup := by
    rw [NameTable.named, List.map_map, List.map_map]
    rfl
  have nodup : ((later.named listed).map Prod.fst).Nodup :=
    (perm.map Prod.fst).nodup_iff.mpr distinct
  rw [names] at nodup
  exact List.Nodup.of_map later.lookup nodup

end Bindings

end Sipl
