import Mathlib.Data.List.Find
import Sipl.Run.Environment

namespace Sipl

/-! The scopes of an environment also stand in one row, the global one first, where each tells by
index in which scope names are looked up next and which one is current again when it is closed.  In
this form a scope may only be closed if it is the last of the row and not the global one. -/

/-- What must not happen to scopes and calls. -/
inductive Misuse where
  | globalScopeClosed
  | scopesOutOfOrder
  | noCallToLeave
  deriving DecidableEq

theorem Store.names_set_of_binds {store : Store} {name : String} {value : Value}
    (bound : store.binds name = true) :
    (store.set name value).map Prod.fst = store.map Prod.fst := by
  induction store with
  | nil => cases bound
  | cons entry rest ih =>
      obtain ⟨other, old⟩ := entry
      rw [set]
      split
      · next same => rw [same, List.map_cons, List.map_cons]
      · next different =>
          have further : binds rest name = true := by
            simpa [binds, get?, List.lookup_cons, beq_eq_false_iff_ne.mpr different] using bound
          rw [List.map_cons, ih further, List.map_cons]

structure ScopeSlot where
  store : Store
  /-- Where names are looked up next; nothing for the global scope and for those of calls. -/
  parent? : Option Nat
  restored : Nat
  deriving DecidableEq, Inhabited

namespace ScopeSlot

def names (slot : ScopeSlot) : List String := slot.store.map Prod.fst

def link (slot : ScopeSlot) : Option Nat × Nat := (slot.parent?, slot.restored)

def set (slot : ScopeSlot) (name : String) (value : Value) : ScopeSlot :=
  { slot with store := slot.store.set name value }

end ScopeSlot

structure ScopeArena where
  slots : List ScopeSlot := [⟨[], none, 0⟩]
  current : Nat := 0
  deriving DecidableEq

namespace ScopeArena

def add (arena : ScopeArena) (parent? : Option Nat) : ScopeArena :=
  ⟨arena.slots ++ [⟨[], parent?, arena.current⟩], arena.slots.length⟩

def push (arena : ScopeArena) : ScopeArena := arena.add (some arena.current)

def pushDetached (arena : ScopeArena) : ScopeArena := arena.add none

def pop (arena : ScopeArena) : Except Misuse ScopeArena :=
  if arena.current = 0 then
    .error .globalScopeClosed
  else if arena.current + 1 ≠ arena.slots.length then
    .error .scopesOutOfOrder
  else
    match arena.slots.getLast? with
    | none => .ok arena
    | some slot => .ok ⟨arena.slots.dropLast, slot.restored⟩

/-- The scopes that are looked up from one on.  The next one always stands in front of it. -/
def chainFrom (slots : List ScopeSlot) (index : Nat) : List Nat :=
  index ::
    match slots[index]?.bind ScopeSlot.parent? with
    | none => []
    | some parent => if parent < index then chainFrom slots parent else []
termination_by index

def chain (arena : ScopeArena) : List Nat := chainFrom arena.slots arena.current

def bindsAt (slots : List ScopeSlot) (name : String) (index : Nat) : Bool :=
  slots[index]?.any fun slot => slot.store.binds name

def ownerFrom (slots : List ScopeSlot) (name : String) (index : Nat) : Option Nat :=
  (chainFrom slots index).find? (bindsAt slots name)

/-- The nearest scope that binds a name. -/
def owner? (arena : ScopeArena) (name : String) : Option Nat :=
  ownerFrom arena.slots name arena.current

def lookup (arena : ScopeArena) (name : String) : Option Value :=
  (arena.owner? name).bind fun owner => arena.slots[owner]?.bind fun slot => slot.store.get? name

def assign (arena : ScopeArena) (name : String) (value : Value) : ScopeArena :=
  { arena with
    slots := arena.slots.modify ((arena.owner? name).getD arena.current) (·.set name value) }

variable {slots later : List ScopeSlot} {index : Nat} {name : String}

theorem self_mem_chainFrom : index ∈ chainFrom slots index := by
  rw [chainFrom]
  exact List.mem_cons_self

theorem le_of_mem_chainFrom {other : Nat} (member : other ∈ chainFrom slots index) :
    other ≤ index := by
  induction index using Nat.strongRecOn with
  | ind index ih =>
      rw [chainFrom] at member
      cases member with
      | head => exact Nat.le_refl _
      | tail _ further =>
          split at further
          · cases further
          · split at further
            · next front => exact Nat.le_trans (ih _ front further) (Nat.le_of_lt front)
            · cases further

/-- Only the links count. -/
theorem chainFrom_congr {others : List ScopeSlot}
    (links : others.map ScopeSlot.link = slots.map ScopeSlot.link) (index : Nat) :
    chainFrom others index = chainFrom slots index := by
  induction index using Nat.strongRecOn with
  | ind index ih =>
      have parents (row : List ScopeSlot) : row[index]?.bind ScopeSlot.parent? =
          (row.map ScopeSlot.link)[index]?.bind Prod.fst := by
        rw [List.getElem?_map, Option.bind_map]
        rfl
      rw [chainFrom, chainFrom, parents others, parents slots, links]
      split
      · rfl
      · split
        · next front => rw [ih _ front]
        · rfl

theorem chainFrom_append (inside : index < slots.length) :
    chainFrom (slots ++ later) index = chainFrom slots index := by
  induction index using Nat.strongRecOn with
  | ind index ih =>
      rw [chainFrom, chainFrom, List.getElem?_append_left inside]
      split
      · rfl
      · split
        · next front => rw [ih _ front (Nat.lt_trans front inside)]
        · rfl

theorem ownerFrom_append (inside : index < slots.length) :
    ownerFrom (slots ++ later) name index = ownerFrom slots name index := by
  rw [ownerFrom, chainFrom_append inside, ownerFrom]
  apply List.find?_congr
  intro other member
  have front := Nat.lt_of_le_of_lt (le_of_mem_chainFrom member) inside
  rw [bindsAt, List.getElem?_append_left front, bindsAt]

theorem owner_mem_chain {arena : ScopeArena} (owned : arena.owner? name = some index) :
    index ∈ arena.chain :=
  List.mem_of_find?_eq_some owned

theorem bindsAt_owner {arena : ScopeArena} (owned : arena.owner? name = some index) :
    bindsAt arena.slots name index = true :=
  List.find?_some owned

/-- The scope that is last opened is current. -/
def Latest (arena : ScopeArena) : Prop := arena.current + 1 = arena.slots.length

/-- Nothing but the values on the chain has changed, and the current scope may bind more names. -/
structure Grows (before after : ScopeArena) : Prop where
  current : after.current = before.current
  links : after.slots.map ScopeSlot.link = before.slots.map ScopeSlot.link
  others : ∀ index, index ≠ before.current →
    after.slots[index]?.map ScopeSlot.names = before.slots[index]?.map ScopeSlot.names
  elsewhere : ∀ index, index ∉ before.chain → after.slots[index]? = before.slots[index]?

/-- Nothing but the values on the chain has changed. -/
structure Keeps (before after : ScopeArena) : Prop extends Grows before after where
  here : after.slots[before.current]?.map ScopeSlot.names =
    before.slots[before.current]?.map ScopeSlot.names

namespace Grows

variable {before middle after : ScopeArena}

theorem refl (arena : ScopeArena) : arena.Grows arena :=
  ⟨rfl, rfl, fun _ _ => rfl, fun _ _ => rfl⟩

theorem chain (grows : before.Grows after) : after.chain = before.chain := by
  rw [ScopeArena.chain, grows.current, chainFrom_congr grows.links]
  rfl

theorem length (grows : before.Grows after) : after.slots.length = before.slots.length := by
  have lengths := congrArg List.length grows.links
  simpa using lengths

theorem trans (first : before.Grows middle) (second : middle.Grows after) :
    before.Grows after := by
  refine ⟨second.current.trans first.current, second.links.trans first.links, ?_, ?_⟩
  · intro index other
    rw [second.others index (by rwa [first.current]), first.others index other]
  · intro index outside
    rw [second.elsewhere index (by rwa [first.chain]), first.elsewhere index outside]

end Grows

namespace Keeps

variable {before middle after : ScopeArena}

theorem refl (arena : ScopeArena) : arena.Keeps arena := ⟨.refl arena, rfl⟩

theorem trans (first : before.Keeps middle) (second : middle.Keeps after) : before.Keeps after := by
  refine ⟨first.toGrows.trans second.toGrows, ?_⟩
  have here := second.here
  rw [first.current] at here
  exact here.trans first.here

theorem names (keeps : before.Keeps after) (index : Nat) :
    after.slots[index]?.map ScopeSlot.names = before.slots[index]?.map ScopeSlot.names := by
  by_cases same : index = before.current
  · rw [same]
    exact keeps.here
  · exact keeps.others index same

end Keeps

theorem links_modify_set (slots : List ScopeSlot) (target : Nat) (name : String) (value : Value) :
    (slots.modify target (·.set name value)).map ScopeSlot.link = slots.map ScopeSlot.link := by
  apply List.ext_getElem?
  intro index
  rw [List.getElem?_map, List.getElem?_map, List.getElem?_modify]
  cases slots[index]? with
  | none => rfl
  | some slot =>
      by_cases same : target = index
      · simp [same, ScopeSlot.link, ScopeSlot.set]
      · simp [same]

theorem names_modify_set {target : Nat} (bound : bindsAt slots name target = true) (value : Value)
    (index : Nat) :
    (slots.modify target (·.set name value))[index]?.map ScopeSlot.names =
      slots[index]?.map ScopeSlot.names := by
  rw [List.getElem?_modify]
  by_cases same : target = index
  · subst same
    cases found : slots[target]? with
    | none => rfl
    | some slot =>
        have here : slot.store.binds name = true := by simpa [bindsAt, found] using bound
        simp [ScopeSlot.names, ScopeSlot.set, Store.names_set_of_binds here]
  · simp [same]

/-- A value may be changed in a scope on the chain that has one for the name, or in the current
scope. -/
theorem grows_set {arena : ScopeArena} {target : Nat} (visible : target ∈ arena.chain)
    (known : bindsAt arena.slots name target = true ∨ target = arena.current) (value : Value) :
    arena.Grows { arena with slots := arena.slots.modify target (·.set name value) } := by
  refine ⟨rfl, links_modify_set .., ?_, ?_⟩
  · intro index other
    cases known with
    | inl bound => exact names_modify_set bound value index
    | inr same =>
        have apart : target ≠ index := same ▸ other.symm
        exact congrArg (Option.map _) (List.getElem?_modify_ne _ _ apart)
  · intro index outside
    apply List.getElem?_modify_ne
    intro same
    exact outside (same ▸ visible)

theorem grows_assign (arena : ScopeArena) (name : String) (value : Value) :
    arena.Grows (arena.assign name value) := by
  rw [assign]
  cases owned : arena.owner? name with
  | some owner => exact grows_set (owner_mem_chain owned) (.inl (bindsAt_owner owned)) value
  | none => exact grows_set self_mem_chainFrom (.inr rfl) value

theorem chain_push {arena : ScopeArena} (latest : arena.Latest) :
    arena.push.chain = arena.slots.length :: arena.chain := by
  have inside : arena.current < arena.slots.length := Nat.lt_of_succ_le (Nat.le_of_eq latest)
  have own : (arena.slots ++ [⟨[], some arena.current, arena.current⟩])[arena.slots.length]? =
      some ⟨[], some arena.current, arena.current⟩ := by simp
  rw [chain, push, add, chainFrom, own]
  simp only [Option.bind_some, if_pos inside]
  rw [chainFrom_append inside, chain]

namespace Grows

variable {arena after : ScopeArena} (grows : arena.push.Grows after)

include grows

theorem length_push : after.slots.length = arena.slots.length + 1 := by
  rw [grows.length]
  simp [push, add]

/-- Closing the scope of a block brings back the scope that was current in front of it. -/
theorem pop_push (latest : arena.Latest) :
    after.pop = .ok ⟨after.slots.dropLast, arena.current⟩ := by
  have current : after.current = arena.slots.length := grows.current
  have deeper : arena.slots.length ≠ 0 := by
    unfold Latest at latest
    omega
  have linked : after.slots[arena.slots.length]?.map ScopeSlot.link =
      some (some arena.current, arena.current) := by
    rw [← List.getElem?_map, grows.links]
    simp [push, add, ScopeSlot.link]
  obtain ⟨slot, known, same⟩ := Option.map_eq_some_iff.mp linked
  have last : after.slots.getLast? = some slot := by
    rw [List.getLast?_eq_getElem?, grows.length_push]
    exact known
  have restored : slot.restored = arena.current := congrArg Prod.snd same
  rw [pop, current, grows.length_push, if_neg deeper, if_neg (by simp), last, ← restored]

/-- Of a block whose scope is closed nothing stays but values on the chain. -/
theorem keeps_dropLast (latest : arena.Latest) :
    arena.Keeps ⟨after.slots.dropLast, arena.current⟩ := by
  have length := grows.length_push
  have inside (index : Nat) (front : index < arena.slots.length) :
      after.slots.dropLast[index]? = after.slots[index]? ∧
        arena.push.slots[index]? = arena.slots[index]? := by
    rw [List.getElem?_dropLast, if_pos (by omega), push, add]
    exact ⟨rfl, List.getElem?_append_left front⟩
  have behind (index : Nat) (outside : ¬ index < arena.slots.length) :
      after.slots.dropLast[index]? = arena.slots[index]? := by
    rw [List.getElem?_dropLast, if_neg (by omega), List.getElem?_eq_none (by omega)]
  have names (index : Nat) : after.slots.dropLast[index]?.map ScopeSlot.names =
      arena.slots[index]?.map ScopeSlot.names := by
    by_cases front : index < arena.slots.length
    · rw [(inside index front).1, ← (inside index front).2]
      exact grows.others index (Nat.ne_of_lt front)
    · rw [behind index front]
  refine ⟨⟨rfl, ?_, fun index _ => names index, ?_⟩, names _⟩
  · rw [List.map_dropLast, grows.links, push, add, List.map_append]
    exact List.dropLast_concat
  · intro index apart
    by_cases front : index < arena.slots.length
    · rw [(inside index front).1, ← (inside index front).2]
      apply grows.elsewhere
      rw [chain_push latest]
      exact List.not_mem_cons_of_ne_of_not_mem (Nat.ne_of_lt front) apart
    · exact behind index front

end Grows

theorem modify_append_left {change : ScopeSlot → ScopeSlot} (inside : index < slots.length) :
    (slots ++ later).modify index change = slots.modify index change ++ later := by
  apply List.ext_getElem?
  intro other
  by_cases front : other < slots.length
  · rw [List.getElem?_modify, List.getElem?_append_left front,
      List.getElem?_append_left (by simpa using front), List.getElem?_modify]
  · have apart : index ≠ other := by omega
    rw [List.getElem?_modify_ne _ _ apart, List.getElem?_append_right (by omega),
      List.getElem?_append_right (by simpa using front), List.length_modify]

theorem modify_concat {slot : ScopeSlot} {change : ScopeSlot → ScopeSlot} :
    (slots ++ [slot]).modify slots.length change = slots ++ [change slot] := by
  induction slots with
  | nil => rfl
  | cons first rest ih => rw [List.cons_append, List.length_cons, List.modify_succ_cons, ih]; rfl

end ScopeArena

namespace Environment

/-- The row of some scopes above the global one. -/
def slotsFrom (globals : Store) : List Scope → List ScopeSlot
  | [] => [⟨globals, none, 0⟩]
  | scope :: outer =>
    slotsFrom globals outer ++
      [⟨scope.store, if scope.detached then none else some outer.length, outer.length⟩]

def arena (env : Environment) : ScopeArena := ⟨slotsFrom env.globals env.inner, env.inner.length⟩

theorem length_slotsFrom (globals : Store) (scopes : List Scope) :
    (slotsFrom globals scopes).length = scopes.length + 1 := by
  cases scopes with
  | nil => rfl
  | cons scope outer => rw [slotsFrom, List.length_append, length_slotsFrom]; rfl

theorem latest_arena (env : Environment) : env.arena.Latest :=
  (length_slotsFrom env.globals env.inner).symm

theorem arena_push (env : Environment) : env.push.arena = env.arena.push := by
  simp [push, arena, ScopeArena.push, ScopeArena.add, slotsFrom, length_slotsFrom]

theorem arena_pushDetached (env : Environment) :
    env.pushDetached.arena = env.arena.pushDetached := by
  simp [pushDetached, arena, ScopeArena.pushDetached, ScopeArena.add, slotsFrom, length_slotsFrom]

theorem arena_pop {env : Environment} (deeper : env.arena.current ≠ 0) :
    env.arena.pop = .ok env.pop.arena := by
  obtain ⟨inner, globals⟩ := env
  cases inner with
  | nil => exact absurd rfl deeper
  | cons scope outer =>
      simp [ScopeArena.pop, arena, pop, slotsFrom, length_slotsFrom]

open ScopeArena

theorem getElem?_slotsFrom_cons (globals : Store) (scope : Scope) (outer : List Scope) :
    (slotsFrom globals (scope :: outer))[outer.length + 1]? =
      some ⟨scope.store, if scope.detached then none else some outer.length, outer.length⟩ := by
  rw [slotsFrom, ← length_slotsFrom globals outer]
  simp

theorem owner_lt {globals : Store} {outer : List Scope} {name : String} {owner : Nat}
    (owned : ownerFrom (slotsFrom globals outer) name outer.length = some owner) :
    owner < (slotsFrom globals outer).length := by
  have near := le_of_mem_chainFrom (List.mem_of_find?_eq_some owned)
  have length := length_slotsFrom globals outer
  omega

theorem ownerFrom_slotsFrom_nil (globals : Store) (name : String) :
    ownerFrom (slotsFrom globals []) name 0 = if globals.binds name then some 0 else none := by
  rw [ownerFrom, chainFrom]
  simp [slotsFrom, bindsAt]

theorem ownerFrom_slotsFrom_cons (globals : Store) (name : String) (scope : Scope)
    (outer : List Scope) :
    ownerFrom (slotsFrom globals (scope :: outer)) name (outer.length + 1) =
      if scope.store.binds name then some (outer.length + 1)
      else if scope.detached then none
      else ownerFrom (slotsFrom globals outer) name outer.length := by
  have length := length_slotsFrom globals outer
  have own := getElem?_slotsFrom_cons globals scope outer
  have outside : ownerFrom (slotsFrom globals (scope :: outer)) name outer.length =
      ownerFrom (slotsFrom globals outer) name outer.length :=
    ownerFrom_append (by omega)
  rw [← outside, ownerFrom, chainFrom, List.find?_cons, bindsAt, own, ownerFrom]
  simp only [Option.any_some, Option.bind_some]
  cases scope.store.binds name with
  | true => rfl
  | false => cases scope.detached <;> simp

theorem lookupFrom_eq (globals : Store) (name : String) (scopes : List Scope) :
    lookupFrom globals name scopes =
      (ownerFrom (slotsFrom globals scopes) name scopes.length).bind fun owner =>
        (slotsFrom globals scopes)[owner]?.bind fun slot => slot.store.get? name := by
  induction scopes with
  | nil =>
      rw [lookupFrom, List.length_nil, ownerFrom_slotsFrom_nil, Store.binds]
      cases known : globals.get? name <;> simp [slotsFrom, known]
  | cons scope outer ih =>
      rw [List.length_cons, ownerFrom_slotsFrom_cons, lookupFrom, Store.binds]
      cases known : scope.store.get? name with
      | some value => simp [getElem?_slotsFrom_cons, known]
      | none =>
          cases scope.detached with
          | true => rfl
          | false =>
              simp only [Bool.false_eq_true, if_false, Option.isSome_none]
              rw [ih]
              apply Option.bind_congr
              intro owner owned
              rw [slotsFrom, List.getElem?_append_left (owner_lt owned)]

/-- Names are looked up alike. -/
theorem lookup_arena (env : Environment) (name : String) :
    env.arena.lookup name = env.lookup name :=
  (lookupFrom_eq env.globals name env.inner).symm

/-- The row with one more scope inside of it. -/
def cover (scope : Scope) (arena : ScopeArena) : ScopeArena :=
  ⟨arena.slots ++
    [⟨scope.store, if scope.detached then none else some arena.current, arena.current⟩],
    arena.current + 1⟩

/-- Rebinding a name changes its value in the scope that owns it. -/
theorem arena_rebindFrom? (globals : Store) (name : String) (value : Value) (scopes : List Scope) :
    (rebindFrom? globals name value scopes).map arena =
      (ownerFrom (slotsFrom globals scopes) name scopes.length).map fun owner =>
        ⟨(slotsFrom globals scopes).modify owner (·.set name value), scopes.length⟩ := by
  induction scopes with
  | nil =>
      rw [List.length_nil, ownerFrom_slotsFrom_nil, rebindFrom?]
      cases globals.binds name <;> rfl
  | cons scope outer ih =>
      rw [List.length_cons, ownerFrom_slotsFrom_cons, rebindFrom?]
      have length := length_slotsFrom globals outer
      cases scope.store.binds name with
      | true =>
          simp only [if_true, Option.map_some, arena, slotsFrom, List.length_cons]
          rw [← length, modify_concat]
          rfl
      | false =>
          cases scope.detached with
          | true => rfl
          | false =>
              -- The owner is further out: the scope around it is put back in both forms.
              have covered : ((rebindFrom? globals name value outer).map fun env =>
                  { env with inner := scope :: env.inner }).map arena =
                    ((rebindFrom? globals name value outer).map arena).map (cover scope) := by
                rw [Option.map_map, Option.map_map]
                rfl
              simp only [Bool.false_eq_true, if_false]
              rw [covered, ih, Option.map_map]
              apply Option.map_congr
              intro owner owned
              rw [slotsFrom, modify_append_left (owner_lt owned)]
              rfl

theorem arena_bindHere (env : Environment) (name : String) (value : Value) :
    (env.bindHere name value).arena =
      { env.arena with slots := env.arena.slots.modify env.arena.current (·.set name value) } := by
  obtain ⟨inner, globals⟩ := env
  cases inner with
  | nil => rfl
  | cons scope outer =>
      simp only [bindHere, arena, slotsFrom, List.length_cons]
      rw [← length_slotsFrom globals outer, modify_concat]
      rfl

theorem arena_assign (env : Environment) (name : String) (value : Value) :
    (env.assign name value).arena = env.arena.assign name value := by
  have rebound := arena_rebindFrom? env.globals name value env.inner
  rw [assign]
  cases found : rebindFrom? env.globals name value env.inner with
  | none =>
      rw [found] at rebound
      have free : env.arena.owner? name = none := Option.map_eq_none_iff.mp rebound.symm
      rw [Option.getD_none, arena_bindHere, ScopeArena.assign, free, Option.getD_none]
  | some changed =>
      rw [found] at rebound
      obtain ⟨owner, owned, same⟩ := Option.map_eq_some_iff.mp rebound.symm
      have known : env.arena.owner? name = some owner := owned
      rw [Option.getD_some, ScopeArena.assign, known, Option.getD_some]
      exact same.symm

end Environment

end Sipl
