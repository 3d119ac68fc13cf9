import Sipl.Proofs.Run.ScopeHistory
import Sipl.Proofs.Run.StoredAgreement

namespace Sipl

namespace ScopeArena

/-- A scope in which names are looked up, starting from another one. -/
inductive Outward (slots : List ScopeSlot) : Nat → Nat → Prop where
  | here (index : Nat) : Outward slots index index
  | further {index parent outer : Nat} {slot : ScopeSlot} (found : slots[index]? = some slot)
      (link : slot.parent? = some parent) (beyond : Outward slots parent outer) :
      Outward slots index outer

structure WellLinked (arena : ScopeArena) : Prop where
  latest : arena.Latest
  global : arena.slots[0]?.map ScopeSlot.parent? = some none
  above : ∀ index slot, arena.slots[index + 1]? = some slot →
    slot.restored = index ∧ (slot.parent? = none ∨ slot.parent? = some index)
  single : ∀ name start inner outer,
    Outward arena.slots start inner → bindsAt arena.slots name inner = true →
    Outward arena.slots start outer → bindsAt arena.slots name outer = true → inner = outer

/-- Where names are looked up next stands in front. -/
def LinkedForward (slots : List ScopeSlot) : Prop :=
  ∀ (index : Nat) (slot : ScopeSlot) (parent : Nat), slots[index]? = some slot →
    slot.parent? = some parent → parent < index

variable {slots others : List ScopeSlot} {slot : ScopeSlot} {name : String}
  {index start outer : Nat}

namespace Outward

theorem le (forward : LinkedForward slots) (outward : Outward slots start outer) :
    outer ≤ start := by
  induction outward with
  | here => exact Nat.le_refl _
  | further found link _ ih =>
      have front := forward _ _ _ found link
      omega

theorem eq_of_missing (missing : slots[start]? = none) (outward : Outward slots start outer) :
    outer = start := by
  cases outward with
  | here => rfl
  | further found => rw [missing] at found; cases found

/-- Only the links count. -/
theorem of_links (links : others.map ScopeSlot.link = slots.map ScopeSlot.link)
    (outward : Outward slots start outer) : Outward others start outer := by
  induction outward with
  | here => exact .here _
  | @further index parent _ slot found link _ ih =>
      have same : others[index]?.map ScopeSlot.link = some slot.link := by
        rw [← List.getElem?_map, links, List.getElem?_map, found, Option.map_some]
      obtain ⟨other, stands, linked⟩ := Option.map_eq_some_iff.mp same
      have parents : other.parent? = slot.parent? := congrArg Prod.fst linked
      exact .further stands (parents.trans link) ih

theorem of_front (starts : others <+: slots) (outward : Outward others start outer) :
    Outward slots start outer := by
  induction outward with
  | here => exact .here _
  | further found link _ ih =>
      have known := Arena.getElem?_of_prefix starts found
      exact .further known link ih

theorem of_append {later : List ScopeSlot} (forward : LinkedForward slots)
    (inside : start < slots.length) (outward : Outward (slots ++ later) start outer) :
    Outward slots start outer := by
  induction outward with
  | here => exact .here _
  | further found link _ ih =>
      rw [List.getElem?_append_left inside] at found
      have front := forward _ _ _ found link
      exact .further found link (ih (Nat.lt_trans front inside))

/-- The scopes there were are reached with the last one as from its parent, and else as before. -/
theorem of_concat (forward : LinkedForward slots)
    (near : ∀ parent ∈ slot.parent?, parent < slots.length)
    (outward : Outward (slots ++ [slot]) start outer) (front : outer < slots.length) :
    (start < slots.length ∧ Outward slots start outer) ∨
      (start = slots.length ∧ ∃ parent ∈ slot.parent?, Outward slots parent outer) := by
  by_cases inside : start < slots.length
  · exact .inl ⟨inside, outward.of_append forward inside⟩
  · cases outward with
    | here => exact absurd front inside
    | @further _ parent _ known found link beyond =>
        have within := (List.getElem?_eq_some_iff.mp found).1
        rw [List.length_append, List.length_singleton] at within
        obtain rfl : start = slots.length := by omega
        obtain rfl : slot = known := by simpa using found
        exact .inr ⟨rfl, parent, link, beyond.of_append forward (near parent link)⟩

end Outward

theorem lt_of_bindsAt (bound : bindsAt slots name index = true) : index < slots.length := by
  rw [bindsAt, Option.any_eq_true] at bound
  obtain ⟨slot, found, _⟩ := bound
  exact (List.getElem?_eq_some_iff.mp found).1

theorem bindsAt_of_front (starts : others <+: slots) (bound : bindsAt others name index = true) :
    bindsAt slots name index = true := by
  rw [bindsAt, Option.any_eq_true] at bound ⊢
  obtain ⟨slot, found, binds⟩ := bound
  exact ⟨slot, Arena.getElem?_of_prefix starts found, binds⟩

/-- A scope that has been opened binds nothing. -/
theorem bindsAt_concat (unbound : slot.store = []) (name : String) (index : Nat) :
    bindsAt (slots ++ [slot]) name index = bindsAt slots name index := by
  rw [bindsAt, bindsAt]
  by_cases front : index < slots.length
  · rw [List.getElem?_append_left front]
  · rw [List.getElem?_append_right (by omega), List.getElem?_eq_none (Nat.le_of_not_lt front)]
    cases found : [slot][index - slots.length]? with
    | none => rfl
    | some opened =>
        obtain rfl := List.mem_singleton.mp (List.mem_of_getElem? found)
        rw [Option.any_some, unbound]
        rfl

/-- The search for the owner of a name ends with the first scope that binds it. -/
theorem findOwner_ok (forward : LinkedForward slots) (name : String)
    (inside : start < slots.length) :
    ∃ owner?, findOwner slots name start = .ok owner? ∧
      (∀ owner ∈ owner?, Outward slots start owner ∧ bindsAt slots name owner = true) ∧
      (owner? = none → ∀ outer, Outward slots start outer → bindsAt slots name outer = false) := by
  induction start using Nat.strongRecOn with
  | ind start ih =>
      have found := List.getElem?_eq_getElem inside
      generalize slots[start] = slot at found
      have here : bindsAt slots name start = slot.store.binds name := by
        rw [bindsAt, found, Option.any_some]
      rw [findOwner, found]
      cases binds : slot.store.binds name with
      | true =>
          refine ⟨some start, by simp only [binds, if_true], ?_, ?_⟩
          · rintro owner ⟨⟩
            exact ⟨.here start, here.trans binds⟩
          · intro missing
            cases missing
      | false =>
          cases link : slot.parent? with
          | none =>
              refine ⟨none, by simp [binds, link], ?_, fun _ outer outward => ?_⟩
              · intro owner owned
                cases owned
              · cases outward with
                | here => exact here.trans binds
                | further known linked =>
                    cases Option.some.inj (found.symm.trans known)
                    cases link.symm.trans linked
          | some parent =>
              have front := forward _ _ _ found link
              obtain ⟨owner?, searched, bound, free⟩ := ih parent front (Nat.lt_trans front inside)
              refine ⟨owner?, by simpa [binds, link, front] using searched, ?_, ?_⟩
              · intro owner owned
                exact ⟨.further found link (bound owner owned).1, (bound owner owned).2⟩
              · intro none outer outward
                cases outward with
                | here => exact here.trans binds
                | further known linked beyond =>
                    cases Option.some.inj (found.symm.trans known)
                    cases Option.some.inj (link.symm.trans linked)
                    exact free none outer beyond

namespace WellLinked

variable {arena after : ScopeArena} {value : Value}

theorem forward (linked : arena.WellLinked) : LinkedForward arena.slots := by
  intro index slot parent found link
  cases index with
  | zero =>
      have global := linked.global
      rw [found, Option.map_some, link] at global
      cases global
  | succ index =>
      obtain ⟨_, apart | near⟩ := linked.above index slot found
      · cases apart.symm.trans link
      · cases near.symm.trans link
        exact Nat.lt_succ_self _

theorem inside (linked : arena.WellLinked) : arena.current < arena.slots.length :=
  Nat.lt_of_succ_le (Nat.le_of_eq linked.latest)

/-- Names are looked up in the last scope only when it is the one to start from. -/
theorem eq_current (linked : arena.WellLinked) (outward : Outward arena.slots start arena.current) :
    start = arena.current := by
  by_cases within : start < arena.slots.length
  · have near := outward.le linked.forward
    have latest := linked.latest
    rw [Latest] at latest
    omega
  · exact (outward.eq_of_missing (List.getElem?_eq_none (Nat.le_of_not_lt within))).symm

/-- There is one scope at most that owns a name, and it is found. -/
theorem findOwner_iff (linked : arena.WellLinked) (name : String)
    (within : start < arena.slots.length) :
    ∃ owner?, findOwner arena.slots name start = .ok owner? ∧
      ∀ outer, owner? = some outer ↔
        Outward arena.slots start outer ∧ bindsAt arena.slots name outer = true := by
  obtain ⟨owner?, searched, bound, free⟩ := findOwner_ok linked.forward name within
  refine ⟨owner?, searched, fun outer => ⟨bound outer, ?_⟩⟩
  rintro ⟨outward, binds⟩
  cases owner? with
  | none =>
      rw [free rfl outer outward] at binds
      cases binds
  | some owner =>
      obtain ⟨near, owns⟩ := bound owner rfl
      rw [linked.single name start owner outer near owns outward binds]

end WellLinked

theorem wellLinked_start : WellLinked {} := by
  have missing (index : Nat) : (ScopeArena.slots {})[index + 1]? = none := rfl
  refine ⟨rfl, rfl, fun index slot found => (by rw [missing] at found; cases found), ?_⟩
  intro name start inner outer near _ far _
  have alone {other : Nat} (outward : Outward (ScopeArena.slots {}) start other) :
      other = start := by
    cases start with
    | succ start => exact outward.eq_of_missing (missing start)
    | zero =>
        cases outward with
        | here => rfl
        | further found link => cases found; cases link
  exact (alone near).trans (alone far).symm

namespace WellLinked

variable {arena after : ScopeArena} {value : Value}

theorem add (linked : arena.WellLinked) {parent? : Option Nat}
    (near : parent? = none ∨ parent? = some arena.current) : (arena.add parent?).WellLinked := by
  have latest := linked.latest
  rw [Latest] at latest
  refine ⟨?_, ?_, ?_, ?_⟩
  · simp [Latest, ScopeArena.add]
  · rw [ScopeArena.add, List.getElem?_append_left (by omega)]
    exact linked.global
  · intro index slot found
    rw [ScopeArena.add] at found
    by_cases front : index + 1 < arena.slots.length
    · rw [List.getElem?_append_left front] at found
      exact linked.above index slot found
    · have within := (List.getElem?_eq_some_iff.mp found).1
      rw [List.length_append, List.length_singleton] at within
      obtain rfl : arena.current = index := by omega
      rw [latest, List.getElem?_concat_length] at found
      cases found
      exact ⟨rfl, near⟩
  · intro name start inner outer owns bound binds shadowed
    have parent : ∀ parent ∈ parent?, parent = arena.current := by
      rintro parent ⟨⟩
      cases near with
      | inl apart => cases apart
      | inr near => exact Option.some.inj near
    have inside : ∀ parent ∈ parent?, parent < arena.slots.length :=
      fun other link => parent other link ▸ linked.inside
    rw [ScopeArena.add, bindsAt_concat rfl] at bound shadowed
    have owns := owns.of_concat linked.forward inside (lt_of_bindsAt bound)
    have binds := binds.of_concat linked.forward inside (lt_of_bindsAt shadowed)
    rcases owns with ⟨within, owns⟩ | ⟨last, first, link, owns⟩ <;>
      rcases binds with ⟨front, binds⟩ | ⟨behind, second, linked', binds⟩
    · exact linked.single name start inner outer owns bound binds shadowed
    · omega
    · omega
    · cases link.symm.trans linked'
      exact linked.single name first inner outer owns bound binds shadowed

/-- The scope that is current can be closed, if it is not the global one. -/
theorem pop (linked : arena.WellLinked) (deeper : arena.current ≠ 0) :
    ∃ after, arena.pop = .ok after ∧ after.WellLinked := by
  have latest := linked.latest
  rw [Latest] at latest
  obtain ⟨slot, stands⟩ : ∃ slot, arena.slots[arena.current]? = some slot :=
    ⟨_, List.getElem?_eq_getElem linked.inside⟩
  have last : arena.slots.getLast? = some slot := by
    rw [List.getLast?_eq_getElem?, ← latest]
    exact stands
  have restored : slot.restored = arena.current - 1 := by
    rw [← Nat.succ_pred deeper] at stands
    exact (linked.above _ slot stands).1
  have starts : arena.slots.dropLast <+: arena.slots := List.dropLast_prefix _
  have length : arena.slots.dropLast.length = arena.current := by
    rw [List.length_dropLast]
    omega
  refine ⟨⟨arena.slots.dropLast, slot.restored⟩, ?_, ?_, ?_, ?_, ?_⟩
  · rw [ScopeArena.pop, if_neg deeper, if_neg (by omega), last]
  · show slot.restored + 1 = arena.slots.dropLast.length
    omega
  · rw [List.getElem?_dropLast, if_pos (by omega)]
    exact linked.global
  · intro index slot found
    have known := Arena.getElem?_of_prefix starts found
    exact linked.above index slot known
  · intro name start inner outer owns bound binds shadowed
    exact linked.single name start inner outer (owns.of_front starts)
      (bindsAt_of_front starts bound) (binds.of_front starts) (bindsAt_of_front starts shadowed)

end WellLinked

/-- A name may be given a value in a scope where it has one, and in the last scope if no scope in
which it is looked up has one. -/
def Assignable (arena : ScopeArena) (name : String) (target : Nat) : Prop :=
  bindsAt arena.slots name target = true ∨ target = arena.current ∧
    ∀ outer, Outward arena.slots arena.current outer → bindsAt arena.slots name outer = false

theorem bindsAt_eq_isSome (arena : ScopeArena) (name : String) (index : Nat) :
    bindsAt arena.slots name index = (arena.valueAt? index name).isSome := by
  rw [bindsAt, valueAt?]
  cases arena.slots[index]? <;> rfl

theorem valueAt?_modify_set {arena : ScopeArena} {target : Nat}
    (inside : target < arena.slots.length) (name other : String) (value : Value) (index : Nat) :
    valueAt? { arena with slots := arena.slots.modify target (·.set name value) } index other =
      if target = index ∧ other = name then some value else arena.valueAt? index other := by
  rw [valueAt?, valueAt?, List.getElem?_modify]
  by_cases here : target = index
  · subst here
    simp [List.getElem?_eq_getElem inside, ScopeSlot.set, Store.get?_set]
  · simp [here]

namespace WellLinked

variable {arena : ScopeArena} {target : Nat} {value : Value}

/-- What is found is the value of the name in the one scope that binds it. -/
theorem find_iff (linked : arena.WellLinked) (name : String) :
    ∃ found?, arena.find name = .ok found? ∧
      ∀ value, found? = some value ↔
        ∃ outer, Outward arena.slots arena.current outer ∧
          arena.valueAt? outer name = some value := by
  obtain ⟨owner?, searched, owned⟩ := linked.findOwner_iff name linked.inside
  cases owner? with
  | none =>
      refine ⟨none, by rw [find, searched]; rfl, fun value => ⟨nofun, ?_⟩⟩
      rintro ⟨outer, outward, found⟩
      have bound : bindsAt arena.slots name outer = true := by rw [bindsAt_eq_isSome, found]; rfl
      cases (owned outer).mpr ⟨outward, bound⟩
  | some owner =>
      obtain ⟨outward, bound⟩ := (owned owner).mp rfl
      obtain ⟨slot, found, stands⟩ := slot_of_lt (lt_of_bindsAt bound)
      have here : arena.valueAt? owner name = slot.store.get? name := by
        rw [valueAt?, found, Option.bind_some]
      refine ⟨slot.store.get? name, ?_, fun value => ⟨fun known => ?_, ?_⟩⟩
      · rw [find, searched]
        simp only [bind, Except.bind, stands]
        rfl
      · exact ⟨owner, outward, here.trans known⟩
      · rintro ⟨outer, further, known⟩
        have binds : bindsAt arena.slots name outer = true := by
          rw [bindsAt_eq_isSome, known]
          rfl
        obtain rfl := Option.some.inj ((owned outer).mpr ⟨further, binds⟩)
        exact here.symm.trans known

/-- No other scope in which the name is looked up binds it. -/
theorem eq_of_assignable (linked : arena.WellLinked) {name : String}
    (known : arena.Assignable name target) (near : Outward arena.slots start target)
    (far : Outward arena.slots start outer) (bound : bindsAt arena.slots name outer = true) :
    outer = target := by
  rcases known with known | ⟨rfl, free⟩
  · exact linked.single name start outer target far bound near known
  · obtain rfl := linked.eq_current near
    cases (free outer far).symm.trans bound

theorem modify_set (linked : arena.WellLinked) {name : String}
    (inside : target < arena.slots.length) (known : arena.Assignable name target) :
    WellLinked { arena with slots := arena.slots.modify target (·.set name value) } := by
  have links := links_modify_set arena.slots target name value
  have linkAt (index : Nat) :
      (arena.slots.modify target (·.set name value))[index]?.map ScopeSlot.link =
        arena.slots[index]?.map ScopeSlot.link := by
    rw [← List.getElem?_map, links, List.getElem?_map]
  refine ⟨?_, ?_, ?_, ?_⟩
  · rw [Latest, List.length_modify]
    exact linked.latest
  · have same := congrArg (Option.map Prod.fst) (linkAt 0)
    rw [Option.map_map, Option.map_map] at same
    exact same.trans linked.global
  · intro index slot found
    have same := linkAt (index + 1)
    rw [found, Option.map_some] at same
    obtain ⟨old, stood, alike⟩ := Option.map_eq_some_iff.mp same.symm
    have above := linked.above index old stood
    rwa [show old.parent? = slot.parent? from congrArg Prod.fst alike,
      show old.restored = slot.restored from congrArg Prod.snd alike] at above
  · intro other start inner outer near bound far shadowed
    have before {index : Nat} (bound : bindsAt (arena.slots.modify target (·.set name value)) other
        index = true) : bindsAt arena.slots other index = true ∨ target = index ∧ other = name := by
      rw [bindsAt_eq_isSome { arena with slots := _ }, valueAt?_modify_set inside] at bound
      split at bound
      · next here => exact .inr here
      · exact .inl ((bindsAt_eq_isSome ..).trans bound)
    have inward : Outward arena.slots start inner := near.of_links links.symm
    have outward : Outward arena.slots start outer := far.of_links links.symm
    rcases before bound with first | ⟨rfl, rfl⟩
    · rcases before shadowed with second | ⟨rfl, rfl⟩
      · exact linked.single other start inner outer inward first outward second
      · exact linked.eq_of_assignable known outward inward first
    · rcases before shadowed with second | ⟨rfl, _⟩
      · exact (linked.eq_of_assignable known inward outward second).symm
      · rfl

/-- A name is given its value in one of the scopes in which it is looked up. -/
theorem put (linked : arena.WellLinked) (name : String) (value : Value) :
    ∃ target, target < arena.slots.length ∧ Outward arena.slots arena.current target ∧
      arena.Assignable name target ∧
      arena.put name value =
        .ok { arena with slots := arena.slots.modify target (·.set name value) } := by
  obtain ⟨owner?, searched, bound, free⟩ := findOwner_ok linked.forward name linked.inside
  have stored {target : Nat} (chosen : owner?.getD arena.current = target)
      (inside : target < arena.slots.length) : arena.put name value =
        .ok { arena with slots := arena.slots.modify target (·.set name value) } := by
    obtain ⟨slot, found, stands⟩ := slot_of_lt inside
    rw [List.modify_eq_set, found]
    simp only [ScopeArena.put, searched, bind, Except.bind, chosen, stands]
    rfl
  cases owner? with
  | some owner =>
      obtain ⟨outward, binds⟩ := bound owner rfl
      have inside := lt_of_bindsAt binds
      exact ⟨owner, inside, outward, .inl binds, stored rfl inside⟩
  | none =>
      exact ⟨arena.current, linked.inside, .here _, .inr ⟨rfl, free rfl⟩, stored rfl linked.inside⟩

/-- What is looked up behind an assignment is the value that was assigned, and what was found before
for every other name. -/
theorem put_find (linked : arena.WellLinked) (name : String) (value : Value) :
    ∃ after, arena.put name value = .ok after ∧ after.WellLinked ∧
      after.find name = .ok (some value) ∧ ∀ other ≠ name, after.find other = arena.find other := by
  obtain ⟨target, inside, outward, known, stored⟩ := linked.put name value
  have relinked : WellLinked { arena with slots := arena.slots.modify target (·.set name value) } :=
    linked.modify_set inside known
  have links := links_modify_set arena.slots target name value
  have valueAt := fun bound other => valueAt?_modify_set inside bound other value
  refine ⟨_, stored, relinked, ?_, fun other different => ?_⟩
  · obtain ⟨found?, searched, found⟩ := relinked.find_iff name
    rw [searched, (found value).mpr ⟨target, outward.of_links links, by simp [valueAt]⟩]
  · obtain ⟨before?, early, before⟩ := linked.find_iff other
    obtain ⟨found?, late, found⟩ := relinked.find_iff other
    have same : found? = before? := by
      apply Option.ext
      intro bound
      rw [found, before]
      simp only [valueAt, different, and_false, if_false]
      exact ⟨fun ⟨outer, far, bound⟩ => ⟨outer, far.of_links links.symm, bound⟩,
        fun ⟨outer, far, bound⟩ => ⟨outer, far.of_links links, bound⟩⟩
    rw [early, late, same]

end WellLinked

end ScopeArena

namespace ScopeStep

/-- What a step does to scopes in a row.  The global scope is not closed. -/
def takeInRow (arena : ScopeArena) : ScopeStep → Except Breach ScopeArena
  | openScope => .ok arena.push
  | openDetached => .ok arena.pushDetached
  | closeScope => if arena.current = 0 then .ok arena else arena.close
  | assign name value => arena.put name value

def followInRow (arena : ScopeArena) (steps : List ScopeStep) : Except Breach ScopeArena :=
  steps.foldlM takeInRow arena

end ScopeStep

open ScopeStep

theorem ScopeArena.WellLinked.take {arena : ScopeArena} (linked : arena.WellLinked)
    (step : ScopeStep) : ∃ after, step.takeInRow arena = .ok after ∧ after.WellLinked := by
  cases step with
  | openScope => exact ⟨_, rfl, linked.add (.inr rfl)⟩
  | openDetached => exact ⟨_, rfl, linked.add (.inl rfl)⟩
  | closeScope =>
      rw [takeInRow]
      split
      · exact ⟨arena, rfl, linked⟩
      · next deeper =>
          obtain ⟨after, closed, relinked⟩ := linked.pop deeper
          exact ⟨after, by rw [close, closed]; rfl, relinked⟩
  | assign name value =>
      obtain ⟨after, stored, relinked, _⟩ := linked.put_find name value
      exact ⟨after, stored, relinked⟩

theorem ScopeArena.WellLinked.follow {arena : ScopeArena} (linked : arena.WellLinked)
    (steps : List ScopeStep) : ∃ after, followInRow arena steps = .ok after ∧ after.WellLinked := by
  induction steps generalizing arena with
  | nil => exact ⟨arena, rfl, linked⟩
  | cons step rest ih =>
      obtain ⟨next, taken, relinked⟩ := linked.take step
      obtain ⟨after, followed, final⟩ := ih relinked
      exact ⟨after, by rw [followInRow, List.foldlM_cons, taken]; exact followed, final⟩

namespace Environment

/-- In a row steps do what they do to the environment. -/
theorem takeInRow_arena (env : Environment) (step : ScopeStep) :
    step.takeInRow env.arena = .ok (step.take env).arena := by
  cases step with
  | openScope => exact congrArg _ env.arena_push.symm
  | openDetached => exact congrArg _ env.arena_pushDetached.symm
  | closeScope =>
      rw [takeInRow]
      split
      · next outermost =>
          have bare : env.inner = [] := List.eq_nil_of_length_eq_zero outermost
          rw [take, pop, bare, List.tail_nil, ← bare]
      · next deeper =>
          rw [ScopeArena.close, arena_pop deeper]
          rfl
  | assign name value => exact env.put_arena name value

theorem followInRow_arena (env : Environment) (steps : List ScopeStep) :
    followInRow env.arena steps = .ok (env.follow steps).arena := by
  induction steps generalizing env with
  | nil => rfl
  | cons step rest ih =>
      rw [followInRow, List.foldlM_cons, takeInRow_arena]
      exact ih (step.take env)

end Environment

open ScopeArena in
/-- Whatever scopes are opened and closed and whatever is assigned, the last scope is current, and
every scope but the first comes back to the one in front of it and is linked to that one or to none.
The search for a name ends, in the only one of the linked scopes that binds the name, if any does.
An assignment changes what is found for its name and for no other. -/
theorem scopes_linked (steps : List ScopeStep) :
    ∃ arena, followInRow {} steps = .ok arena ∧ arena = (({} : Environment).follow steps).arena ∧
      0 < arena.slots.length ∧ arena.current = arena.slots.length - 1 ∧
      (∃ slot, arena.slots[0]? = some slot ∧ slot.parent? = none) ∧
      (∀ index slot, arena.slots[index + 1]? = some slot →
        slot.restored = index ∧ (slot.parent? = none ∨ slot.parent? = some index)) ∧
      (∀ name start inner outer,
        Outward arena.slots start inner → bindsAt arena.slots name inner = true →
        Outward arena.slots start outer → bindsAt arena.slots name outer = true →
        inner = outer) ∧
      (∀ name start, start < arena.slots.length →
        ∃ owner?, findOwner arena.slots name start = .ok owner? ∧
          ∀ outer, owner? = some outer ↔
            Outward arena.slots start outer ∧ bindsAt arena.slots name outer = true) ∧
      ∀ name value, ∃ after, arena.put name value = .ok after ∧
        after.find name = .ok (some value) ∧
        ∀ other ≠ name,
          ∃ found?, arena.find other = .ok found? ∧ after.find other = .ok found? := by
  obtain ⟨arena, followed, linked⟩ := wellLinked_start.follow steps
  have latest : arena.current + 1 = arena.slots.length := linked.latest
  refine ⟨arena, followed, ?_, by omega, by omega, Option.map_eq_some_iff.mp linked.global,
    linked.above, linked.single, fun name start => linked.findOwner_iff name, fun name value => ?_⟩
  · exact Except.ok.inj (followed.symm.trans (Environment.followInRow_arena {} steps))
  · obtain ⟨after, stored, _, found, others⟩ := linked.put_find name value
    refine ⟨after, stored, found, fun other different => ?_⟩
    obtain ⟨found?, searched, _⟩ := linked.find_iff other
    exact ⟨found?, searched, (others other different).trans searched⟩

end Sipl
