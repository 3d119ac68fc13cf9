import Sipl.Proofs.Run.Scopes
import Sipl.Proofs.Run.Steps

namespace Sipl

theorem Store.binds_iff_mem {store : Store} {name : String} :
    store.binds name = true ↔ name ∈ store.map Prod.fst := by
  induction store with
  | nil => simp [binds, get?]
  | cons entry rest ih =>
      obtain ⟨other, bound⟩ := entry
      rw [List.map_cons, List.mem_cons, ← ih]
      by_cases same : name = other
      · simp [binds, get?, same]
      · simp [binds, get?, List.lookup_cons, beq_eq_false_iff_ne.mpr same, same]

namespace ScopeArena

def valueAt? (arena : ScopeArena) (index : Nat) (name : String) : Option Value :=
  arena.slots[index]?.bind fun slot => slot.store.get? name

theorem bindsAt_iff {slots : List ScopeSlot} {name : String} {index : Nat} :
    bindsAt slots name index = true ↔
      ∃ names ∈ slots[index]?.map ScopeSlot.names, name ∈ names := by
  rw [bindsAt]
  cases slots[index]? with
  | none => simp
  | some slot => simp [Store.binds_iff_mem, ScopeSlot.names]

/-- Where names stay in their scopes, the owner of a name stays the same. -/
theorem Keeps.owner? {before after : ScopeArena} (keeps : before.Keeps after) (name : String) :
    after.owner? name = before.owner? name := by
  have chain : chainFrom after.slots after.current = chainFrom before.slots before.current :=
    keeps.chain
  rw [ScopeArena.owner?, ScopeArena.owner?, ownerFrom, ownerFrom, chain]
  apply List.find?_congr
  intro index _
  rw [Bool.eq_iff_iff, bindsAt_iff, bindsAt_iff, keeps.names index]

theorem isSome_lookup_of_owner? {arena : ScopeArena} {name : String} {index : Nat}
    (owned : arena.owner? name = some index) : (arena.lookup name).isSome := by
  have bound := bindsAt_owner owned
  rw [lookup, owned, Option.bind_some]
  rw [bindsAt, Option.any_eq_true] at bound
  obtain ⟨slot, found, binds⟩ := bound
  rw [found]
  exact binds

/-- Nothing but values has changed, and each of them in the scope that owns its name. -/
structure Revalues (before after : ScopeArena) : Prop extends Keeps before after where
  owned : ∀ index name, after.valueAt? index name ≠ before.valueAt? index name →
    before.owner? name = some index

namespace Revalues

variable {before middle after : ScopeArena}

theorem refl (arena : ScopeArena) : arena.Revalues arena :=
  ⟨.refl arena, fun _ _ changed => absurd rfl changed⟩

theorem trans (first : before.Revalues middle) (second : middle.Revalues after) :
    before.Revalues after := by
  refine ⟨first.toKeeps.trans second.toKeeps, fun index name changed => ?_⟩
  by_cases later : after.valueAt? index name = middle.valueAt? index name
  · exact first.owned index name (later ▸ changed)
  · rw [← first.toKeeps.owner? name]
    exact second.owned index name later

theorem set {arena : ScopeArena} {name : String} {owner : Nat}
    (known : arena.owner? name = some owner) (value : Value) :
    arena.Revalues { arena with slots := arena.slots.modify owner (·.set name value) } := by
  have bound := bindsAt_owner known
  have grows := grows_set (owner_mem_chain known) (.inl bound) value
  refine ⟨⟨grows, names_modify_set bound value _⟩, ?_⟩
  intro index other changed
  by_cases here : owner = index
  · subst here
    by_cases same : other = name
    · exact same ▸ known
    · refine absurd ?_ changed
      simp only [valueAt?, List.getElem?_modify_eq]
      cases arena.slots[owner]? with
      | none => rfl
      | some slot => simp [ScopeSlot.set, Store.get?_set, same]
  · exact absurd (by rw [valueAt?, List.getElem?_modify_ne _ _ here, valueAt?]) changed

end Revalues

end ScopeArena

/-- What can be done to the scopes of an environment. -/
inductive ScopeStep where
  | openScope
  | openDetached
  | closeScope
  | assign (name : String) (value : Value)
  deriving DecidableEq

namespace ScopeStep

/-- The global scope is not closed. -/
def take (env : Environment) : ScopeStep → Environment
  | openScope => env.push
  | openDetached => env.pushDetached
  | closeScope => env.pop
  | assign name value => env.assign name value

/-- The step of a run that does the same to scopes in a row. -/
def toStep : ScopeStep → Step
  | openScope => .openScope
  | openDetached => .openDetached
  | closeScope => .closeScope
  | assign name value => .assign name value

/-- How many scopes are open behind a step, counted from a scope that must stay open. -/
def level? (level : Nat) : ScopeStep → Option Nat
  | openScope => some (level + 1)
  | openDetached => some (level + 1)
  | closeScope => if level = 0 then none else some (level - 1)
  | assign _ _ => some level

def levelAfter? (level : Nat) (steps : List ScopeStep) : Option Nat := steps.foldlM level? level

/-- Every scope that is opened is closed, and no other one. -/
def Balanced (steps : List ScopeStep) : Prop := levelAfter? 0 steps = some 0

instance (steps : List ScopeStep) : Decidable (Balanced steps) :=
  inferInstanceAs (Decidable (_ = _))

theorem levelAfter?_append (level : Nat) (first second : List ScopeStep) :
    levelAfter? level (first ++ second) = (levelAfter? level first).bind (levelAfter? · second) :=
  List.foldlM_append ..

theorem levelAfter?_cons (level : Nat) (step : ScopeStep) (rest : List ScopeStep) :
    levelAfter? level (step :: rest) = (step.level? level).bind (levelAfter? · rest) :=
  List.foldlM_cons ..

/-- The scopes around do not matter to what is opened and closed inside of them. -/
theorem levelAfter?_add {steps : List ScopeStep} {level final : Nat} (more : Nat)
    (levels : levelAfter? level steps = some final) :
    levelAfter? (more + level) steps = some (more + final) := by
  induction steps generalizing level with
  | nil =>
      obtain rfl := Option.some.inj levels
      rfl
  | cons step rest ih =>
      rw [levelAfter?_cons] at levels ⊢
      obtain ⟨next, first, behind⟩ := Option.bind_eq_some_iff.mp levels
      have shifted : step.level? (more + level) = some (more + next) := by
        cases step with
        | closeScope =>
            rw [level?] at first ⊢
            split at first
            · cases first
            · obtain rfl := Option.some.inj first
              rw [if_neg (by omega)]
              congr 1
              omega
        | openScope | openDetached | assign =>
            obtain rfl := Option.some.inj first
            rfl
      rw [shifted]
      exact ih behind

/-- What a balanced sequence starts with has closed no scope but its own. -/
theorem Balanced.isSome_of_prefix {part steps : List ScopeStep} (balanced : Balanced steps)
    (starts : part <+: steps) : ∃ level, levelAfter? 0 part = some level := by
  obtain ⟨rest, rfl⟩ := starts
  rw [Balanced, levelAfter?_append] at balanced
  obtain ⟨level, known, _⟩ := Option.bind_eq_some_iff.mp balanced
  exact ⟨level, known⟩

end ScopeStep

open ScopeStep

namespace Environment

/-- The environment behind steps that are taken one after the other. -/
def follow (env : Environment) (steps : List ScopeStep) : Environment := steps.foldl take env

variable {env base : Environment} {detached : Bool} {level : Nat}

/-- Some scopes stand above one that was opened on a base.  What is below of it is the base, up to
values where it is not detached. -/
def Above (base : Environment) (detached : Bool) (level : Nat) (env : Environment) : Prop :=
  ∃ front store below, env = ⟨front ++ ⟨detached, store⟩ :: below.inner, below.globals⟩ ∧
    front.length = level ∧ base.arena.Revalues below.arena ∧ (detached = true → below = base)

theorem revalues_rebindFrom? {name : String} {value : Value} {rebound : Environment}
    (found : rebindFrom? env.globals name value env.inner = some rebound) :
    env.arena.Revalues rebound.arena := by
  have stored := arena_rebindFrom? env.globals name value env.inner
  rw [found] at stored
  obtain ⟨owner, owned, same⟩ := Option.map_eq_some_iff.mp stored.symm
  have known : env.arena.owner? name = some owner := owned
  rw [← same]
  exact .set known value

/-- A name is rebound in the scopes in front, nowhere, or further out than a scope that is not
detached. -/
theorem rebindFrom?_append (globals : Store) (name : String) (value : Value) (front : List Scope)
    (store : Store) (outer : List Scope) :
    (∃ changed others, changed.length = front.length ∧
      rebindFrom? globals name value (front ++ ⟨detached, store⟩ :: outer) =
        some ⟨changed ++ ⟨detached, others⟩ :: outer, globals⟩) ∨
      rebindFrom? globals name value (front ++ ⟨detached, store⟩ :: outer) = none ∨
      detached = false ∧ ∃ rebound, rebindFrom? globals name value outer = some rebound ∧
        rebindFrom? globals name value (front ++ ⟨detached, store⟩ :: outer) =
          some ⟨front ++ ⟨detached, store⟩ :: rebound.inner, rebound.globals⟩ := by
  induction front with
  | nil =>
      simp only [List.nil_append, rebindFrom?]
      split
      · exact .inl ⟨[], _, rfl, rfl⟩
      · cases detached with
        | true => exact .inr (.inl rfl)
        | false =>
            cases found : rebindFrom? globals name value outer with
            | none => exact .inr (.inl rfl)
            | some rebound => exact .inr (.inr ⟨rfl, rebound, rfl, rfl⟩)
  | cons scope rest ih =>
      simp only [List.cons_append, rebindFrom?]
      split
      · exact .inl ⟨{ scope with store := scope.store.set name value } :: rest, store, rfl, rfl⟩
      · split
        · exact .inr (.inl rfl)
        · rcases ih with
            ⟨changed, others, length, found⟩ | found | ⟨attached, rebound, further, found⟩
          · exact .inl ⟨scope :: changed, others, by simp [length], by rw [found]; rfl⟩
          · exact .inr (.inl (by rw [found]; rfl))
          · exact .inr (.inr ⟨attached, rebound, further, by rw [found]; rfl⟩)

theorem slotsFrom_prefix (globals : Store) (front outer : List Scope) :
    slotsFrom globals outer <+: slotsFrom globals (front ++ outer) := by
  induction front with
  | nil => exact List.prefix_rfl
  | cons scope rest ih =>
      rw [List.cons_append, slotsFrom]
      exact ih.trans (List.prefix_append ..)

namespace Above

theorem opened (base : Environment) (detached : Bool) :
    base.Above detached 0 ⟨⟨detached, []⟩ :: base.inner, base.globals⟩ :=
  ⟨[], [], base, rfl, rfl, .refl _, fun _ => rfl⟩

theorem assign (above : base.Above detached level env) (name : String) (value : Value) :
    base.Above detached level (env.assign name value) := by
  obtain ⟨front, store, below, rfl, length, revalues, same⟩ := above
  rw [Environment.assign]
  rcases rebindFrom?_append below.globals name value front store below.inner with
    ⟨changed, others, kept, found⟩ | found | ⟨attached, rebound, further, found⟩
  · rw [found]
    exact ⟨changed, others, below, rfl, kept.trans length, revalues, same⟩
  · rw [found, Option.getD_none, bindHere]
    cases front with
    | nil => exact ⟨[], _, below, rfl, length, revalues, same⟩
    | cons scope rest => exact ⟨_ :: rest, store, below, rfl, length, revalues, same⟩
  · rw [found]
    refine ⟨front, store, rebound, rfl, length, revalues.trans (revalues_rebindFrom? further), ?_⟩
    intro closed
    rw [attached] at closed
    cases closed

theorem take {step : ScopeStep} {next : Nat} (above : base.Above detached level env)
    (levels : step.level? level = some next) : base.Above detached next (step.take env) := by
  cases step with
  | assign name value =>
      obtain rfl := Option.some.inj levels
      exact above.assign name value
  | openScope | openDetached =>
      obtain rfl := Option.some.inj levels
      obtain ⟨front, store, below, rfl, length, kept⟩ := above
      exact ⟨_ :: front, store, below, rfl, congrArg (· + 1) length, kept⟩
  | closeScope =>
      obtain ⟨front, store, below, rfl, length, kept⟩ := above
      rw [level?] at levels
      split at levels
      · cases levels
      · next inside =>
          obtain rfl := Option.some.inj levels
          cases front with
          | nil => exact absurd length.symm inside
          | cons scope rest => exact ⟨rest, store, below, rfl, by rw [← length]; rfl, kept⟩

theorem follow {steps : List ScopeStep} {final : Nat} (above : base.Above detached level env)
    (levels : levelAfter? level steps = some final) :
    base.Above detached final (env.follow steps) := by
  induction steps generalizing level env with
  | nil =>
      obtain rfl := Option.some.inj levels
      exact above
  | cons step rest ih =>
      rw [levelAfter?_cons] at levels
      obtain ⟨next, first, behind⟩ := Option.bind_eq_some_iff.mp levels
      exact ih (above.take first) behind

/-- When the scope itself is closed, the scopes below it are left. -/
theorem close (above : base.Above detached 0 env) :
    base.arena.Revalues env.pop.arena ∧ (detached = true → env.pop = base) := by
  obtain ⟨front, store, below, rfl, length, kept⟩ := above
  obtain rfl := List.length_eq_zero_iff.mp length
  exact kept

/-- The scopes of the base stand where they stood. -/
theorem slots (above : base.Above detached level env) :
    ∃ below : Environment, below.arena.slots <+: env.arena.slots ∧
      base.arena.Revalues below.arena ∧ (detached = true → below = base) := by
  obtain ⟨front, store, below, rfl, _, kept⟩ := above
  refine ⟨below, ?_, kept⟩
  have whole := slotsFrom_prefix below.globals (front ++ [⟨detached, store⟩]) below.inner
  rwa [List.append_assoc] at whole

end Above

theorem length_inner_assign (env : Environment) (name : String) (value : Value) :
    (env.assign name value).inner.length = env.inner.length := by
  have grows := ScopeArena.grows_assign env.arena name value
  rw [← arena_assign] at grows
  exact grows.current

/-- In a row a step does what it does to the environment; only the global scope cannot be closed. -/
theorem take_toStep (env : Environment) (calls : CallStack) (step : ScopeStep) :
    step.toStep.take ⟨env.arena, calls⟩ =
      if (step.level? env.inner.length).isSome then .ok ⟨(step.take env).arena, calls⟩
      else .error .globalScopeClosed := by
  cases step with
  | openScope => simp [toStep, Step.take, level?, ScopeStep.take, arena_push]
  | openDetached => simp [toStep, Step.take, level?, ScopeStep.take, arena_pushDetached]
  | assign name value => simp [toStep, Step.take, level?, ScopeStep.take, arena_assign]
  | closeScope =>
      by_cases outermost : env.inner.length = 0
      · have closed : env.arena.pop = .error .globalScopeClosed := if_pos outermost
        simp [toStep, Step.take, level?, outermost, closed, Except.map]
      · have closed : env.arena.pop = .ok env.pop.arena := arena_pop outermost
        simp [toStep, Step.take, level?, outermost, closed, Except.map, ScopeStep.take]

theorem level?_length {step : ScopeStep} {next : Nat}
    (levels : step.level? env.inner.length = some next) : (step.take env).inner.length = next := by
  cases step with
  | openScope | openDetached => exact Option.some.inj levels
  | assign name value =>
      exact (length_inner_assign env name value).trans (Option.some.inj levels)
  | closeScope =>
      rw [level?] at levels
      split at levels
      · cases levels
      · exact (List.length_tail ..).trans (Option.some.inj levels)

/-- Whatever the steps, no scope is closed out of order. -/
theorem takeAll_toStep (env : Environment) (calls : CallStack) (steps : List ScopeStep) :
    takeAll (steps.map toStep) ⟨env.arena, calls⟩ =
      if (levelAfter? env.inner.length steps).isSome then .ok ⟨(env.follow steps).arena, calls⟩
      else .error .globalScopeClosed := by
  induction steps generalizing env with
  | nil => rfl
  | cons step rest ih =>
      rw [List.map_cons, takeAll, take_toStep, levelAfter?_cons]
      cases first : step.level? env.inner.length with
      | none => rfl
      | some next =>
          rw [Option.isSome_some, if_pos rfl, Option.bind_some, ← level?_length first]
          exact ih (step.take env)

end Environment

/-- The steps from opening a scope to closing it. -/
def ScopeStep.around (detached : Bool) (inside : List ScopeStep) : List ScopeStep :=
  (if detached then openDetached else openScope) :: (inside ++ [closeScope])

namespace Environment

variable {env : Environment} {inside : List ScopeStep} {detached : Bool}

theorem follow_around (env : Environment) (detached : Bool) (inside : List ScopeStep) :
    env.follow (around detached inside) =
      (follow ⟨⟨detached, []⟩ :: env.inner, env.globals⟩ inside).pop := by
  rw [follow, around, List.foldl_cons, List.foldl_append]
  cases detached <;> rfl

theorem revalues_around (env : Environment) (balanced : Balanced inside) (detached : Bool) :
    env.arena.Revalues (env.follow (around detached inside)).arena ∧
      (detached = true → env.follow (around detached inside) = env) := by
  rw [follow_around]
  exact ((Above.opened env detached).follow balanced).close

/-- Balanced steps can be taken in a row of scopes, wherever they start. -/
theorem takeAll_around (env : Environment) (calls : CallStack) (balanced : Balanced inside)
    (detached : Bool) :
    takeAll ((around detached inside).map toStep) ⟨env.arena, calls⟩ =
      .ok ⟨(env.follow (around detached inside)).arena, calls⟩ := by
  have opened : (if detached then openDetached else openScope).level? env.inner.length =
      some (env.inner.length + 1) := by
    cases detached <;> rfl
  have closed : levelAfter? (env.inner.length + 1) (inside ++ [closeScope]) =
      some env.inner.length := by
    rw [levelAfter?_append, levelAfter?_add (env.inner.length + 1) balanced]
    rfl
  rw [takeAll_toStep, around, levelAfter?_cons, opened, Option.bind_some, closed]
  rfl

end Environment

/-- What is done between opening a scope and closing it leaves an environment as it was if the scope
is detached, and else as it was but for values of visible names, each in the scope that owns the
name.  Scopes that are hidden never change, wherever the steps are interrupted.  In a row of scopes
the same steps can be taken, and every row that steps lead to is that of an environment. -/
theorem scopes_come_back (env : Environment) (inside : List ScopeStep)
    (balanced : Balanced inside) :
    env.follow (around true inside) = env ∧
      env.arena.Keeps (env.follow (around false inside)).arena ∧
      (∀ index name, (env.follow (around false inside)).arena.valueAt? index name ≠
          env.arena.valueAt? index name →
        env.arena.owner? name = some index ∧ (env.lookup name).isSome) ∧
      (∀ part, part <+: inside →
        env.arena.slots <+: (env.follow (.openDetached :: part)).arena.slots ∧
          ∀ index < env.depth, index ∉ env.arena.chain →
            (env.follow (.openScope :: part)).arena.slots[index]? = env.arena.slots[index]?) ∧
      (∀ detached calls, takeAll ((around detached inside).map toStep) ⟨env.arena, calls⟩ =
        .ok ⟨(env.follow (around detached inside)).arena, calls⟩) ∧
      ∀ history calls final, takeAll (history.map toStep) { calls } = .ok final →
        final = ⟨(({} : Environment).follow history).arena, calls⟩ := by
  have block := (env.revalues_around balanced false).1
  refine ⟨(env.revalues_around balanced true).2 rfl, block.toKeeps, ?_, ?_, ?_, ?_⟩
  · intro index name changed
    have owned := block.owned index name changed
    refine ⟨owned, ?_⟩
    rw [← env.lookup_arena]
    exact ScopeArena.isSome_lookup_of_owner? owned
  · intro part starts
    obtain ⟨level, levels⟩ := balanced.isSome_of_prefix starts
    obtain ⟨below, stands, _, same⟩ := ((Environment.Above.opened env true).follow levels).slots
    obtain ⟨under, standing, revalues, _⟩ :=
      ((Environment.Above.opened env false).follow levels).slots
    have standing : under.arena.slots <+: (env.follow (.openScope :: part)).arena.slots := standing
    refine ⟨same rfl ▸ stands, fun index within hidden => ?_⟩
    rw [← revalues.elsewhere index hidden]
    have width := revalues.length.trans (Environment.length_slotsFrom env.globals env.inner)
    obtain ⟨rest, whole⟩ := standing
    rw [← whole, List.getElem?_append_left (width ▸ within)]
  · intro detached calls
    exact env.takeAll_around calls balanced detached
  · intro history calls final taken
    have whole := Environment.takeAll_toStep {} calls history
    rw [show (Environment.arena {}) = {} from rfl, taken] at whole
    split at whole
    · exact Except.ok.inj whole
    · cases whole

/-- Inside of a detached scope that binds a name `x` of its own, the value of the name is changed
and a name `y` is bound in a block. -/
theorem scopes_come_back_to_parameters :
    let history : List ScopeStep := [.assign "x" (.int 1), .openDetached, .assign "x" (.int 2)]
    let env : Environment := .follow {} history
    let inside : List ScopeStep := [.assign "x" (.int 3), .openDetached, .assign "x" (.int 4),
      .closeScope, .openScope, .assign "y" (.int 5), .closeScope]
    Balanced inside ∧ env.follow (around true inside) = env ∧
      env.arena.Keeps (env.follow (around false inside)).arena ∧
      env.follow (around false inside) = ⟨[⟨true, [("x", .int 3)]⟩], [("x", .int 1)]⟩ ∧
      (env.arena.owner? "x" = some 1 ∧ (env.lookup "x").isSome) ∧
      env.arena.slots <+: (env.follow (.openDetached :: inside.take 3)).arena.slots ∧
      (env.follow (.openScope :: inside.take 3)).arena.slots[0]? = env.arena.slots[0]? ∧
      takeAll ((around false inside).map toStep) ⟨env.arena, ⟨none, #[]⟩⟩ =
        .ok ⟨(env.follow (around false inside)).arena, ⟨none, #[]⟩⟩ ∧
      takeAll (history.map toStep) { calls := ⟨none, #[]⟩ } = .ok ⟨env.arena, ⟨none, #[]⟩⟩ := by
  intro history env inside
  have balanced : Balanced inside := by decide
  have behind : 0 ∉ env.arena.chain := by with_unfolding_all decide
  obtain ⟨same, keeps, changed, hidden, taken, reached⟩ := scopes_come_back env inside balanced
  obtain ⟨final, led⟩ :
      ∃ final, takeAll (history.map toStep) { calls := ⟨none, #[]⟩ } = .ok final := ⟨_, rfl⟩
  refine ⟨balanced, same, keeps, by decide, changed 1 "x" (by decide), ?_, ?_, taken false _, ?_⟩
  · exact (hidden _ (List.take_prefix 3 inside)).1
  · exact (hidden _ (List.take_prefix 3 inside)).2 0 (by decide) behind
  · exact reached history _ final led ▸ led

end Sipl
