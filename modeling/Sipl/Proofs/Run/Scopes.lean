import Sipl.Proofs.Run.Reference
import Sipl.Run.Environment

namespace Sipl

open Reference

/-! A stack of scopes shows a plain map of names.  For each open block the map is remembered as it
was in front of it; the scope of the block holds the names that are not in that map, so that closing
the scope is the same as forgetting these names. -/

namespace Reference.Names

variable {names before : Names} {name : String}

theorem within_self (names : Names) : names.within names = names := by
  funext name
  cases found : names name <;> simp [within, found]

theorem within_set_of_some {value : Value} (seen : (before name).isSome) :
    (names.set name value).within before = (names.within before).set name value := by
  funext other
  by_cases same : other = name
  · simp [within, set, same, seen]
  · simp [within, set, same]

theorem within_set_of_none {value : Value} (unseen : before name = none) :
    (names.set name value).within before = names.within before := by
  funext other
  by_cases same : other = name
  · simp [within, same, unseen]
  · simp [within, set, same]

theorem isSome_set {value : Value} {other : String} (seen : (names other).isSome) :
    (names.set name value other).isSome := by
  rw [set]
  split
  · rfl
  · exact seen

end Reference.Names

namespace Store

theorem get?_set (store : Store) (name other : String) (value : Value) :
    (store.set name value).get? other = if other = name then some value else store.get? other := by
  induction store with
  | nil =>
      by_cases same : other = name
      · simp [set, get?, same]
      · simp [set, get?, List.lookup_cons, same, beq_eq_false_iff_ne.mpr same]
  | cons entry rest ih =>
      obtain ⟨bound, old⟩ := entry
      simp only [get?] at ih
      simp only [set, get?]
      split
      · next same =>
          subst same
          by_cases found : other = name
          · simp [found]
          · simp [List.lookup_cons, found, beq_eq_false_iff_ne.mpr found]
      · next different =>
          by_cases found : other = bound
          · subst found
            simp [Ne.symm different]
          · simp [List.lookup_cons, beq_eq_false_iff_ne.mpr found, ih]

theorem binds_eq (store : Store) (name : String) : store.binds name = (store.get? name).isSome :=
  rfl

/-- No name is bound twice. -/
def Distinct (store : Store) : Prop := (store.map Prod.fst).Nodup

theorem mem_names_set {store : Store} {name other : String} {value : Value} :
    other ∈ (store.set name value).map Prod.fst ↔ other = name ∨ other ∈ store.map Prod.fst := by
  induction store with
  | nil => simp [set]
  | cons entry rest ih =>
      rw [set]
      split
      · next same => simp [same]
      · rw [List.map_cons, List.mem_cons, ih, List.map_cons, List.mem_cons, or_left_comm]

theorem Distinct.set {store : Store} (distinct : store.Distinct) (name : String) (value : Value) :
    (store.set name value).Distinct := by
  induction store with
  | nil => simp [Distinct, Store.set]
  | cons entry rest ih =>
      obtain ⟨fresh, others⟩ := List.nodup_cons.mp distinct
      rw [Store.set]
      split
      · next same =>
          subst same
          exact distinct
      · next different =>
          refine List.nodup_cons.mpr ⟨fun member => ?_, ih others⟩
          rcases mem_names_set.mp member with same | member
          · exact different same.symm
          · exact fresh member

/-- Of several values for one name the last one stays. -/
theorem get?_foldl_set (entries : List (String × Value)) (store : Store) (name : String) :
    (entries.foldl (fun (store : Store) entry => store.set entry.1 entry.2) store).get? name =
      (entries.reverse.lookup name).or (store.get? name) := by
  induction entries generalizing store with
  | nil => rfl
  | cons entry rest ih =>
      obtain ⟨bound, value⟩ := entry
      rw [List.foldl_cons, ih, get?_set, List.reverse_cons, List.lookup_append]
      cases rest.reverse.lookup name with
      | some found => rfl
      | none =>
          by_cases same : name = bound
          · simp [same]
          · simp [List.lookup_cons, same, beq_eq_false_iff_ne.mpr same]

end Store

namespace Environment

/-- In a detached scope a name is bound without a look at the scopes around it. -/
theorem assign_detached (store : Store) (outer : List Scope) (globals : Store) (name : String)
    (value : Value) :
    assign ⟨⟨true, store⟩ :: outer, globals⟩ name value =
      ⟨⟨true, store.set name value⟩ :: outer, globals⟩ := by
  simp only [assign, rebindFrom?, bindHere]
  by_cases bound : store.binds name = true
  · rw [if_pos bound]
    rfl
  · rw [if_neg bound]
    rfl

theorem foldl_assign_detached (entries : List (String × Value)) (store : Store)
    (outer : List Scope) (globals : Store) :
    entries.foldl (fun (env : Environment) entry => env.assign entry.1 entry.2)
        ⟨⟨true, store⟩ :: outer, globals⟩ =
      ⟨⟨true, entries.foldl (fun (store : Store) entry => store.set entry.1 entry.2) store⟩
        :: outer, globals⟩ := by
  induction entries generalizing store with
  | nil => rfl
  | cons entry rest ih => rw [List.foldl_cons, assign_detached, ih, List.foldl_cons]

theorem lookup_detached (store : Store) (outer : List Scope) (globals : Store) (name : String) :
    lookup ⟨⟨true, store⟩ :: outer, globals⟩ name = store.get? name := by
  simp only [lookup, lookupFrom]
  cases store.get? name <;> rfl

end Environment

namespace Environment

/-- Scopes show a map; for each of them it is told what was visible when it was opened. -/
inductive ShowsFrom (globals : Store) : List Scope → Names → List Names → Prop where
  | globals {names : Names} (distinct : globals.Distinct)
      (same : ∀ name, globals.get? name = names name) :
      ShowsFrom globals [] names []
  | inner {store : Store} {scopes : List Scope} {names before : Names} {outer : List Names}
      (kept : ∀ name, (before name).isSome → (names name).isSome)
      (new : ∀ name, store.get? name = if (before name).isSome then none else names name)
      (outside : ShowsFrom globals scopes (names.within before) outer) :
      ShowsFrom globals (⟨false, store⟩ :: scopes) names (before :: outer)

def Shows (env : Environment) (names : Names) (outer : List Names) : Prop :=
  ShowsFrom env.globals env.inner names outer

variable {globals : Store} {scopes : List Scope} {names before : Names} {outer : List Names}
  {name : String}

theorem ShowsFrom.lookupFrom (shows : ShowsFrom globals scopes names outer) (name : String) :
    lookupFrom globals name scopes = names name := by
  induction shows with
  | globals distinct same => exact same name
  | @inner store _ names before _ kept new outside ih =>
      rw [Environment.lookupFrom, new, ih]
      cases seen : before name with
      | some value => simp [Names.within, seen]
      | none => simp [Names.within, seen]; cases names name <;> rfl

theorem rebindFrom?_eq_none (value : Value) (free : lookupFrom globals name scopes = none) :
    rebindFrom? globals name value scopes = none := by
  induction scopes with
  | nil =>
      rw [lookupFrom] at free
      simp [rebindFrom?, Store.binds_eq, free]
  | cons scope outer ih =>
      rw [lookupFrom] at free
      cases found : scope.store.get? name with
      | some bound => simp [found] at free
      | none =>
          rw [found] at free
          by_cases detached : scope.detached = true
          · simp [rebindFrom?, Store.binds_eq, found, detached]
          · simp only [detached] at free
            simp [rebindFrom?, Store.binds_eq, found, detached, ih free]

/-- A scope whose block was opened without the name can bind it. -/
theorem ShowsFrom.set_inner {store : Store} (value : Value) (unseen : before name = none)
    (kept : ∀ name, (before name).isSome → (names name).isSome)
    (new : ∀ name, store.get? name = if (before name).isSome then none else names name)
    (outside : ShowsFrom globals scopes (names.within before) outer) :
    ShowsFrom globals (⟨false, store.set name value⟩ :: scopes) (names.set name value)
      (before :: outer) := by
  apply ShowsFrom.inner
  · intro other seen
    exact Names.isSome_set (kept other seen)
  · intro other
    rw [Store.get?_set, new, Names.set]
    by_cases same : other = name
    · simp [same, unseen]
    · simp [same]
  · rw [Names.within_set_of_none unseen]
    exact outside

theorem ShowsFrom.rebind (shows : ShowsFrom globals scopes names outer) (value : Value)
    (bound : (names name).isSome) :
    ∃ env, rebindFrom? globals name value scopes = some env ∧
      env.Shows (names.set name value) outer := by
  induction shows with
  | globals distinct same =>
      rw [← same name] at bound
      refine ⟨⟨[], globals.set name value⟩, by rw [rebindFrom?, Store.binds_eq, if_pos bound], ?_⟩
      apply ShowsFrom.globals (distinct.set name value)
      intro other
      rw [Store.get?_set, same, Names.set]
  | @inner store scopes names before outer kept new outside ih =>
      cases seen : before name with
      | some old =>
          have free : store.get? name = none := by simp [new, seen]
          have visible : (names.within before name).isSome := by
            simpa [Names.within, seen] using bound
          obtain ⟨env, rebound, showsEnv⟩ := ih visible
          refine ⟨{ env with inner := ⟨false, store⟩ :: env.inner }, ?_, ShowsFrom.inner ?_ ?_ ?_⟩
          · simp [rebindFrom?, Store.binds_eq, free, rebound]
          · intro other older
            exact Names.isSome_set (kept other older)
          · intro other
            rw [new, Names.set]
            by_cases same : other = name
            · simp [same, seen]
            · simp [same]
          · rw [Names.within_set_of_some (by simp [seen])]
            exact showsEnv
      | none =>
          have here : store.binds name = true := by
            simpa [Store.binds_eq, new, seen] using bound
          exact ⟨⟨⟨false, store.set name value⟩ :: scopes, globals⟩,
            by rw [rebindFrom?, if_pos here],
            ShowsFrom.set_inner value seen kept new outside⟩

namespace Shows

variable {env : Environment}

theorem lookup (shows : env.Shows names outer) (name : String) : env.lookup name = names name :=
  ShowsFrom.lookupFrom shows name

theorem bindHere (shows : env.Shows names outer) (value : Value) (free : names name = none) :
    (env.bindHere name value).Shows (names.set name value) outer := by
  obtain ⟨inner, globals⟩ := env
  cases shows with
  | globals distinct same =>
      apply ShowsFrom.globals (distinct.set name value)
      intro other
      exact (Store.get?_set ..).trans (by rw [same, Names.set])
  | @inner store scopes _ before _ kept new outside =>
      have unseen : before name = none := by
        cases seen : before name with
        | none => rfl
        | some old =>
            have visible : (names name).isSome := kept name (by rw [seen]; rfl)
            rw [free] at visible
            cases visible
      exact ShowsFrom.set_inner value unseen kept new outside

/-- An assignment changes the map at its name and nowhere else. -/
theorem assign (shows : env.Shows names outer) (name : String) (value : Value) :
    (env.assign name value).Shows (names.set name value) outer := by
  cases found : names name with
  | some old =>
      obtain ⟨rebound, same, showsRebound⟩ := ShowsFrom.rebind shows value (by rw [found]; rfl)
      rw [Environment.assign, same]
      exact showsRebound
  | none =>
      have free : lookupFrom env.globals name env.inner = none :=
        (ShowsFrom.lookupFrom shows name).trans found
      rw [Environment.assign, rebindFrom?_eq_none value free]
      exact shows.bindHere value found

theorem push (shows : env.Shows names outer) : env.push.Shows names (names :: outer) := by
  apply ShowsFrom.inner
  · intro name seen
    exact seen
  · intro name
    cases names name <;> simp [Store.get?]
  · rw [Names.within_self]
    exact shows

theorem pop (shows : env.Shows names (before :: outer)) :
    env.pop.Shows (names.within before) outer := by
  obtain ⟨inner, globals⟩ := env
  cases shows with
  | inner kept new outside => exact outside

theorem empty : Shows {} .empty [] := ShowsFrom.globals List.nodup_nil fun _ => rfl

/-- Outside of blocks the map is that of the global scope. -/
theorem get?_globals (shows : env.Shows names []) :
    env.globals.Distinct ∧ ∀ name, env.globals.get? name = names name := by
  obtain ⟨inner, globals⟩ := env
  cases shows with
  | globals distinct same => exact ⟨distinct, same⟩

end Shows

end Environment

end Sipl
