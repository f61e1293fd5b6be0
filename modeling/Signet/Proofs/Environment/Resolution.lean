import Signet.Environment.Context

/-!
# What relative names refer to

Each scope around a name offers one absolute name for it: each module whose name can be told, and
the top level behind them all (`Context.Offers`). A name refers to what the innermost scope offers
that offers a declared one (`Context.exists_picks`). This determines the scope
(`Context.Picks.unique`), so if more names are declared, a name that refers to something still does,
from the same scope or from one farther inside (`Context.resolve_innermost`).
-/

namespace Signet.Context

variable {context : Context} {modules outer : List Enclosing} {module : Enclosing}
  {name found other : TypeName} {declared more : TypeName → Bool} {depth inner : Nat}

/-! ## Scopes -/

/-- The absolute name that a scope offers for a name. The scopes are told apart by the number of
modules farther inside; a module whose name cannot be told offers nothing. -/
inductive Offers (name : TypeName) : List Enclosing → Nat → TypeName → Prop
  | top : Offers name [] 0 ⟨⟨name.scope.path, true⟩, name.base⟩
  | inside (module : TypeName) (outer : List Enclosing) :
      Offers name (.known module :: outer) 0
        ⟨⟨module.scope.path ++ module.base :: name.scope.path, true⟩, name.base⟩
  | outside (module : Enclosing) {outer : List Enclosing} {depth : Nat} {found : TypeName}
      (offers : Offers name outer depth found) : Offers name (module :: outer) (depth + 1) found

/-- A scope offers one name at most. -/
theorem Offers.unique (one : Offers name modules depth found)
    (two : Offers name modules depth other) : other = found := by
  induction one with
  | top => cases two; rfl
  | inside => cases two; rfl
  | outside module _ ih =>
      cases two with
      | outside _ offers => exact ih offers

/-- What is offered is absolute. -/
theorem Offers.isAbsolute (offers : Offers name modules depth found) : found.isAbsolute = true := by
  induction offers with
  | top => rfl
  | inside => rfl
  | outside _ _ ih => exact ih

/-- The scope offers a declared name, and no scope farther inside does. -/
structure Picks (modules : List Enclosing) (name : TypeName) (declared : TypeName → Bool)
    (depth : Nat) (found : TypeName) : Prop where
  offers : Offers name modules depth found
  isDeclared : declared found = true
  innermost : ∀ inner other, inner < depth → Offers name modules inner other →
    declared other = false

namespace Picks

/-- In the innermost module. -/
theorem inside {module : TypeName} (offers : Offers name (.known module :: outer) 0 found)
    (isDeclared : declared found = true) : Picks (.known module :: outer) name declared 0 found :=
  ⟨offers, isDeclared, nofun⟩

/-- A module that offers no declared name is passed. -/
theorem outside (silent : ∀ other, Offers name (module :: outer) 0 other → declared other = false)
    (picks : Picks outer name declared depth found) :
    Picks (module :: outer) name declared (depth + 1) found where
  offers := .outside module picks.offers
  isDeclared := picks.isDeclared
  innermost := by
    intro inner other before offers
    cases offers with
    | inside => exact silent _ (.inside ..)
    | outside _ offers => exact picks.innermost _ other (Nat.lt_of_succ_lt_succ before) offers

/-- If more names are declared, the scope is the same or one farther inside. -/
theorem le_of_declared (picks : Picks modules name declared depth found)
    (all : ∀ name, declared name = true → more name = true)
    (later : Picks modules name more inner other) : inner ≤ depth := by
  refine Nat.le_of_not_lt fun passed => ?_
  have silent := later.innermost depth found passed picks.offers
  rw [all found picks.isDeclared] at silent
  cases silent

/-- One scope is picked at most. -/
theorem unique (one : Picks modules name declared depth found)
    (two : Picks modules name declared inner other) : other = found := by
  have same : inner = depth := Nat.le_antisymm (one.le_of_declared (fun _ => id) two)
    (two.le_of_declared (fun _ => id) one)
  exact one.offers.unique (same ▸ two.offers)

end Picks

/-! ## Looking up -/

/-- A relative name in a module. -/
theorem within_eq (relative : name.isAbsolute = false) (module : TypeName) :
    name.within module.toNamespace.toAbsolute =
      ⟨⟨module.scope.path ++ module.base :: name.scope.path, true⟩, name.base⟩ := by
  have written : name.scope.absolute = false := relative
  simp [TypeName.within, TypeName.isAbsolute, Namespace.join, TypeName.toNamespace,
    Namespace.append, Namespace.toAbsolute, written]

theorem candidates_known (relative : name.isAbsolute = false) (module : TypeName)
    (outer : List Enclosing) : candidates ⟨.known module :: outer⟩ name =
      ⟨⟨module.scope.path ++ module.base :: name.scope.path, true⟩, name.base⟩ ::
        candidates ⟨outer⟩ name := by
  rw [← within_eq relative]
  rfl

/-- What a scope offers is a candidate. -/
theorem Offers.mem_candidates (relative : name.isAbsolute = false)
    (offers : Offers name modules depth found) : found ∈ candidates ⟨modules⟩ name := by
  induction offers with
  | top => exact List.mem_singleton_self _
  | inside module outer =>
      rw [candidates_known relative]
      exact List.mem_cons_self
  | outside module _ ih =>
      cases module with
      | unknown => exact ih
      | known module =>
          rw [candidates_known relative]
          exact List.mem_cons_of_mem _ ih

/-- The first candidate that is declared is picked. -/
theorem exists_picks (relative : name.isAbsolute = false)
    (first : (candidates ⟨modules⟩ name).find? declared = some found) :
    ∃ depth, Picks modules name declared depth found := by
  induction modules with
  | nil =>
      obtain rfl : found = name.toAbsolute := List.mem_singleton.1 (List.mem_of_find?_eq_some first)
      exact ⟨0, .top, List.find?_some first, nofun⟩
  | cons module outer ih =>
      cases module with
      | unknown =>
          obtain ⟨depth, picks⟩ := ih first
          exact ⟨depth + 1, picks.outside nofun⟩
      | known module =>
          rw [candidates_known relative, List.find?_cons] at first
          -- Either this module offers a declared name, or the lookup goes on outside of it.
          split at first
          · rename_i here
            obtain rfl := Option.some.inj first
            exact ⟨0, .inside (.inside module outer) here⟩
          · rename_i here
            obtain ⟨depth, picks⟩ := ih first
            refine ⟨depth + 1, picks.outside fun other offers => ?_⟩
            cases offers
            exact here

theorem resolve_relative (relative : name.isAbsolute = false) (context : Context)
    (declared : TypeName → Bool) :
    context.resolve name declared = (context.candidates name).find? declared := by
  simp [resolve, relative]

/-- A name refers to nothing exactly if no scope offers a declared name. -/
theorem resolve_eq_none_iff (relative : name.isAbsolute = false) (context : Context)
    (declared : TypeName → Bool) : context.resolve name declared = none ↔
      ∀ depth found, Offers name context.modules depth found → declared found = false := by
  rw [resolve_relative relative]
  constructor
  · intro nothing depth found offers
    exact Bool.eq_false_iff.2 (List.find?_eq_none.1 nothing found (offers.mem_candidates relative))
  · intro silent
    cases first : (context.candidates name).find? declared with
    | none => rfl
    | some found =>
        obtain ⟨depth, picks⟩ := exists_picks relative first
        have undeclared := silent depth found picks.offers
        rw [picks.isDeclared] at undeclared
        cases undeclared

/-- The name refers to what is picked. -/
theorem resolve_eq_some_iff (relative : name.isAbsolute = false) (context : Context)
    (declared : TypeName → Bool) (found : TypeName) :
    context.resolve name declared = some found ↔
      ∃ depth, Picks context.modules name declared depth found := by
  constructor
  · intro resolved
    rw [resolve_relative relative] at resolved
    exact exists_picks relative resolved
  · rintro ⟨depth, picks⟩
    cases resolved : context.resolve name declared with
    | none =>
        have silent := (resolve_eq_none_iff relative context declared).1 resolved depth found
        have isDeclared := picks.isDeclared
        rw [silent picks.offers] at isDeclared
        cases isDeclared
    | some other =>
        rw [resolve_relative relative] at resolved
        obtain ⟨inner, others⟩ := exists_picks relative resolved
        exact congrArg some (picks.unique others)

/-- If more names are declared, a name that refers to something still does, from the same scope or
from one farther inside. -/
theorem Picks.exists_of_declared (relative : name.isAbsolute = false)
    (picks : Picks context.modules name declared depth found)
    (all : ∀ name, declared name = true → more name = true) :
    ∃ inner other, context.resolve name more = some other ∧
      Picks context.modules name more inner other ∧ inner ≤ depth ∧
      (inner = depth → other = found) := by
  cases resolved : context.resolve name more with
  | none =>
      have silent := (resolve_eq_none_iff relative context more).1 resolved depth found picks.offers
      rw [all found picks.isDeclared] at silent
      cases silent
  | some other =>
      obtain ⟨inner, later⟩ := (resolve_eq_some_iff relative context more other).1 resolved
      refine ⟨inner, other, rfl, later, picks.le_of_declared all later, ?_⟩
      rintro rfl
      exact picks.offers.unique later.offers

/-- No name is looked up in a module whose name cannot be told. -/
theorem names_filter (modules : List Enclosing) :
    names ⟨modules.filter (· ≠ .unknown)⟩ = names ⟨modules⟩ := by
  rw [names, names, List.filterMap_filter]
  congr 1
  funext module
  cases module <;> rfl

theorem resolve_filter (context : Context) (name : TypeName) (declared : TypeName → Bool) :
    resolve ⟨context.modules.filter (· ≠ .unknown)⟩ name declared =
      context.resolve name declared := by
  rw [resolve, resolve, candidates, candidates, names_filter]

/-- What a name refers to is what the innermost scope offers that offers a declared name. -/
structure InnermostFirst (context : Context) (name : TypeName) (declared : TypeName → Bool) :
    Prop where
  sound : ∀ found, context.resolve name declared = some found →
    found.isAbsolute = true ∧ declared found = true
  some_iff : ∀ found, context.resolve name declared = some found ↔
    ∃ depth, Picks context.modules name declared depth found
  none_iff : context.resolve name declared = none ↔
    ∀ depth found, Offers name context.modules depth found → declared found = false
  /-- Modules whose names cannot be told make no difference. -/
  filter_eq : resolve ⟨context.modules.filter (· ≠ .unknown)⟩ name declared =
    context.resolve name declared
  /-- With more names declared it comes from the same scope or from one farther inside. -/
  monotone : ∀ more : TypeName → Bool, (∀ name, declared name = true → more name = true) →
    ∀ depth found, Picks context.modules name declared depth found →
      ∃ inner other, context.resolve name more = some other ∧
        Picks context.modules name more inner other ∧ inner ≤ depth ∧
        (inner = depth → other = found)

/-- Relative names refer to what the innermost scope offers that offers a declared name. -/
theorem resolve_innermost (relative : name.isAbsolute = false) (context : Context)
    (declared : TypeName → Bool) : context.InnermostFirst name declared where
  sound := by
    intro found resolved
    obtain ⟨depth, picks⟩ := (resolve_eq_some_iff relative context declared found).1 resolved
    exact ⟨picks.offers.isAbsolute, picks.isDeclared⟩
  some_iff := resolve_eq_some_iff relative context declared
  none_iff := resolve_eq_none_iff relative context declared
  filter_eq := context.resolve_filter name declared
  monotone := fun _ all _ _ picks => picks.exists_of_declared relative all

/-- Modules with and without names around a name; a declaration farther inside takes it over. -/
theorem resolve_innermost_shadowed :
    ∃ (context : Context) (declared more : TypeName → Bool),
      context.modules =
        [.unknown, .known (.ofString "B::X"), .unknown, .known (.ofString "::A")] ∧
      (TypeName.ofString "C::D").isAbsolute = false ∧
      context.InnermostFirst (.ofString "C::D") declared ∧
      context.InnermostFirst (.ofString "C::D") more ∧
      (∀ name, declared name = true → more name = true) ∧
      context.resolve (.ofString "C::D") declared = some (.ofString "::A::C::D") ∧
      context.resolve (.ofString "C::D") more = some (.ofString "::B::X::C::D") := by
  let context : Context :=
    ⟨[.unknown, .known (.ofString "B::X"), .unknown, .known (.ofString "::A")]⟩
  let declared (name : TypeName) : Bool :=
    [.ofString "::C::D", .ofString "::A::C::D"].contains name
  let more (name : TypeName) : Bool := declared name || name = .ofString "::B::X::C::D"
  have relative : (TypeName.ofString "C::D").isAbsolute = false := by decide
  refine ⟨context, declared, more, rfl, relative, resolve_innermost relative context declared,
    resolve_innermost relative context more, ?_, by decide, by decide⟩
  intro name isDeclared
  exact Bool.or_eq_true_iff.2 (.inl isDeclared)

end Signet.Context
