import Signet.Proofs.Type.Variables

/-!
# Types in scopes

A type is settled in a scope if the names of the scope are variables in it, and only they: its
variables are of the scope, and binding the names of the scope changes nothing. This can be decided
layer by layer (`Ty.settled_mk`). Scopes may be bound one after the other or all at once
(`Ty.bind_bind`).
-/

namespace Signet

variable {τ : Type} {scope outer own : List String}

/-- The layer is a class name without arguments. -/
def Layer.Bare (layer : Layer τ) : Prop := ∃ name : TypeName, layer = .named .ofClass name []

theorem Layer.bare_map {σ : Type} (f : τ → σ) (layer : Layer τ) :
    (layer.map f).Bare ↔ layer.Bare := by
  constructor
  · rintro ⟨name, same⟩
    refine ⟨name, ?_⟩
    cases layer <;> simp_all [Layer.map]
  · rintro ⟨name, rfl⟩
    exact ⟨name, rfl⟩

/-- The layer by itself is a class name that the scope takes for a variable. -/
def Layer.Captured (scope : List String) (layer : Layer τ) : Prop :=
  ∃ name : TypeName, layer = .named .ofClass name [] ∧ name.isSimple = true ∧ name.base ∈ scope

namespace Ty

/-- The names of the scope are variables in the type, and only they. -/
structure Settled (scope : List String) (type : Ty) : Prop where
  vars_mem : ∀ name ∈ type.vars, name ∈ scope
  bind_eq : type.bind scope = type

/-- Binding changes the layers that are captured. -/
theorem bindLayer_cases (scope : List String) (layer : Layer Ty) :
    (¬ layer.Captured scope ∧ bindLayer scope layer = ⟨layer⟩) ∨
      ∃ name : TypeName, layer = .named .ofClass name [] ∧ name.isSimple = true ∧
        name.base ∈ scope ∧ bindLayer scope layer = ⟨.var name.base⟩ := by
  unfold bindLayer
  split
  · rename_i name
    by_cases bound : (name.isSimple && scope.contains name.base) = true
    · rw [if_pos bound]
      simp only [Bool.and_eq_true, List.contains_iff_mem] at bound
      exact .inr ⟨name, rfl, bound.1, bound.2, rfl⟩
    · rw [if_neg bound]
      refine .inl ⟨?_, rfl⟩
      rintro ⟨other, same, simple, member⟩
      obtain rfl : name = other := by simpa using same
      exact bound (by simp [simple, member])
  · rename_i other
    exact .inl ⟨fun ⟨name, same, _⟩ => other name same, rfl⟩

/-! ## Binding layer by layer -/

/-- Variables are not bound again. -/
theorem bind_var (name : String) : bind scope ⟨.var name⟩ = ⟨.var name⟩ := bind_mk scope _

/-- A bare class name becomes a variable if it is of the scope. -/
theorem bind_bare (name : TypeName) : bind scope ⟨.named .ofClass name []⟩ =
    if name.isSimple && scope.contains name.base then ⟨.var name.base⟩
    else ⟨.named .ofClass name []⟩ := bind_mk scope _

/-- Every other layer stays, with what is in it bound. -/
theorem bind_of_not_bare {layer : Layer Ty} (notBare : ¬ layer.Bare) :
    bind scope ⟨layer⟩ = ⟨layer.map (bind scope)⟩ := by
  rw [bind_mk]
  rcases bindLayer_cases scope (layer.map (bind scope)) with ⟨-, kept⟩ | ⟨name, same, -⟩
  · exact kept
  · exact absurd ((Layer.bare_map _ layer).1 ⟨name, same⟩) notBare

/-- Binding makes variables of names of the scope only. -/
theorem mem_vars_bind {type : Ty} {name : String} (occurs : name ∈ (type.bind scope).vars) :
    name ∈ type.vars ∨ name ∈ scope := by
  induction type using induction with
  | step layer ih =>
      by_cases bare : layer.Bare
      · obtain ⟨bareName, rfl⟩ := bare
        rw [bind_bare] at occurs
        split at occurs
        · rename_i bound
          obtain rfl : bareName.base = name := by simpa [mem_vars_mk, Layer.parts] using occurs
          exact .inr (by simpa using (Bool.and_eq_true_iff.1 bound).2)
        · exact .inl occurs
      · rw [bind_of_not_bare bare, mem_vars_mk, Layer.parts_map] at occurs
        rcases occurs with same | ⟨part, member, occurs⟩
        · refine .inl ((mem_vars_mk ..).2 (.inl ?_))
          cases layer <;> simp_all [Layer.map]
        · obtain ⟨part, inside, rfl⟩ := List.mem_map.1 member
          rcases ih part inside occurs with old | new
          · exact .inl ((mem_vars_mk ..).2 (.inr ⟨part, inside, old⟩))
          · exact .inr new

/-- Binding in one scope and then in another is binding in both together. -/
theorem bind_bind (type : Ty) : (type.bind outer).bind own = type.bind (outer ++ own) := by
  induction type using induction with
  | step layer ih =>
      by_cases bare : layer.Bare
      · obtain ⟨name, rfl⟩ := bare
        rw [bind_bare, bind_bare]
        by_cases simple : name.isSimple = true
        · by_cases first : name.base ∈ outer
          · simp [simple, first, bind_var]
          · simp [simple, first, bind_bare]
        · simp [simple, bind_bare]
      · have stillNot : ¬ (layer.map (bind outer)).Bare := by rwa [Layer.bare_map]
        rw [bind_of_not_bare bare, bind_of_not_bare stillNot, bind_of_not_bare bare, Layer.map_map]
        exact congrArg mk (Layer.map_congr ih)

/-! ## Settled types -/

/-- A type is settled if its variables are of the scope, layer by layer, and no layer is
captured. -/
theorem settled_mk {layer : Layer Ty} : Settled scope ⟨layer⟩ ↔
    (∀ name, layer = .var name → name ∈ scope) ∧ ¬ layer.Captured scope ∧
      ∀ part ∈ layer.parts, part.Settled scope := by
  constructor
  · rintro ⟨vars, bound⟩
    rw [bind_mk] at bound
    rcases bindLayer_cases scope (layer.map (bind scope)) with
      ⟨free, kept⟩ | ⟨name, same, -, -, put⟩
    · have filled : layer.map (bind scope) = layer := mk.inj (kept.symm.trans bound)
      refine ⟨fun name same => vars name ((mem_vars_mk ..).2 (.inl same)), filled ▸ free, ?_⟩
      intro part member
      refine ⟨fun name occurs => vars name ((mem_vars_mk ..).2 (.inr ⟨part, member, occurs⟩)), ?_⟩
      exact Layer.map_eq_self_iff.1 filled part member
    · -- a variable is not captured, whatever is bound in it
      obtain rfl : Layer.var name.base = layer := mk.inj (put.symm.trans bound)
      cases same
  · rintro ⟨here, free, parts⟩
    have filled : layer.map (bind scope) = layer :=
      Layer.map_eq_self_iff.2 fun part member => (parts part member).bind_eq
    refine ⟨fun name occurs => ?_, ?_⟩
    · rcases (mem_vars_mk ..).1 occurs with same | ⟨part, member, occurs⟩
      · exact here name same
      · exact (parts part member).vars_mem name occurs
    · rw [bind_mk, filled]
      rcases bindLayer_cases scope layer with ⟨-, kept⟩ | ⟨name, same, simple, member, -⟩
      · exact kept
      · exact (free ⟨name, same, simple, member⟩).elim

theorem settled_var {name : String} : Settled scope ⟨.var name⟩ ↔ name ∈ scope := by
  constructor
  · exact fun settled => (settled_mk.1 settled).1 name rfl
  · intro member
    refine settled_mk.2 ⟨?_, ?_, nofun⟩
    · rintro other ⟨⟩
      exact member
    · rintro ⟨_, same, -⟩
      cases same

/-- What is settled in a scope is settled in a part of it, if the variables are of that part. -/
theorem Settled.restrict {type : Ty} (settled : type.Settled scope) (subset : own ⊆ scope)
    (vars : ∀ name ∈ type.vars, name ∈ own) : type.Settled own := by
  induction type using induction with
  | step layer ih =>
      obtain ⟨-, free, parts⟩ := settled_mk.1 settled
      refine settled_mk.2 ⟨fun name same => vars name ((mem_vars_mk ..).2 (.inl same)), ?_, ?_⟩
      · rintro ⟨name, same, simple, member⟩
        exact free ⟨name, same, simple, subset member⟩
      · intro part member
        refine ih part member (parts part member) fun name occurs => ?_
        exact vars name ((mem_vars_mk ..).2 (.inr ⟨part, member, occurs⟩))

/-- What is settled in two scopes together is settled in the second alone exactly if it has no
variable of the first alone. -/
theorem Settled.right_iff {type : Ty} (settled : type.Settled (outer ++ own)) :
    type.Settled own ↔ ∀ name ∈ type.vars, name ∈ outer → name ∈ own := by
  refine ⟨fun alone name occurs _ => alone.vars_mem name occurs, fun inner => ?_⟩
  refine settled.restrict (List.subset_append_right outer own) fun name occurs => ?_
  rcases List.mem_append.1 (settled.vars_mem name occurs) with member | member
  · exact inner name occurs member
  · exact member

/-- A type means the same with and without the names further out if none of them becomes a variable
that is not of the scope itself. -/
theorem bind_append_eq {type : Ty}
    (inner : ∀ name ∈ (type.bind (outer ++ own)).vars, name ∈ outer → name ∈ own) :
    type.bind (outer ++ own) = type.bind own := by
  induction type using induction with
  | step layer ih =>
      rw [bind_mk] at inner
      rw [bind_mk, bind_mk]
      rcases bindLayer_cases (outer ++ own) (layer.map (bind (outer ++ own))) with
        ⟨free, kept⟩ | ⟨name, same, simple, member, put⟩
      · rw [kept] at inner ⊢
        have filled : layer.map (bind (outer ++ own)) = layer.map (bind own) := by
          refine Layer.map_congr fun part member => ih part member fun name occurs => ?_
          refine inner name ((mem_vars_mk ..).2 (.inr ⟨part.bind (outer ++ own), ?_, occurs⟩))
          rw [Layer.parts_map]
          exact List.mem_map_of_mem member
        rw [filled] at free ⊢
        rcases bindLayer_cases own (layer.map (bind own)) with
          ⟨-, kept⟩ | ⟨name, same, simple, member, -⟩
        · exact kept.symm
        · exact (free ⟨name, same, simple, List.mem_append_right outer member⟩).elim
      · rw [put] at inner ⊢
        have inOwn : name.base ∈ own := by
          rcases List.mem_append.1 member with outside | here
          · exact inner name.base ((mem_vars_mk ..).2 (.inl rfl)) outside
          · exact here
        -- a layer without types is the same in both scopes
        obtain rfl : layer = .named .ofClass name [] := by
          cases layer <;> simp_all [Layer.map]
        simp [Layer.map, bindLayer, simple, inOwn]

/-- A layer that is neither a variable nor a bare class name is settled if its types are. -/
theorem settled_of_parts {layer : Layer Ty} (notVar : ∀ name, layer ≠ .var name)
    (notBare : ∀ name, layer ≠ .named .ofClass name [])
    (parts : ∀ part ∈ layer.parts, part.Settled scope) : Settled scope ⟨layer⟩ :=
  settled_mk.2 ⟨fun name same => (notVar name same).elim, fun ⟨name, same, _⟩ => notBare name same,
    parts⟩

end Ty

end Signet
