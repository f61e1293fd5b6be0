import Signet.Proofs.Type.Same
import Signet.Type.Substitution

/-!
# Variables, substitution and renaming

What a substitution does depends on what stands for the variables that occur and on nothing else
(`Ty.substitute_eq_iff`), and one substitution after another is their composition
(`Ty.substitute_substitute`). Renaming is the substitution of variables for variables
(`Ty.rename`). For it, it does not matter whether keyword parameters are sorted before or after.
-/

namespace Signet

variable {τ σ : Type}

/-! ## Sorting and filling -/

theorem Keyword.sort_map (f : τ → σ) (keywords : List (Keyword τ)) :
    sort (keywords.map (Keyword.map f)) = (sort keywords).map (Keyword.map f) :=
  (List.map_mergeSort (f := Keyword.map f) fun _ _ _ _ => rfl).symm

theorem Params.sorted_map (f : τ → σ) (params : Params τ) :
    (params.map f).sorted = params.sorted.map f := by
  simp [Params.map, Params.sorted, Keyword.sort_map]

theorem Function.sorted_map (f : τ → σ) (function : Function τ) :
    (function.map f).sorted = function.sorted.map f := by
  cases function <;> simp [Function.map, Function.sorted, Params.sorted_map]

/-- A layer may be sorted before it is filled. -/
theorem Layer.sorted_map (f : τ → σ) (layer : Layer τ) :
    (layer.map f).sorted = layer.sorted.map f := by
  cases layer with
  | proc function block =>
      cases block <;> simp [Layer.map, Layer.sorted, Function.sorted_map, Block.map, Block.sorted]
  | _ => rfl

/-- A layer that is filled and sorted is a variable exactly if it was one before. -/
theorem Layer.sorted_map_eq_var_iff {f : τ → σ} {layer : Layer τ} {name : String} :
    (layer.map f).sorted = .var name ↔ layer = .var name := by
  cases layer <;> simp [Layer.sorted, Layer.map]

/-- Sorting a layer neither adds nor drops types. -/
theorem Layer.mem_parts_sorted (layer : Layer τ) (type : τ) :
    type ∈ layer.sorted.parts ↔ type ∈ layer.parts := by
  have ofParams : ∀ params : Params τ, type ∈ params.sorted.parts ↔ type ∈ params.parts := by
    intro params
    have required := fun k => (Keyword.sort_perm params.requiredKeywords).mem_iff (a := k)
    have optional := fun k => (Keyword.sort_perm params.optionalKeywords).mem_iff (a := k)
    simp [Params.sorted, Params.parts, Params.positionals, Params.keywords, required, optional]
  have ofFunction : ∀ function : Function τ,
      type ∈ function.sorted.parts ↔ type ∈ function.parts := by
    intro function
    cases function <;> simp [Function.sorted, Function.parts, ofParams]
  cases layer with
  | proc function block => cases block <;> simp [sorted, parts, ofFunction, Block.sorted]
  | _ => rfl

/-- Filling a parameter list leaves its keys as they are. -/
theorem Params.Keyed.map {params : Params τ} (keyed : params.Keyed) (f : τ → σ) :
    (params.map f).Keyed := by
  have keys : (fun k : Keyword σ => k.key) ∘ Keyword.map f = fun k => k.key := rfl
  refine ⟨?_, ?_⟩
  · simpa [Params.map, keys] using keyed.required
  · simpa [Params.map, keys] using keyed.optional

theorem Layer.paramLists_map (f : τ → σ) (layer : Layer τ) :
    (layer.map f).paramLists = layer.paramLists.map (Params.map f) := by
  have ofFunction : ∀ function : Function τ,
      (function.map f).params? = function.params?.map (Params.map f) := by
    intro function
    cases function <;> rfl
  cases layer with
  | proc function block =>
      cases block <;> simp [Layer.map, paramLists, ofFunction, Block.map, Option.toList_map]
  | _ => rfl

namespace Ty

/-! ## The variables of a type -/

/-- The variables of a type are those of its parts, unless it is one. -/
theorem vars_mk (layer : Layer Ty) :
    vars ⟨layer⟩ = match layer with
      | .var name => [name]
      | layer => (layer.map vars).parts.flatten := by
  rw [vars, fold_mk]
  cases layer <;> rfl

/-- A variable occurs in a type if the type is it or if it occurs in a part. -/
theorem mem_vars_mk (layer : Layer Ty) (name : String) :
    name ∈ vars ⟨layer⟩ ↔ layer = .var name ∨ ∃ type ∈ layer.parts, name ∈ type.vars := by
  rw [vars_mk]
  cases layer with
  | var other => simp [Layer.parts, eq_comm]
  | _ =>
      simp only [Layer.parts_map]
      simp

/-- Sorting keeps the variables. -/
theorem mem_vars_sorted (type : Ty) (name : String) :
    name ∈ type.sorted.vars ↔ name ∈ type.vars := by
  induction type using induction with
  | step layer ih =>
      rw [sorted_mk, mem_vars_mk, mem_vars_mk, Layer.sorted_map_eq_var_iff, Layer.sorted_map,
        Layer.parts_map]
      have parts_iff : (∃ type ∈ layer.sorted.parts.map sorted, name ∈ type.vars) ↔
          ∃ type ∈ layer.parts, name ∈ type.vars := by
        simp only [List.mem_map, exists_exists_and_eq_and, Layer.mem_parts_sorted]
        exact exists_congr fun type => and_congr_right fun member => ih type member
      rw [parts_iff]

/-! ## Substitution -/

/-- The types are the variables and the other layers, with what is in them. -/
theorem induction_vars {motive : Ty → Prop} (var : ∀ name, motive ⟨.var name⟩)
    (other : ∀ layer, (∀ name, layer ≠ .var name) → (∀ type ∈ layer.parts, motive type) →
      motive ⟨layer⟩) (type : Ty) : motive type := by
  induction type using induction with
  | step layer ih =>
      by_cases isVar : ∃ name, layer = .var name
      · obtain ⟨name, rfl⟩ := isVar
        exact var name
      · exact other layer (not_exists.1 isVar) ih

/-- A layer that is no variable has the variables of its types. -/
theorem mem_vars_of_not_var {layer : Layer Ty} (other : ∀ name, layer ≠ .var name)
    (name : String) : name ∈ vars ⟨layer⟩ ↔ ∃ type ∈ layer.parts, name ∈ type.vars := by
  rw [mem_vars_mk, or_iff_right (other name)]

end Ty

namespace Substitution

/-- The type that stands for a variable. -/
def value (values : Substitution) (name : String) : Ty := (values name).getD ⟨.var name⟩

/-- One substitution and then another: the second also changes what the first has put in. -/
def andThen (first second : Substitution) : Substitution := fun name =>
  match first name with
  | some type => some (type.substitute second)
  | none => second name

end Substitution

namespace Ty

variable {values first second : Substitution}

theorem substitute_var (name : String) : substitute values ⟨.var name⟩ = values.value name :=
  substitute_mk values (.var name)

theorem substitute_of_not_var {layer : Layer Ty} (other : ∀ name, layer ≠ .var name) :
    substitute values ⟨layer⟩ = ⟨layer.map (substitute values)⟩ := by
  rw [substitute_mk]
  cases layer with
  | var name => exact (other name rfl).elim
  | _ => rfl

theorem value_andThen (name : String) :
    (first.andThen second).value name = (first.value name).substitute second := by
  unfold Substitution.value Substitution.andThen
  cases first name with
  | some type => simp
  | none =>
      have here : substitute second ⟨.var name⟩ = second.value name := substitute_var name
      simpa [Substitution.value] using here.symm

/-- One substitution after another. -/
theorem substitute_substitute (type : Ty) :
    (type.substitute first).substitute second = type.substitute (first.andThen second) := by
  induction type using induction_vars with
  | var name => rw [substitute_var, substitute_var, value_andThen]
  | other layer notVar ih =>
      have stillNot : ∀ name, layer.map (substitute first) ≠ .var name := by
        intro name same
        cases layer with
        | var old => exact notVar old rfl
        | _ => cases same
      rw [substitute_of_not_var notVar, substitute_of_not_var stillNot,
        substitute_of_not_var notVar, Layer.map_map]
      exact congrArg mk (Layer.map_congr ih)

/-- Two substitutions give the same exactly if the same stands for each variable that occurs. -/
theorem substitute_eq_iff {type : Ty} : type.substitute first = type.substitute second ↔
    ∀ name ∈ type.vars, first.value name = second.value name := by
  induction type using induction_vars with
  | var name => simp [substitute_var, mem_vars_mk, Layer.parts]
  | other layer notVar ih =>
      rw [substitute_of_not_var notVar, substitute_of_not_var notVar, mk.injEq,
        Layer.map_eq_map_iff]
      simp only [mem_vars_of_not_var notVar]
      constructor
      · rintro same name ⟨part, member, occurs⟩
        exact (ih part member).1 (same part member) name occurs
      · intro agree part member
        exact (ih part member).2 fun name occurs => agree name ⟨part, member, occurs⟩

theorem substitute_none (type : Ty) : type.substitute (fun _ => none) = type := by
  induction type using induction_vars with
  | var name => exact substitute_var name
  | other layer notVar ih =>
      rw [substitute_of_not_var notVar, Layer.map_eq_self_iff.2 ih]

/-! ## Renaming -/

/-- The type with other names for its variables. -/
def rename (naming : String → String) : Ty → Ty :=
  substitute fun name => some ⟨.var (naming name)⟩

/-- A layer with another name if it is a variable. -/
def renameLayer (naming : String → String) : Layer Ty → Layer Ty
  | .var name => .var (naming name)
  | layer => layer

theorem rename_mk (naming : String → String) (layer : Layer Ty) :
    rename naming ⟨layer⟩ = ⟨renameLayer naming (layer.map (rename naming))⟩ := by
  rw [rename, substitute_mk]
  cases layer <;> rfl

variable {naming other : String → String}

/-- Renaming depends on the variables that occur. -/
theorem rename_congr {type : Ty} (agree : ∀ name ∈ type.vars, naming name = other name) :
    rename naming type = rename other type :=
  substitute_eq_iff.2 fun name occurs =>
    congrArg (fun renamed => (⟨.var renamed⟩ : Ty)) (agree name occurs)

/-- One renaming after another. -/
theorem rename_rename (type : Ty) :
    (type.rename naming).rename other = type.rename (other ∘ naming) := by
  rw [rename, rename, rename, substitute_substitute]
  refine substitute_eq_iff.2 fun name _ => ?_
  rw [value_andThen]
  exact substitute_var (naming name)

theorem rename_id (type : Ty) : type.rename id = type :=
  (substitute_eq_iff.2 fun _ _ => rfl).trans (substitute_none type)

/-- Sorting does not look at variables. -/
theorem sorted_rename (type : Ty) : (type.rename naming).sorted = type.sorted.rename naming := by
  induction type using induction with
  | step layer ih =>
      have filled : (layer.map (rename naming)).map sorted =
        (layer.map sorted).map (rename naming) := by
        rw [Layer.map_map, Layer.map_map]
        exact Layer.map_congr ih
      rw [rename_mk, sorted_mk, sorted_mk, rename_mk, ← Layer.sorted_map, ← filled]
      cases layer <;> rfl

/-- The variables of a renamed type are the new names of those of the type. -/
theorem mem_vars_rename (type : Ty) (name : String) :
    name ∈ (type.rename naming).vars ↔ ∃ old ∈ type.vars, naming old = name := by
  induction type using induction with
  | step layer ih =>
      have inside : (∃ part ∈ layer.parts.map (rename naming), name ∈ part.vars) ↔
          ∃ part ∈ layer.parts, ∃ old ∈ part.vars, naming old = name := by
        simp only [List.mem_map, exists_exists_and_eq_and]
        exact exists_congr fun part => and_congr_right fun member => ih part member
      rw [rename_mk, mem_vars_mk]
      cases layer with
      | var old => simp [Layer.map, renameLayer, Layer.parts, mem_vars_mk]
      | _ =>
          rw [renameLayer, Layer.parts_map, inside]
          · simp [mem_vars_mk, Layer.map]
            grind
          · simp [Layer.map]

/-! ## Binding -/

/-- Binding names leaves the keys as they are. -/
theorem Keyed.bind {type : Ty} (keyed : type.Keyed) (scope : List String) :
    (type.bind scope).Keyed := by
  induction type using induction with
  | step layer ih =>
      obtain ⟨keys, parts⟩ := everywhere_mk.1 keyed
      -- binding the parts keeps the keys; binding the layer then gives it back or a variable
      have filled : Keyed ⟨layer.map (Ty.bind scope)⟩ := by
        refine everywhere_mk.2 ⟨?_, fun part member => ?_⟩
        · rw [Layer.paramLists_map]
          intro params member
          obtain ⟨old, inside, rfl⟩ := List.mem_map.1 member
          exact (keys old inside).map (Ty.bind scope)
        · rw [Layer.parts_map] at member
          obtain ⟨old, inside, rfl⟩ := List.mem_map.1 member
          exact ih old inside (parts old inside)
      rw [bind_mk]
      unfold bindLayer
      split
      · split
        · exact everywhere_mk.2 ⟨by simp [Layer.paramLists], by simp [Layer.parts]⟩
        · simpa [*] using filled
      · exact filled

end Ty

end Signet
