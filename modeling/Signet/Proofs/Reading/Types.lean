import Signet.Proofs.Reading.Functions
import Signet.Proofs.Reading.MethodTypes

/-!
# Types by themselves

A text is read as a type if the rule for types reads it up to blanks and comments at its end
(`readType_all_eq_ok_iff`). So every plain type is read again from its printed text
(`readType_plain`), and of the names that are spelled in the way of the grammar all but an alias
with a module in front of it are read as types (`Ty.ofString_name_iff`).
-/

namespace Signet

open Text Grammar Phrase

variable {scope : List String} {buffer : Buffer} {type : Ty} {cursor next : Cursor}

/-! ## Whole texts -/

/-- The end of a text is read where nothing is left but blanks and comments. -/
theorem exists_read_finish_iff :
    (∃ trees last, Rule.finish.read cursor.skip = some (trees, last)) ↔
      afterBlanks cursor.rest = [] := by
  rw [← cursor.skip_rest]
  constructor
  · rintro ⟨trees, last, read⟩
    obtain ⟨-, -, scanned, -⟩ := (Rule.read_token_iff rfl).1 read
    rw [Scanner.finish] at scanned
    split at scanned
    · rename_i empty
      exact List.isEmpty_iff.1 empty
    · cases scanned
  · intro empty
    refine ⟨_, cursor.skip, (Rule.read_token_iff rfl).2 ⟨[], .refl _, ?_, rfl⟩⟩
    show Scanner.finish cursor.skip.rest = some cursor.skip.rest
    rw [empty]
    rfl

theorem needTree_eq_ok {tree child : ParseTree} {rule : Rule} {others : List ParseTree}
    (children : tree.children = child :: others) (same : child.rule = rule) :
    needTree tree rule = .ok child := by
  rw [needTree, findTree, children, List.find?_cons_of_pos (by simpa using same)]

/-- A type is read from a whole buffer exactly if the rule for types reads it and leaves nothing but
blanks and comments. -/
theorem readType_all_eq_ok_iff :
    readType buffer buffer.all scope = .ok type ↔
      ∃ tree next, Rule.typeExpr.read (Cursor.skip ⟨0, buffer.content⟩) = some ([tree], next) ∧
        afterBlanks next.rest = [] ∧ readTypeTree scope tree = .ok type := by
  refine readRange_all_eq_ok_iff.trans ⟨?_, ?_⟩
  · rintro ⟨tree, last, found, means⟩
    obtain ⟨_, whole, same⟩ := (Rule.read_phrase_iff rfl).1 found
    obtain ⟨rfl, -⟩ := List.cons.inj same
    obtain ⟨_, start, _, front, inner, rfl⟩ := read_seq_iff.1 whole
    obtain ⟨_, next, finish, here, there, rfl⟩ := read_seq_iff.1 inner
    obtain ⟨rfl, rfl⟩ := Prod.mk.inj (Option.some.inj front)
    obtain ⟨child, rfl, rule⟩ := Rule.exists_tree here
    rw [needTree_eq_ok rfl rule] at means
    exact ⟨child, next, here, exists_read_finish_iff.1 ⟨finish, last, there⟩, means⟩
  · rintro ⟨child, next, found, ends, means⟩
    obtain ⟨_, same, rule⟩ := Rule.exists_tree found
    obtain ⟨rfl, -⟩ := List.cons.inj same
    obtain ⟨finish, last, there⟩ := exists_read_finish_iff.2 ends
    have inner : (whole (call .typeExpr)).read ⟨0, buffer.content⟩ = some (child :: finish, last) :=
      read_seq_iff.2 ⟨[], _, _, rfl, read_seq_iff.2 ⟨_, next, _, found, there, rfl⟩, rfl⟩
    refine ⟨_, last, (Rule.read_phrase_iff rfl).2 ⟨_, inner, rfl⟩, ?_⟩
    rw [needTree_eq_ok rfl rule]
    exact means

/-- A text that the rule for types covers is read as a type. -/
theorem readType_eq_ok_of_covers
    (covers : (call .typeExpr).Covers buffer.content [] (Means scope .typeExpr type))
    (solid : Solid buffer.content) : readType buffer buffer.all scope = .ok type := by
  obtain ⟨_, next, read, stop, tree, rfl, -, means⟩ := covers 0
  rw [List.append_nil] at read
  refine readType_all_eq_ok_iff.2 ⟨tree, next, ?_, ?_, means⟩
  · rw [Cursor.skip_of_solid solid]
    exact read
  · rw [← next.skip_rest, stop]
    rfl

/-- Whatever is read as a type is readable. -/
theorem readable_of_readType (read : readType buffer buffer.all scope = .ok type) :
    type.Everywhere (Layer.Readable scope) := by
  obtain ⟨tree, next, found, -, means⟩ := readType_all_eq_ok_iff.1 read
  obtain ⟨_, same, rule⟩ := Rule.exists_tree found
  obtain ⟨rfl, -⟩ := List.cons.inj same
  exact (tree.sound.of_rule rule found means).1

/-! ## Plain types -/

/-- The layer is plain in a scope: a base type, a variable of the scope, a name that is spelled in
the way of its kind and is no variable, an optional type, a tuple, or at least two members that are
not of the same kind again. Neither literals nor functions are plain. -/
def Layer.Plain (scope : List String) : Layer Ty → Prop
  | .base _ | .optional _ | .tuple _ => True
  | .var name => name ∈ scope ∧ IsUpper name
  | .named kind name args => name.Spells kind ∧
      (kind = .ofClass → args = [] → name.isSimple = true → name.base ∉ scope)
  | .union types => 2 ≤ types.length ∧ ∀ type ∈ types, type.tightness ≠ .union
  | .intersection types => 2 ≤ types.length ∧ ∀ type ∈ types, type.tightness ≠ .intersection
  | .literal _ | .proc _ _ => False

instance (scope : List String) : DecidablePred (Layer.Plain scope)
  | .base _ | .optional _ | .tuple _ => isTrue trivial
  | .var _ => inferInstanceAs (Decidable (_ ∧ _))
  | .named _ _ _ => inferInstanceAs (Decidable (_ ∧ (_ → _ → _ → _)))
  | .union types =>
    inferInstanceAs (Decidable (2 ≤ types.length ∧ ∀ type ∈ types, type.tightness ≠ .union))
  | .intersection types =>
    inferInstanceAs (Decidable (2 ≤ types.length ∧ ∀ type ∈ types, type.tightness ≠ .intersection))
  | .literal _ | .proc _ _ => isFalse id

namespace Layer.Plain

variable {layer : Layer Ty} (plain : layer.Plain scope)

include plain

theorem readable : layer.Readable scope := by
  cases layer with
  | base _ | optional _ | tuple _ => trivial
  | var _ | named _ _ _ => exact plain
  | union _ | intersection _ => exact plain.1
  | literal _ | proc _ _ => exact plain.elim

theorem notLiteral : layer.NotLiteral := by
  cases layer with
  | literal _ => exact plain.elim
  | _ => trivial

theorem flat : layer.Flat := by
  cases layer with
  | union _ | intersection _ => exact plain.2
  | _ => trivial

theorem resultsTight : layer.ResultsTight := by
  cases layer with
  | proc _ _ => exact plain.elim
  | _ => exact nofun

end Layer.Plain

theorem Ty.legible_of_plain (plain : type.Everywhere (Layer.Plain scope)) : type.Legible scope :=
  legible (plain.imp fun _ => Layer.Plain.readable) (plain.imp fun _ => Layer.Plain.notLiteral)
    (plain.imp fun _ => Layer.Plain.flat) (plain.imp fun _ => Layer.Plain.resultsTight)

theorem Ty.Legible.readType (legible : type.Legible scope) (content : buffer.content = type.print) :
    readType buffer buffer.all scope = .ok type := by
  refine readType_eq_ok_of_covers ?_ (content ▸ legible.starts.solid)
  rw [content]
  exact legible.whole [] .nil

/-- A plain type is read again from its printed text. -/
theorem readType_plain (plain : type.Everywhere (Layer.Plain scope))
    (content : buffer.content = (toString type).toList) :
    readType buffer buffer.all scope = .ok type := by
  refine (Ty.legible_of_plain plain).readType (content.trans ?_)
  exact String.toList_ofList

/-- A type with variables, arguments, empty brackets and parentheses of both kinds. -/
def nestedType : Ty :=
  ⟨.tuple
    [⟨.optional ⟨.union
        [⟨.named .ofClass ⟨⟨["A"], false⟩, "B"⟩ [⟨.var "T"⟩]⟩,
          ⟨.intersection
            [⟨.named .ofAlias ⟨.root, "c"⟩ [⟨.tuple []⟩]⟩,
              ⟨.union [⟨.base .bool⟩, ⟨.named .ofInterface ⟨.empty, "_D"⟩ []⟩]⟩]⟩]⟩⟩,
      ⟨.optional ⟨.optional ⟨.var "T"⟩⟩⟩,
      ⟨.named .ofClass ⟨.root, "T"⟩ []⟩]⟩

/-- The nested type is read again. -/
theorem readType_plain_nested : nestedType.Everywhere (Layer.Plain ["T"]) ∧
    "[(A::B[T] | ::c[[]] & (bool | _D))?, T??, ::T]".toList = (toString nestedType).toList ∧
    readType (.ofString "a.rbs" "[(A::B[T] | ::c[[]] & (bool | _D))?, T??, ::T]") ⟨0, 46⟩ ["T"] =
      .ok nestedType := by
  have plain : nestedType.Everywhere (Layer.Plain ["T"]) := by decide
  have content : "[(A::B[T] | ::c[[]] & (bool | _D))?, T??, ::T]".toList =
      (toString nestedType).toList := by decide +kernel
  exact ⟨plain, content, readType_plain plain content⟩

/-! ## Names -/

/-- The name is spelled in the way of the grammar: capitals in front of a class, an interface or a
lower-case name that is not reserved, and by itself is not a word for a type either. -/
def TypeName.Grammatical (name : TypeName) : Prop :=
  (∀ part ∈ name.scope.path, IsUpper part) ∧
    (IsUpper name.base ∨ IsInterface name.base ∨
      IsVarName name.base ∧ (name.isSimple = true → name.base ∉ typeWords))

instance : DecidablePred TypeName.Grammatical := fun _ =>
  inferInstanceAs (Decidable (_ ∧ (_ ∨ _ ∨ _ ∧ (_ → _))))

namespace TypeName

variable {name : TypeName}

theorem kind_of_isUpper (upper : IsUpper name.base) : name.kind = .ofClass := by
  obtain ⟨c, word, spelled, first, -⟩ := upper
  have other : c ≠ '_' := by
    rintro rfl
    exact absurd first (by decide)
  rw [kind, spelled]
  split
  · rename_i same
    exact (other (List.cons.inj same).1).elim
  · rename_i same
    obtain ⟨rfl, -⟩ := List.cons.inj same
    rw [if_pos first]
  · rename_i same
    cases same

theorem kind_of_isInterface (interface : IsInterface name.base) : name.kind = .ofInterface := by
  obtain ⟨_, spelled, c, word, rfl, first, -⟩ := interface
  rw [kind, spelled]
  exact if_pos first

theorem kind_of_isVarName (variable_ : IsVarName name.base) (other : ¬IsInterface name.base) :
    name.kind = .ofAlias := by
  obtain ⟨c, word, spelled, first, all⟩ := variable_.1
  rw [kind, spelled]
  split
  · rename_i second rest same
    obtain ⟨rfl, rfl⟩ := List.cons.inj same
    refine if_neg fun upper => other ⟨second :: rest, spelled, second, rest, rfl, upper, ?_⟩
    exact fun x member => all x (List.mem_cons_of_mem _ member)
  · rename_i same
    obtain ⟨rfl, -⟩ := List.cons.inj same
    rw [if_neg (by simp [Char.isUpper_of_isLowerStart first])]
  · rename_i same
    cases same

/-- A name of the grammar is spelled in the way of its kind, but for aliases in modules. -/
theorem Grammatical.spells (grammatical : name.Grammatical)
    (bare : name.kind = .ofAlias → name.scope.path = []) : name.Spells name.kind := by
  obtain ⟨path, upper | interface | ⟨variable_, free⟩⟩ := grammatical
  · rw [kind_of_isUpper upper]
    exact ⟨path, upper⟩
  · rw [kind_of_isInterface interface]
    exact ⟨path, interface⟩
  · by_cases interface : IsInterface name.base
    · rw [kind_of_isInterface interface]
      exact ⟨path, interface⟩
    · have alias_ := kind_of_isVarName variable_ interface
      have empty := bare alias_
      rw [alias_]
      refine ⟨empty, variable_, interface, fun relative => free ?_⟩
      simp [isSimple, isAbsolute, Namespace.isEmpty, relative, empty]

end TypeName

/-- A name of the grammar is read as the type that it names, but for an alias with a module in front
of it: the module is read as a class, and the text does not end there. -/
theorem Ty.ofString_name_iff {name : TypeName} (grammatical : name.Grammatical) :
    ofString (toString name) = .ok ⟨.named name.kind name []⟩ ↔
      (name.kind = .ofAlias → name.scope.path = []) := by
  constructor
  · intro read alias_
    obtain ⟨⟨spells, -⟩, -⟩ := everywhere_mk.1 (readable_of_readType read)
    rw [alias_] at spells
    exact spells.1
  · intro bare
    have legible : Legible [] ⟨.named name.kind name []⟩ :=
      legible_named (grammatical.spells bare) (fun _ _ _ => List.not_mem_nil)
        (List.forall_mem_nil _)
    refine legible.readType ?_
    rw [print_named, List.map_nil, printArgs, List.isEmpty_nil, if_pos rfl, List.append_nil]
    exact String.toList_ofList

/-- An interface in two modules is read. -/
theorem Ty.ofString_name_iff_interface :
    TypeName.Grammatical ⟨⟨["A", "B2"], true⟩, "_Each"⟩ ∧
      ofString "::A::B2::_Each" = .ok ⟨.named .ofInterface ⟨⟨["A", "B2"], true⟩, "_Each"⟩ []⟩ := by
  have grammatical : TypeName.Grammatical ⟨⟨["A", "B2"], true⟩, "_Each"⟩ := by decide
  exact ⟨grammatical, (ofString_name_iff grammatical).2 nofun⟩

/-- An alias in a module is not read, although it is spelled in the way of the grammar. -/
theorem Ty.ofString_alias_in_module :
    TypeName.Grammatical ⟨⟨["A"], false⟩, "b"⟩ ∧ toString (⟨⟨["A"], false⟩, "b"⟩ : TypeName) = "A::b" ∧
      TypeName.kind ⟨⟨["A"], false⟩, "b"⟩ = .ofAlias ∧ (ofString "A::b").toOption.isNone = true := by
  decide +kernel

end Signet
