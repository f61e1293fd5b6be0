import Signet.Name

/-!
# Reading names back

Splitting a text at its separators undoes writing the parts with separators between them, if no part
has a colon of its own. In turn no text loses anything by being split, not even one with runs of
colons or empty parts, so writing undoes reading (`TypeName.reads_back_iff`).
-/

namespace Signet

/-- Components with separators after them, as at the front of a name. -/
def components (path : List String) : List Char :=
  path.flatMap fun part => part.toList ++ Namespace.separator

@[simp] theorem components_nil : components [] = [] := rfl

theorem components_cons (part : String) (path : List String) :
    components (part :: path) = part.toList ++ (Namespace.separator ++ components path) := by
  rw [components, List.flatMap_cons, ← components, List.append_assoc]

theorem length_components_le (path : List String) : path.length ≤ (components path).length := by
  induction path with
  | nil => exact Nat.le_refl _
  | cons part path ih =>
      simp only [components_cons, List.length_cons, List.length_append, Namespace.separator]
      omega

namespace TypeName

theorem print_eq (name : TypeName) : name.print =
    (if name.scope.absolute then Namespace.separator else []) ++
      (components name.scope.path ++ name.base.toList) := by
  rw [TypeName.print, Namespace.print, List.append_assoc]
  rfl

theorem split_append {part : List Char} (plain : ':' ∉ part) (text : List Char) :
    split (part ++ (Namespace.separator ++ text)) = part :: split text := by
  induction part with
  | nil => simp [Namespace.separator, split]
  | cons c part ih =>
      rw [List.mem_cons, not_or] at plain
      rw [List.cons_append, split, ih plain.2]
      rintro rest rfl
      exact (plain.1 rfl).elim

theorem split_plain {part : List Char} (plain : ':' ∉ part) : split part = [part] := by
  induction part with
  | nil => rfl
  | cons c part ih =>
      rw [List.mem_cons, not_or] at plain
      rw [split, ih plain.2]
      rintro rest rfl
      exact (plain.1 rfl).elim

theorem split_components {path : List String} {base : List Char}
    (plain : ∀ part ∈ path, ':' ∉ part.toList) (last : ':' ∉ base) :
    split (components path ++ base) = path.map String.toList ++ [base] := by
  induction path with
  | nil => exact split_plain last
  | cons part path ih =>
      obtain ⟨here, later⟩ := List.forall_mem_cons.1 plain
      rw [components_cons, List.append_assoc, List.append_assoc, split_append here, ih later]
      rfl

theorem ofParts_map (absolute : Bool) (path : List String) (base : String) :
    ofParts absolute (path.map String.toList ++ [base.toList]) = ⟨⟨path, absolute⟩, base⟩ := by
  simp [ofParts, List.map_map, Function.comp_def]

/-- Reading undoes writing, if the parts have no colons and a relative name does not start with a
separator. -/
theorem ofChars_print (name : TypeName) (plain : ∀ part ∈ name.scope.path, ':' ∉ part.toList)
    (last : ':' ∉ name.base.toList)
    (first : name.scope.absolute = false → name.scope.path.head? ≠ some "") :
    ofChars name.print = name := by
  obtain ⟨⟨path, absolute⟩, base⟩ := name
  rw [print_eq]
  cases absolute with
  | true =>
      show ofParts true (split (components path ++ base.toList)) = _
      rw [split_components plain last, ofParts_map]
  | false =>
      show ofChars (components path ++ base.toList) = _
      -- a relative name does not begin with `:`, so it is not taken for an absolute one
      have relative : ofChars (components path ++ base.toList) =
          ofParts false (split (components path ++ base.toList)) := by
        rw [ofChars]
        rintro rest starts
        cases path with
        | nil =>
            rw [components_nil, List.nil_append] at starts
            exact last (starts ▸ List.mem_cons_self)
        | cons part path =>
            have nonempty : part.toList ≠ [] := fun empty =>
              first rfl (congrArg some (String.toList_inj.1 empty))
            obtain ⟨c, word, spelled⟩ := List.exists_cons_of_ne_nil nonempty
            rw [components_cons, spelled] at starts
            obtain ⟨rfl, -⟩ := List.cons.inj starts
            exact plain part List.mem_cons_self (spelled ▸ List.mem_cons_self)
      rw [relative, split_components plain last, ofParts_map]

/-! ## Splitting loses nothing -/

theorem split_ne_nil (text : List Char) : split text ≠ [] := by
  fun_cases split text <;> exact List.cons_ne_nil _ _

/-- A name from the top level starts with a separator. -/
theorem print_ofParts_true (parts : List (List Char)) :
    (ofParts true parts).print = Namespace.separator ++ (ofParts false parts).print := by
  rw [print_eq, print_eq]
  rfl

/-- An empty part in front of others is a separator in front of them. -/
theorem print_ofParts_nil_cons {parts : List (List Char)} (others : parts ≠ []) :
    (ofParts false ([] :: parts)).print = Namespace.separator ++ (ofParts false parts).print := by
  obtain ⟨part, parts, rfl⟩ := List.exists_cons_of_ne_nil others
  rw [print_eq, print_eq]
  simp [ofParts, components_cons]

/-- A character in front of the first part is one in front of the name. -/
theorem print_ofParts_push (c : Char) (part : List Char) (parts : List (List Char)) :
    (ofParts false ((c :: part) :: parts)).print = c :: (ofParts false (part :: parts)).print := by
  rw [print_eq, print_eq]
  cases parts with
  | nil => simp [ofParts]
  | cons next parts => simp [ofParts, components_cons]

/-- The parts of a text make up the text. -/
theorem print_split (text : List Char) : (ofParts false (split text)).print = text := by
  fun_induction split text with
  | case1 text ih => rw [print_ofParts_nil_cons (split_ne_nil text), ih]; rfl
  | case2 c text other none ih => exact (split_ne_nil text none).elim
  | case3 c text other part parts some ih => rw [print_ofParts_push, ← some, ih]
  | case4 => rfl

/-- A name is written as the text from which it was read. -/
theorem print_ofChars (text : List Char) : (ofChars text).print = text := by
  fun_cases ofChars text with
  | case1 text => rw [print_ofParts_true, print_split]; rfl
  | case2 text => exact print_split text

/-- Where the path of a relative name starts with an empty component, an absolute name is read. -/
theorem ofChars_print_ne {name : TypeName} (relative : name.isAbsolute = false)
    (first : name.scope.path.head? = some "") : ofChars name.print ≠ name := by
  obtain ⟨⟨path, absolute⟩, base⟩ := name
  obtain ⟨path, rfl⟩ : ∃ rest, path = "" :: rest := List.head?_eq_some_iff.1 first
  obtain rfl : absolute = false := relative
  intro same
  have absolute : (ofChars (print ⟨⟨"" :: path, false⟩, base⟩)).isAbsolute = true := by
    rw [print_eq]
    rfl
  rw [same] at absolute
  exact Bool.false_ne_true absolute

/-- Every text is the text of the name that is read from it. A name whose components have no colons
is read from its text exactly if it does not start like an absolute one: the path of a relative
name must not start with an empty component. -/
theorem reads_back_iff :
    (∀ text : String, toString (ofString text) = text) ∧
    ∀ name : TypeName, (∀ component ∈ name.scope.path ++ [name.base], ':' ∉ component.toList) →
      (ofString (toString name) = name ↔
        (name.isAbsolute = false → name.scope.path.head? ≠ some "")) := by
  have written : ∀ text : String, toString (ofString text) = text := by
    intro text
    show String.ofList (ofChars text.toList).print = text
    rw [print_ofChars, String.ofList_toList]
  refine ⟨written, fun name plain => ?_⟩
  obtain ⟨path, base⟩ := List.forall_mem_append.1 plain
  have spelled : ofString (toString name) = ofChars name.print := by
    show ofChars (String.ofList name.print).toList = _
    rw [String.toList_ofList]
  rw [spelled]
  constructor
  · intro read relative first
    exact ofChars_print_ne relative first read
  · exact ofChars_print name path (base name.base List.mem_cons_self)

/-- Runs of colons and empty components are kept. -/
theorem reads_back_iff_colons :
    toString (ofString ":::A::::") = ":::A::::" ∧
    (∀ component ∈ ["A", "", "b"], ':' ∉ component.toList) ∧
    ofString "A::::b" = ⟨⟨["A", ""], false⟩, "b"⟩ := by
  have plain : ∀ component ∈ ["A", "", "b"], ':' ∉ component.toList := by decide
  refine ⟨reads_back_iff.1 _, plain, ?_⟩
  exact (reads_back_iff.2 ⟨⟨["A", ""], false⟩, "b"⟩ plain).2 fun _ => by decide

end TypeName

end Signet
