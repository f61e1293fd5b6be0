import Signet.Proofs.Type.Layers
import Signet.Type.Print

/-!
# The text of a type from the texts in it

What is printed for a layer depends on the types in it by their texts and by how tightly they hold
together (`Ty.tightness`). The equations below say so without reference to the fold.
-/

namespace Signet

variable {τ σ : Type}

theorem joined_cons (between : List Char) (text : List Char) (texts : List (List Char)) :
    joined between (text :: texts) = text ++ texts.flatMap (between ++ ·) := by
  induction texts generalizing text with
  | nil => simp [joined]
  | cons other texts ih =>
      rw [joined, List.intercalate_cons_cons, ← joined, ih]
      simp

/-! ## Tightness -/

/-- How tightly a layer holds together. -/
def Layer.tightness : Layer τ → Tightness
  | .union _ => .union
  | .intersection _ => .intersection
  | .proc _ _ => .proc
  | _ => .closed

/-- How tightly the outermost layer of a type holds together. -/
def Ty.tightness (type : Ty) : Tightness := type.layer.tightness

/-- A union or an intersection: it needs parentheses where a single type is expected. -/
def Tightness.isLoose (tightness : Tightness) : Bool :=
  tightness = .union || tightness = .intersection

theorem Ty.tightness_printed (type : Ty) : type.printed.tightness = type.tightness := by
  obtain ⟨layer⟩ := type
  rw [Ty.printed, fold_mk]
  cases layer <;> rfl

/-! ## Functions -/

section Map

variable (π : σ → List Char) (f : τ → σ)

theorem Param.print_map (param : Param τ) :
    (param.map f).print π = param.print fun type => π (f type) := by
  obtain ⟨type, name⟩ := param
  cases name <;> rfl

theorem Keyword.print_map (keyword : Keyword τ) :
    (keyword.map f).print π = keyword.print fun type => π (f type) := by
  rw [Keyword.print, Keyword.print, Keyword.map, Param.print_map]

theorem Params.items_map (params : Params τ) :
    (params.map f).items π = params.items fun type => π (f type) := by
  simp only [Params.items, Params.map, Option.toList_map, List.map_map, Function.comp_def,
    Param.print_map, Keyword.print_map]

theorem Function.printParams_map (function : Function τ) :
    (function.map f).printParams π = function.printParams fun type => π (f type) := by
  cases function with
  | typed params result =>
      rw [Function.map, printParams, printParams, Params.print, Params.items_map, Params.print]
  | untyped result => rfl

theorem Function.result_map (function : Function τ) :
    (function.map f).result = f function.result := by
  cases function <;> rfl

theorem Block.print_map (block : Block τ) :
    (block.map f).print π = block.print fun type => π (f type) := by
  rw [Block.print, Block.print, Block.map, Function.print, Function.print,
    Function.printParams_map, Function.result_map]

theorem printSignature_map (function : Function τ) (block : Option (Block τ)) :
    printSignature π (function.map f) (block.map (Block.map f)) =
      printSignature (fun type => π (f type)) function block := by
  rw [printSignature, printSignature, Function.printParams_map, Function.result_map,
    Option.map_map]
  simp only [Function.comp_def, Block.print_map]

end Map

/-! ## Types -/

namespace Ty

/-- What is printed for the type of an optional. -/
def inOptional (type : Ty) : List Char := type.printed.inOptional

/-- What is printed for a member of an intersection. -/
def inIntersection (type : Ty) : List Char := type.printed.inIntersection

theorem inOptional_eq (type : Ty) : type.inOptional =
    if type.tightness = .closed then type.print else ['('] ++ type.print ++ [')'] := by
  rw [inOptional, Printed.inOptional, tightness_printed]
  cases type.tightness <;> rfl

theorem inIntersection_eq (type : Ty) : type.inIntersection =
    if type.tightness = .union then ['('] ++ type.print ++ [')'] else type.print := by
  rw [inIntersection, Printed.inIntersection, tightness_printed]
  cases type.tightness <;> rfl

variable (name : TypeName) (kind : NameKind) (types : List Ty) (type : Ty)

theorem print_var (name : String) : print ⟨.var name⟩ = name.toList := rfl

theorem print_named :
    print ⟨.named kind name types⟩ = name.print ++ printArgs (types.map print) := by
  rw [print, printed, fold_mk]
  simp only [Layer.map, Layer.print, List.map_map]
  rfl

theorem print_optional : print ⟨.optional type⟩ = type.inOptional ++ ['?'] := rfl

theorem print_union : print ⟨.union types⟩ = joined [' ', '|', ' '] (types.map print) := by
  rw [print, printed, fold_mk]
  simp only [Layer.map, Layer.print, List.map_map]
  rfl

theorem print_intersection :
    print ⟨.intersection types⟩ = joined [' ', '&', ' '] (types.map inIntersection) := by
  rw [print, printed, fold_mk]
  simp only [Layer.map, Layer.print, List.map_map]
  rfl

theorem print_tuple :
    print ⟨.tuple types⟩ = ['['] ++ joined comma (types.map print) ++ [']'] := by
  rw [print, printed, fold_mk]
  simp only [Layer.map, Layer.print, List.map_map]
  rfl

theorem print_proc (function : Function Ty) (block : Option (Block Ty)) :
    print ⟨.proc function block⟩ = '^' :: printSignature print function block := by
  rw [print, printed, fold_mk]
  simp only [Layer.map, Layer.print, printSignature_map]
  rfl

end Ty

end Signet
