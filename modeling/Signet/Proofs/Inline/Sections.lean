import Signet.Proofs.Inline.Placement
import Signet.Proofs.Inline.Spots
import Signet.Proofs.Reading.Origins

/-!
# Visibility of extracted methods

A word for a visibility opens a section of the class or the module that it is in. The walk keeps the
section in the frame of the declaration in progress: it goes past one spot after another
(`Standing.step`), and a frame begins without the section that is open around it
(`Standing.named`). So each method has the visibility that is written for it in its own class or
module (`visibilities_written`).
-/

namespace Signet.Inline

open Ruby

variable {file : RubyFile} {known isModule : Bool} {node root : Node}
  {before middle after : Progress} {action : Action} {definition : Method}

/-! ## Sections -/

/-- The section that is opened at a spot: by a word for a visibility, as a statement of a body. -/
def Spot.section? (file : RubyFile) (spot : Spot) : Option Visibility :=
  match spot.above with
  | parent :: _ =>
    if spot.node.head.construct = .identifier ∧ bodyKinds.contains parent.kind then
      visibility? (spot.node.string file.buffer)
    else none
  | [] => none

/-- The section that was opened last. -/
def lastSection (file : RubyFile) (spots : List Spot) : Option Visibility :=
  (spots.filterMap (Spot.section? file)).getLast?

/-- The visibility that is written for a method of some kind: the modifier before it, or for an
instance method the section in which it is. -/
def visibilityAt (file : RubyFile) (earlier : List Spot) (spot : Spot) (kind : MethodKind) :
    Option Visibility :=
  ((modifier? file spot.above).map (·.visibility)).or
    (if kind = .ofInstance then lastSection file earlier else none)

/-- The method is defined at one of the spots of a class or a module, with the visibility that is
written there. -/
def Method.DefinedAt (file : RubyFile) (spots : List Spot) (definition : Method) : Prop :=
  ∃ earlier spot later, spots = earlier ++ spot :: later ∧
    isDefinition spot.node.head.construct ∧
    (spot.node.child? "name").map (·.string file.buffer) = some definition.name ∧
    definition.location.buffer = file.buffer ∧
    definition.location.range = spot.node.range file.buffer ∧
    methodKind? file spot.node = some definition.kind ∧
    definition.visibility = visibilityAt file earlier spot definition.kind

/-- The declaration is that of a class or a module in a file, with the methods that are defined
there. -/
def Declaration.DefinedIn (file : RubyFile) (root : Node) (declaration : Declaration) : Prop :=
  ∃ node spots, Framed file root node true spots ∧
    namingOf file node = .named declaration.name ∧
    declaration.location.buffer = file.buffer ∧
    declaration.location.range = node.range file.buffer ∧
    ∀ definition, .method definition ∈ declaration.members →
      Method.DefinedAt file spots definition

theorem lastSection_concat (spots : List Spot) (spot : Spot) :
    lastSection file (spots ++ [spot]) = (spot.section? file).or (lastSection file spots) := by
  unfold lastSection
  rw [List.filterMap_append, List.getLast?_append]
  congr 1
  cases section_eq : spot.section? file <;> simp [section_eq]

theorem Spot.section?_of_construct_ne {spot : Spot}
    (other : spot.node.head.construct ≠ .identifier) : spot.section? file = none := by
  unfold Spot.section?
  split
  · exact if_neg fun word => other word.1
  · rfl

/-- A word opens the section of its spot, and nothing else opens one. -/
theorem Action.Fits.opened_eq {spot : Spot} (fits : action.Fits file known spot) :
    action.opened file spot.node = spot.section? file := by
  obtain ⟨node, above⟩ := spot
  cases action with
  | word parentKind =>
      obtain ⟨isWord, parent_eq⟩ := fits
      obtain ⟨parent, outer, rfl, rfl⟩ : ∃ parent outer, above = parent :: outer ∧
          parent.kind = parentKind := by
        cases above with
        | nil => cases parent_eq
        | cons parent outer => exact ⟨parent, outer, rfl, Option.some.inj parent_eq⟩
      simp only [Action.opened, Spot.section?, isWord, true_and]
  | method modifier =>
      refine (Spot.section?_of_construct_ne fun isWord => ?_).symm
      have definition := fits.1
      rw [isWord] at definition
      cases definition
  | mixin _ | attr _ | singletonClass => exact (Spot.section?_of_construct_ne fits).symm

theorem Spot.section?_of_isOpening {spot : Spot}
    (opening : isOpening spot.node.head.construct = true) : spot.section? file = none := by
  refine Spot.section?_of_construct_ne fun isWord => ?_
  rw [isWord] at opening
  cases opening

/-! ## Methods -/

namespace Progress

/-- The section that is open in the declaration in progress. -/
def section? (progress : Progress) : Option Visibility :=
  progress.current?.bind (·.visibility)

/-- Inside a declaration, the section that was gained last is open. -/
theorem Gains.section?_eq {gain : Gain} (gains : before.Gains gain after)
    (isKnown : before.isKnown = true) : after.section? = gain.opened.or before.section? := by
  unfold section?
  unfold Progress.isKnown at isKnown
  unfold current? at isKnown ⊢
  rw [gains.stack_eq]
  rcases stack_eq : before.stack with _ | ⟨frame | _, outer⟩ <;> rw [stack_eq] at isKnown
  · cases isKnown
  · rfl
  · cases isKnown

end Progress

theorem adds_readMember_method (frame : OpenDeclaration) (kind : MethodKind) (name : Node)
    (modifier : Option Modifier) : Adds (readMember file frame kind node name modifier)
      (fun member => ∀ definition, member = .method definition →
        definition.name = name.string file.buffer ∧ definition.kind = kind ∧
        definition.visibility = methodVisibility kind frame modifier) fun _ => True := by
  refine (quiet_leadingOf node _).quiet.bind fun block _ => ?_
  split
  · exact .pure trivial
  · refine (quiet_assertionOf node _).quiet.bind fun trailing _ => ?_
    refine (quiet_settleOverloads _ _ _ _).quiet.bind fun overloads _ => ?_
    refine Adds.located.bind fun location _ => .addMember ?_
    rintro _ ⟨⟩
    exact ⟨rfl, rfl, rfl⟩

/-- A method that is added has the modifier before it, or an instance method the section that is
open. -/
theorem method_of_mem_added {modifier : Option Modifier}
    (ran : ((Action.method modifier).perform file node).run before = (.ok (), after))
    (member : .method definition ∈ Progress.added before after) :
    (node.child? "name").map (·.string file.buffer) = some definition.name ∧
      methodKind? file node = some definition.kind ∧
      definition.visibility = (modifier.map (·.visibility)).or
        (if definition.kind = .ofInstance then before.section? else none) := by
  simp only [Action.perform, visitMethod] at ran
  split at ran
  · exact absurd member (Adds.not_mem_added (.pure trivial) ran)
  · rename_i name name_eq
    have ran := run_get_bind_eq_ok ran
    split at ran
    · exact absurd member (Adds.not_mem_added (quiet_reportAt _) ran)
    · exact absurd member (Adds.not_mem_added (.pure trivial) ran)
    · rename_i frame outer stack_eq
      split at ran
      · exact absurd member (Adds.not_mem_added (quiet_reportAt _) ran)
      · rename_i kind kind_eq
        obtain ⟨same, rfl, visibility_eq⟩ :=
          (adds_readMember_method frame kind _ modifier).of_mem_added ran _ member definition rfl
        have section_eq : before.section? = frame.visibility := by
          unfold Progress.section? Progress.current?
          rw [stack_eq]
          rfl
        rw [section_eq, name_eq, same]
        exact ⟨rfl, kind_eq, visibility_eq⟩

/-! ## Walks -/

/-- The walk is in the frame of a node, after some of its spots and before the others. Where names
can be told, the section is open that the spots so far have opened last. -/
structure Standing (file : RubyFile) (root owner : Node) (known : Bool) (earlier spots : List Spot)
    (progress : Progress) : Prop where
  isKnown_eq : progress.isKnown = known
  framed : Framed file root owner known (earlier ++ spots)
  section_eq : known = true → progress.section? = lastSection file earlier

namespace Standing

variable {owner : Node} {earlier spots : List Spot} {spot : Spot}

/-- One step goes past one spot. It leaves the section open that the spot opens. -/
theorem step {gain : Gain}
    (standing : Standing file root owner known earlier (spot :: spots) before)
    (gains : before.Gains gain middle) (opened_eq : gain.opened = spot.section? file) :
    Standing file root owner known (earlier ++ [spot]) spots middle where
  isKnown_eq := gains.isKnown_eq.trans standing.isKnown_eq
  framed := by
    rw [List.append_assoc]
    exact standing.framed
  section_eq isKnown := by
    rw [gains.section?_eq (standing.isKnown_eq.trans isKnown), lastSection_concat, opened_eq,
      standing.section_eq isKnown]

/-- Inside of a module whose name cannot be told no section is known. -/
theorem unnamed (standing : Standing file root owner known earlier (spot :: spots) before)
    (opening : isOpening spot.node.head.construct) (naming : namingOf file spot.node = .unnamed)
    {opened : Progress} :
    Standing file root spot.node false [] (spotsInside file false spot.node)
      (opened.enter .unknown opened.context.enterUnknown) where
  isKnown_eq := rfl
  framed := .unnamed standing.framed (List.mem_append_right _ List.mem_cons_self) opening naming
  section_eq := nofun

/-- A declaration begins without a section, whatever is open around it. -/
theorem named (standing : Standing file root owner known earlier (spot :: spots) before)
    (opening : isOpening spot.node.head.construct) {name : TypeName}
    (naming : namingOf file spot.node = .named name) {opened : Progress} {heading : Heading} :
    Standing file root spot.node true [] (spotsInside file true spot.node)
      (opened.begin heading) where
  isKnown_eq := rfl
  framed := .named standing.framed (List.mem_append_right _ List.mem_cons_self) opening naming
  section_eq _ := rfl

end Standing

/-- A method that is added at a spot has the visibility that is written there. -/
theorem Standing.defined_of_mem_added {owner : Node} {earlier spots : List Spot} {spot : Spot}
    (standing : Standing file root owner true earlier (spot :: spots) before)
    (fits : action.Fits file true spot)
    (ran : (action.perform file spot.node).run before = (.ok (), after))
    (member : .method definition ∈ Progress.added before after) :
    Method.DefinedAt file (earlier ++ spot :: spots) definition := by
  obtain ⟨⟨makes, buffer_eq, range_eq⟩, -⟩ := action.writes_added ran _ member
  cases action with
  | method modifier =>
      obtain ⟨defines, modifier_eq⟩ := fits
      obtain ⟨name_eq, kind_eq, visibility_eq⟩ := method_of_mem_added ran member
      refine ⟨earlier, spot, spots, rfl, defines, name_eq, buffer_eq, range_eq, kind_eq, ?_⟩
      rw [visibility_eq, modifier_eq rfl, standing.section_eq rfl]
      rfl
  | _ => exact makes.elim

/-- A form at a node is what locates the declaration. -/
theorem Form.At.location {heading : Heading} (lies : Form.At file node isModule heading.form) :
    heading.location.buffer = file.buffer ∧ heading.location.range = node.range file.buffer := by
  unfold Heading.location
  cases form : heading.form <;> rw [form] at lies <;> exact lies.2

/-- Every declaration among those in a declaration is as it is written in the file. -/
def Declaration.DefinedThroughout (file : RubyFile) (root : Node) (declaration : Declaration) :
    Prop :=
  ∀ inner : Declaration, inner.Among declaration → Declaration.DefinedIn file root inner

/-- What is recorded along the spots of a frame: methods with the visibility that is written for
them, and declarations for which the same holds inside. -/
structure DefinedAlong (file : RubyFile) (root : Node) (known : Bool) (spots : List Spot)
    (events : List Event) : Prop where
  methods : known = true → ∀ definition, .method definition ∈ membersOf events →
    Method.DefinedAt file spots definition
  nested : ∀ declaration, .nested declaration ∈ membersOf events →
    Declaration.DefinedThroughout file root declaration
  records : ∀ known context, ∀ record ∈ recordsOf known context events,
    Declaration.DefinedThroughout file root record.declaration

section Along

variable {owner : Node} {earlier spots inner : List Spot} {spot : Spot} {events found : List Event}

theorem DefinedAlong.nil : DefinedAlong file root known spots [] :=
  ⟨fun _ _ => nofun, fun _ => nofun, fun _ _ => nofun⟩

theorem Standing.act
    (standing : Standing file root owner known earlier (spot :: spots) before)
    (here : action.Fits file known spot)
    (ran : (action.perform file spot.node).run before = (.ok (), after))
    (later : DefinedAlong file root known (earlier ++ spot :: spots) events) :
    DefinedAlong file root known (earlier ++ spot :: spots)
      (.act spot.node action before after :: events) where
  methods := by
    rintro rfl definition member
    rcases List.mem_append.1 member with member | member
    · exact standing.defined_of_mem_added here ran member
    · exact later.methods rfl definition member
  nested declaration member := by
    rcases List.mem_append.1 member with member | member
    · exact (action.writes_added ran _ member).2.elim
    · exact later.nested declaration member
  records := later.records

theorem DefinedAlong.unnamed (inside : DefinedAlong file root false inner found)
    (later : DefinedAlong file root known spots events) :
    DefinedAlong file root known spots (.unnamed node found :: events) where
  methods := later.methods
  nested := later.nested
  records known context :=
    List.forall_mem_append.2 ⟨inside.records _ _, later.records known context⟩

/-- A declaration is as it is written, if what is recorded along the spots inside it is. -/
theorem Standing.definedThroughout {heading : Heading}
    (standing : Standing file root owner known earlier (spot :: spots) before)
    (opening : isOpening spot.node.head.construct)
    (naming : namingOf file spot.node = .named heading.name)
    (lies : Form.At file spot.node isModule heading.form)
    (inside : DefinedAlong file root true (spotsInside file true spot.node) found) :
    Declaration.DefinedThroughout file root ⟨heading, membersOf found⟩ := by
  obtain ⟨buffer_eq, range_eq⟩ := lies.location
  have begun : Standing file root spot.node true [] (spotsInside file true spot.node)
      (before.begin heading) := standing.named opening naming
  exact Declaration.forall_among_iff.2
    ⟨⟨spot.node, _, begun.framed, naming, buffer_eq, range_eq, inside.methods rfl⟩, inside.nested⟩

theorem DefinedAlong.declared {heading : Heading}
    (declared : Declaration.DefinedThroughout file root ⟨heading, membersOf found⟩)
    (inside : DefinedAlong file root true inner found)
    (later : DefinedAlong file root known spots events) :
    DefinedAlong file root known spots (.declared node heading found :: events) where
  methods isKnown definition member := by
    rcases List.mem_cons.1 member with same | member
    · cases same
    · exact later.methods isKnown definition member
  nested declaration member := by
    rcases List.mem_cons.1 member with same | member
    · cases same
      exact declared
    · exact later.nested declaration member
  records known context :=
    List.forall_mem_append.2
      ⟨forall_records_declared declared (inside.records _ _), later.records known context⟩

end Along

/-- What is recorded along the spots of a frame is as it is written there. -/
theorem History.defined {sites : List Site} {events : List Event}
    (history : History file sites before events after) : ∀ {owner : Node} {known : Bool}
    {earlier spots : List Spot}, Standing file root owner known earlier spots before →
    Fits file known sites spots → DefinedAlong file root known (earlier ++ spots) events := by
  -- Where the walk stands carries the induction. Past a class or a module it stands behind its spot
  -- with the section as before, and inside it stands at the first spot of another frame.
  induction history with
  | done => exact fun _ _ => .nil
  | @act node action sites before middle after events ran rest ih =>
      intro owner known earlier spots standing fits
      cases fits with
      | @act _ _ _ above _ spots here later =>
          obtain ⟨members, -, gains⟩ := action.gains ran
          have all := ih (standing.step gains here.opened_eq) later
          rw [List.append_assoc] at all
          exact standing.act here ran all
  | @skipped isModule node sites before middle after events ran rest ih =>
      intro owner known earlier spots standing fits
      cases fits with
      | @skipped _ _ _ above _ spots opening later =>
          have here := gains_opening ran
          have all := ih (standing.step here (Spot.section?_of_isOpening opening).symm) later
          rwa [List.append_assoc] at all
  | @unnamed isModule node inside sites before opened inner after found events ran history _ ih
      ih' =>
      intro owner known earlier spots standing fits
      cases fits with
      | @unnamed _ _ _ above _ _ spots opening naming within later =>
          have here := (History.unnamed ran history .done).gains
          have all := ih' (standing.step here (Spot.section?_of_isOpening opening).symm) later
          rw [List.append_assoc] at all
          exact (ih (standing.unnamed opening naming) within).unnamed all
  | @declared isModule node name inside sites before opened inner after heading found events ran
      same lies history _ ih ih' =>
      subst same
      intro owner known earlier spots standing fits
      cases fits with
      | @declared _ _ _ _ above _ _ spots opening naming within later =>
          have here := (History.declared ran rfl lies history .done).gains
          have all := ih' (standing.step here (Spot.section?_of_isOpening opening).symm) later
          rw [List.append_assoc] at all
          have inside := ih (standing.named opening naming) within
          exact .declared (standing.definedThroughout opening naming lies inside) inside all

/-- Extraction gives each method the visibility that is written for it in its own class or module,
at any depth: the keyword of the call that it is a direct argument of, and otherwise for an instance
method the section that was opened last before it. Classes and modules inside, whether their names
can be told or not, are spots of their own: what they open is not seen around them, nor is what is
open around them seen inside. -/
theorem visibilities_written {buffer : Buffer} {root : Node} (options : Options)
    (formed : WellFormed buffer root) : ∃ result, extract buffer root options = .ok result ∧
      ∀ record ∈ result.records, ∀ declaration : Declaration,
        declaration.Among record.declaration →
          Declaration.DefinedIn (.ofTree buffer root options) root declaration := by
  obtain ⟨_, ran⟩ := visitAll_succeeds options formed
  have extracted := extract_eq_ok_iff.2 ⟨_, ran, rfl⟩
  obtain ⟨events, after, ran, history, records_eq, -⟩ := exists_history extracted
  refine ⟨_, extracted, ?_⟩
  rw [records_eq]
  have start : Standing (.ofTree buffer root options) root root false []
      (spotsAmong (.ofTree buffer root options) false [root] root.children) {} :=
    ⟨rfl, .top, nofun⟩
  have fits : Fits (.ofTree buffer root options) false (sitesOfTree buffer root options)
      (spotsAmong (.ofTree buffer root options) false [root] root.children) :=
    fits_sitesAmong _ false root root.children nofun nofun
  exact (history.defined start fits).records false .top

/-- A class with a section, a modifier and a singleton method, and with other sections in a class
inside and in one whose name cannot be told. -/
def sectionedText : String :=
  "class A\nprivate\ndef a; end\npublic def b; end\ndef self.c; end\n"
    ++ "class B\ndef d; end\npublic\nend\nclass x::C\npublic\nclass D\ndef e; end\nend\nend\n"
    ++ "def f; end\nend\n"

/-- Its tree. -/
def sectionedTree : Node :=
  .mk ⟨"program", true, none, ⟨0, 151⟩, 0, 17⟩
    [.mk ⟨"class", true, none, ⟨0, 150⟩, 0, 16⟩
       [.mk ⟨"class", false, none, ⟨0, 5⟩, 0, 0⟩ [],
        .mk ⟨"constant", true, some "name", ⟨6, 7⟩, 0, 0⟩ [],
        .mk ⟨"body_statement", true, some "body", ⟨8, 146⟩, 1, 15⟩
          [.mk ⟨"identifier", true, none, ⟨8, 15⟩, 1, 1⟩ [],
           .mk ⟨"method", true, none, ⟨16, 26⟩, 2, 2⟩
             [.mk ⟨"def", false, none, ⟨16, 19⟩, 2, 2⟩ [],
              .mk ⟨"identifier", true, some "name", ⟨20, 21⟩, 2, 2⟩ [],
              .mk ⟨";", false, none, ⟨21, 22⟩, 2, 2⟩ [],
              .mk ⟨"end", false, none, ⟨23, 26⟩, 2, 2⟩ []],
           .mk ⟨"call", true, none, ⟨27, 44⟩, 3, 3⟩
             [.mk ⟨"identifier", true, some "method", ⟨27, 33⟩, 3, 3⟩ [],
              .mk ⟨"argument_list", true, some "arguments", ⟨34, 44⟩, 3, 3⟩
                [.mk ⟨"method", true, none, ⟨34, 44⟩, 3, 3⟩
                   [.mk ⟨"def", false, none, ⟨34, 37⟩, 3, 3⟩ [],
                    .mk ⟨"identifier", true, some "name", ⟨38, 39⟩, 3, 3⟩ [],
                    .mk ⟨";", false, none, ⟨39, 40⟩, 3, 3⟩ [],
                    .mk ⟨"end", false, none, ⟨41, 44⟩, 3, 3⟩ []]]],
           .mk ⟨"singleton_method", true, none, ⟨45, 60⟩, 4, 4⟩
             [.mk ⟨"def", false, none, ⟨45, 48⟩, 4, 4⟩ [],
              .mk ⟨"self", true, some "object", ⟨49, 53⟩, 4, 4⟩ [],
              .mk ⟨".", false, none, ⟨53, 54⟩, 4, 4⟩ [],
              .mk ⟨"identifier", true, some "name", ⟨54, 55⟩, 4, 4⟩ [],
              .mk ⟨";", false, none, ⟨55, 56⟩, 4, 4⟩ [],
              .mk ⟨"end", false, none, ⟨57, 60⟩, 4, 4⟩ []],
           .mk ⟨"class", true, none, ⟨61, 90⟩, 5, 8⟩
             [.mk ⟨"class", false, none, ⟨61, 66⟩, 5, 5⟩ [],
              .mk ⟨"constant", true, some "name", ⟨67, 68⟩, 5, 5⟩ [],
              .mk ⟨"body_statement", true, some "body", ⟨69, 86⟩, 6, 7⟩
                [.mk ⟨"method", true, none, ⟨69, 79⟩, 6, 6⟩
                   [.mk ⟨"def", false, none, ⟨69, 72⟩, 6, 6⟩ [],
                    .mk ⟨"identifier", true, some "name", ⟨73, 74⟩, 6, 6⟩ [],
                    .mk ⟨";", false, none, ⟨74, 75⟩, 6, 6⟩ [],
                    .mk ⟨"end", false, none, ⟨76, 79⟩, 6, 6⟩ []],
                 .mk ⟨"identifier", true, none, ⟨80, 86⟩, 7, 7⟩ []],
              .mk ⟨"end", false, none, ⟨87, 90⟩, 8, 8⟩ []],
           .mk ⟨"class", true, none, ⟨91, 135⟩, 9, 14⟩
             [.mk ⟨"class", false, none, ⟨91, 96⟩, 9, 9⟩ [],
              .mk ⟨"scope_resolution", true, some "name", ⟨97, 101⟩, 9, 9⟩
                [.mk ⟨"identifier", true, some "scope", ⟨97, 98⟩, 9, 9⟩ [],
                 .mk ⟨"::", false, none, ⟨98, 100⟩, 9, 9⟩ [],
                 .mk ⟨"constant", true, some "name", ⟨100, 101⟩, 9, 9⟩ []],
              .mk ⟨"body_statement", true, some "body", ⟨102, 131⟩, 10, 13⟩
                [.mk ⟨"identifier", true, none, ⟨102, 108⟩, 10, 10⟩ [],
                 .mk ⟨"class", true, none, ⟨109, 131⟩, 11, 13⟩
                   [.mk ⟨"class", false, none, ⟨109, 114⟩, 11, 11⟩ [],
                    .mk ⟨"constant", true, some "name", ⟨115, 116⟩, 11, 11⟩ [],
                    .mk ⟨"body_statement", true, some "body", ⟨117, 127⟩, 12, 12⟩
                      [.mk ⟨"method", true, none, ⟨117, 127⟩, 12, 12⟩
                         [.mk ⟨"def", false, none, ⟨117, 120⟩, 12, 12⟩ [],
                          .mk ⟨"identifier", true, some "name", ⟨121, 122⟩, 12, 12⟩ [],
                          .mk ⟨";", false, none, ⟨122, 123⟩, 12, 12⟩ [],
                          .mk ⟨"end", false, none, ⟨124, 127⟩, 12, 12⟩ []]],
                    .mk ⟨"end", false, none, ⟨128, 131⟩, 13, 13⟩ []]],
              .mk ⟨"end", false, none, ⟨132, 135⟩, 14, 14⟩ []],
           .mk ⟨"method", true, none, ⟨136, 146⟩, 15, 15⟩
             [.mk ⟨"def", false, none, ⟨136, 139⟩, 15, 15⟩ [],
              .mk ⟨"identifier", true, some "name", ⟨140, 141⟩, 15, 15⟩ [],
              .mk ⟨";", false, none, ⟨141, 142⟩, 15, 15⟩ [],
              .mk ⟨"end", false, none, ⟨143, 146⟩, 15, 15⟩ []]],
        .mk ⟨"end", false, none, ⟨147, 150⟩, 16, 16⟩ []]]

/-- The section of the outer class goes on behind the others, and does not reach into them. -/
theorem visibilities_written_sectioned :
    WellFormed (.ofString "a.rb" sectionedText) sectionedTree ∧
    ∃ result, extract (.ofString "a.rb" sectionedText) sectionedTree {} = .ok result ∧
      result.methods.map (fun method => (method.2.name, method.2.visibility)) =
        [("a", some .privately), ("b", some .publicly), ("c", none), ("d", none),
          ("f", some .privately), ("e", none)] ∧
      ∀ record ∈ result.records, ∀ declaration : Declaration,
        declaration.Among record.declaration →
          Declaration.DefinedIn (.ofTree (.ofString "a.rb" sectionedText) sectionedTree {})
            sectionedTree declaration := by
  have formed : WellFormed (.ofString "a.rb" sectionedText) sectionedTree :=
    ⟨by decide +kernel, by decide +kernel⟩
  have listed : ((extract (.ofString "a.rb" sectionedText) sectionedTree {}).toOption.map
      fun result => result.methods.map fun method => (method.2.name, method.2.visibility)) =
      some [("a", some .privately), ("b", some .publicly), ("c", none), ("d", none),
        ("f", some .privately), ("e", none)] := by
    decide +kernel
  obtain ⟨result, extracted, written⟩ := visibilities_written {} formed
  rw [extracted] at listed
  exact ⟨formed, result, extracted, Option.some.inj listed, written⟩

end Signet.Inline
