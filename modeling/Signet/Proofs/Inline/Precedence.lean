import Signet.Proofs.Inline.Gains
import Signet.Proofs.Inline.Spelling
import Signet.Proofs.Reading.Origins

/-!
# Precedence of annotations

The overloads of a method are settled in one step: they are decided, and the annotations that have
no effect are reported (`settleOverloads`). Sorting the annotations loses none of them
(`Sorted.Accounts`). So where whole method types are given, or an override stands in for them, each
annotation decides or is reported, and none is both (`settleOverloads_accounts`).
-/

namespace Signet.Inline

open Ruby
open scoped List

/-! ## One step -/

/-- What is reported of an annotation without effect. -/
def Ignored.diagnostic (ignored : Ignored) : Diagnostic := .unused ignored.reason ignored.location

section Steps

variable {file : RubyFile} {progress : Progress}

/-- Without a limit everything is reported, in order. -/
theorem run_reportIgnored (unlimited : file.options.maxDiagnostics = none)
    (ignored : List Ignored) : (reportIgnored file ignored).run progress = (.ok (),
      { progress with
        diagnostics := progress.diagnostics ++ ignored.map Ignored.diagnostic }) := by
  induction ignored generalizing progress with
  | nil =>
      rw [List.map_nil, List.append_nil]
      rfl
  | cons item ignored ih =>
      show (report file item.diagnostic >>= fun _ => reportIgnored file ignored).run progress = _
      have first : (report file item.diagnostic).run progress = (.ok (),
          { progress with diagnostics := progress.diagnostics ++ [item.diagnostic] }) := by
        show (Except.ok PUnit.unit, progress.report file.options.maxDiagnostics _) = _
        rw [unlimited]
        rfl
      rw [run_bind, first]
      dsimp only
      rw [ih, List.map_cons, List.append_assoc, List.singleton_append]

/-- Settling what is decided. -/
theorem run_settleOverloads (unlimited : file.options.maxDiagnostics = none)
    {annotations : List Annotation} {trailing : Option TypeAnnotation} {overriding : Bool}
    {params : List RubyParam} {decision : Decision}
    (decided : decideOverloads annotations trailing overriding params = .ok decision) :
    (settleOverloads file annotations trailing overriding params).run progress =
      (.ok decision.overloads,
        { progress with
          diagnostics := progress.diagnostics ++ decision.ignored.map Ignored.diagnostic }) := by
  rw [settleOverloads, decided]
  show (reportIgnored file decision.ignored >>= fun _ => pure decision.overloads).run progress = _
  rw [run_bind, run_reportIgnored unlimited]
  rfl

end Steps

/-! ## Kinds of annotations -/

namespace Annotation

/-- The annotation says nothing about types by itself. -/
def isMark : Annotation → Bool
  | skip _ | override _ => true
  | _ => false

/-- The annotation gives method types behind `#:`. -/
def isColon : Annotation → Bool
  | colon .. => true
  | _ => false

/-- The annotation is a list of method types. -/
def isList : Annotation → Bool
  | overloads .. => true
  | _ => false

/-- The annotation is about the result. -/
def isResult : Annotation → Bool
  | result _ => true
  | _ => false

/-- The annotation is about a parameter. -/
def isParam : Annotation → Bool
  | param .. => true
  | _ => false

/-- The method types that the annotation gives. -/
def types : Annotation → List MethodType
  | colon types _ | overloads types _ => types
  | _ => []

end Annotation

/-- The annotations that decide where whole method types are given, or are overridden: all of those
behind `#:`, or else the first list. -/
def deciding (overriding : Bool) (annotations : List Annotation) : List Annotation :=
  let colons := annotations.filter Annotation.isColon
  if overriding then []
  else if colons.isEmpty then (annotations.find? Annotation.isList).toList
  else colons

/-! ## Sorting loses nothing -/

/-- The annotation behind `#:` that gives some types. -/
def WrittenTypes.asColon (written : WrittenTypes) : Annotation :=
  .colon written.types written.location

/-- The list that gives some types. -/
def WrittenTypes.asList (written : WrittenTypes) : Annotation :=
  .overloads written.types written.location

namespace Sorted

/-- The annotations of the result and the parameters that have an effect so far. -/
def parts (sorted : Sorted) : List Annotation :=
  sorted.result.toList.map .result ++ sorted.params.map (fun note => .param note.1 note.2)

/-- The annotations that have an effect so far. -/
def kept (sorted : Sorted) : List Annotation :=
  sorted.colons.map WrittenTypes.asColon ++ sorted.list.toList.map WrittenTypes.asList
    ++ sorted.parts

/-- What becomes of annotations: the first list and the first result, and what there may be several
of, are kept in order, and nothing is lost. -/
structure Accounts (annotations : List Annotation) (sorted : Sorted) : Prop where
  colons : sorted.colons.map WrittenTypes.asColon = annotations.filter Annotation.isColon
  list : sorted.list.map WrittenTypes.asList = annotations.find? Annotation.isList
  result : sorted.result.map .result = annotations.find? Annotation.isResult
  params : sorted.params.map (fun note => .param note.1 note.2) =
    annotations.filter Annotation.isParam
  all : ∃ lost : List Annotation, (∀ one ∈ lost, one.isParam = false) ∧
    lost.map (·.location) = sorted.ignored.map (·.location) ∧
    (sorted.kept ++ lost).Perm (annotations.filter (!·.isMark))

variable (sorted : Sorted) (added : Annotation)

theorem colons_add : (sorted.add added).colons.map WrittenTypes.asColon =
    sorted.colons.map WrittenTypes.asColon ++ [added].filter Annotation.isColon := by
  cases added with
  | colon types location => simp [add, List.filter_cons, Annotation.isColon, WrittenTypes.asColon]
  | overloads types location =>
      cases found : sorted.list <;> simp [add, ignore, found, Annotation.isColon]
  | result note => cases found : sorted.result <;> simp [add, ignore, found, Annotation.isColon]
  | _ => simp [add, ignore, Annotation.isColon]

theorem list_add : (sorted.add added).list.map WrittenTypes.asList =
    (sorted.list.map WrittenTypes.asList).or ([added].find? Annotation.isList) := by
  cases added with
  | overloads types location =>
      cases found : sorted.list <;>
        simp [add, ignore, found, Annotation.isList, WrittenTypes.asList]
  | result note => cases found : sorted.result <;> simp [add, ignore, found, Annotation.isList]
  | _ => simp [add, ignore, Annotation.isList]

theorem result_add : (sorted.add added).result.map .result =
    (sorted.result.map .result).or ([added].find? Annotation.isResult) := by
  cases added with
  | overloads types location =>
      cases found : sorted.list <;> simp [add, ignore, found, Annotation.isResult]
  | result note => cases found : sorted.result <;> simp [add, ignore, found, Annotation.isResult]
  | _ => simp [add, ignore, Annotation.isResult]

theorem params_add : (sorted.add added).params.map (fun note => .param note.1 note.2) =
    sorted.params.map (fun note => .param note.1 note.2) ++ [added].filter Annotation.isParam := by
  cases added with
  | overloads types location =>
      cases found : sorted.list <;> simp [add, ignore, found, Annotation.isParam]
  | result note => cases found : sorted.result <;> simp [add, ignore, found, Annotation.isParam]
  | _ => simp [add, ignore, List.filter_cons, Annotation.isParam]

/-- The annotation is kept, or it is lost and noted where it is. Those of parameters are kept. -/
def Takes (next : Sorted) : Prop :=
  ∃ lost : List Annotation, (∀ one ∈ lost, one.isParam = false) ∧
    next.ignored.map (·.location) = sorted.ignored.map (·.location) ++ lost.map (·.location) ∧
    (next.kept ++ lost).Perm (sorted.kept ++ [added].filter (!·.isMark))

variable {sorted added}

open Classical in
theorem takes_of_count {next : Sorted} (speaks : added.isMark = false)
    (same : next.ignored = sorted.ignored)
    (counts : ∀ one, next.kept.count one = sorted.kept.count one + [added].count one) :
    sorted.Takes added next := by
  refine ⟨[], nofun, by simp [same], List.perm_iff_count.2 fun one => ?_⟩
  rw [List.append_nil, counts one, List.count_append, List.filter_cons_of_pos (by simp [speaks]),
    List.filter_nil]

theorem takes_ignore (speaks : added.isMark = false) (other : added.isParam = false)
    (reason : Disuse) : sorted.Takes added (sorted.ignore added.location reason) := by
  refine ⟨[added], List.forall_mem_singleton.2 other, by simp [ignore], ?_⟩
  rw [List.filter_cons_of_pos (by simp [speaks])]
  exact .refl _

variable (sorted added)

/-- Every annotation is taken that says something. -/
theorem takes_add : sorted.Takes added (sorted.add added) := by
  -- A second list or result is ignored, and so are generics. Marks do not count, and anything else
  -- is kept.
  cases added with
  | colon types location =>
      refine takes_of_count rfl rfl fun one => ?_
      simp only [kept, parts, add, List.map_append, List.count_append, List.map_singleton,
        WrittenTypes.asColon]
      omega
  | overloads types location =>
      cases found : sorted.list with
      | none =>
          rw [add, found, Option.isSome_none, if_neg Bool.false_ne_true]
          refine takes_of_count rfl rfl fun one => ?_
          simp only [kept, parts, found, Option.toList_some, Option.toList_none, List.map_nil,
            List.map_singleton, List.count_append, List.count_nil, WrittenTypes.asList]
          omega
      | some first =>
          rw [add, found]
          exact takes_ignore rfl rfl .secondList
  | result note =>
      cases found : sorted.result with
      | none =>
          rw [add, found, Option.isSome_none, if_neg Bool.false_ne_true]
          refine takes_of_count rfl rfl fun one => ?_
          simp only [kept, parts, found, Option.toList_some, Option.toList_none, List.map_nil,
            List.map_singleton, List.count_append, List.count_nil]
          omega
      | some first =>
          rw [add, found]
          exact takes_ignore rfl rfl .secondResult
  | param name note =>
      refine takes_of_count rfl rfl fun one => ?_
      simp only [kept, parts, add, List.map_append, List.count_append, List.map_singleton]
      omega
  | generic param location => exact takes_ignore rfl rfl .genericOnMethod
  | skip location | override location => exact ⟨[], nofun, by simp [add], .refl _⟩

variable {sorted} {annotations : List Annotation}

/-- One step of sorting. -/
theorem Accounts.add (accounts : sorted.Accounts annotations) (added : Annotation) :
    (sorted.add added).Accounts (annotations ++ [added]) where
  colons := by rw [colons_add, accounts.colons, List.filter_append]
  list := by rw [list_add, accounts.list, List.find?_append]
  result := by rw [result_add, accounts.result, List.find?_append]
  params := by rw [params_add, accounts.params, List.filter_append]
  all := by
    obtain ⟨before, others, located, all⟩ := accounts.all
    obtain ⟨lost, other, noted, taken⟩ := sorted.takes_add added
    refine ⟨before ++ lost, List.forall_mem_append.2 ⟨others, other⟩,
      by rw [noted, List.map_append, located], ?_⟩
    calc (sorted.add added).kept ++ (before ++ lost)
      _ ~ ((sorted.add added).kept ++ lost) ++ before := by
        rw [List.append_assoc]
        exact List.perm_append_comm.append_left _
      _ ~ (sorted.kept ++ [added].filter (!·.isMark)) ++ before := taken.append_right before
      _ ~ (sorted.kept ++ before) ++ [added].filter (!·.isMark) := by
        rw [List.append_assoc, List.append_assoc]
        exact List.perm_append_comm.append_left _
      _ ~ annotations.filter (!·.isMark) ++ [added].filter (!·.isMark) := all.append_right _
      _ ~ (annotations ++ [added]).filter (!·.isMark) := by rw [List.filter_append]

theorem accounts_foldl {more : List Annotation} (accounts : sorted.Accounts annotations) :
    (more.foldl Sorted.add sorted).Accounts (annotations ++ more) := by
  induction more generalizing sorted annotations with
  | nil => exact (List.append_nil annotations).symm ▸ accounts
  | cons added more ih => simpa using ih (accounts.add added)

/-- All annotations are sorted. -/
theorem accounts_ofAnnotations (annotations : List Annotation) :
    (ofAnnotations annotations).Accounts annotations :=
  have start : Accounts [] {} := ⟨rfl, rfl, rfl, rfl, [], nofun, rfl, .refl _⟩
  accounts_foldl start

theorem Accounts.isExplicit (accounts : sorted.Accounts annotations)
    (given : ∃ annotation ∈ annotations, annotation.isColon = true ∨ annotation.isList = true) :
    sorted.isExplicit = true := by
  obtain ⟨one, inside, colon | list⟩ := given
  · have kept : one ∈ sorted.colons.map WrittenTypes.asColon :=
      accounts.colons ▸ List.mem_filter.2 ⟨inside, colon⟩
    obtain ⟨written, kept, -⟩ := List.mem_map.1 kept
    simp [Sorted.isExplicit, List.ne_nil_of_mem kept]
  · have first : (annotations.find? Annotation.isList).isSome = true :=
      List.find?_isSome.2 ⟨one, inside, list⟩
    rw [← accounts.list, Option.isSome_map] at first
    rw [Sorted.isExplicit, first, Bool.or_true]

theorem Accounts.deciding_of_nil (accounts : sorted.Accounts annotations)
    (none : sorted.colons = []) :
    deciding false annotations = sorted.list.toList.map WrittenTypes.asList := by
  rw [deciding, ← accounts.colons, ← accounts.list, none]
  cases sorted.list <;> rfl

theorem Accounts.deciding_of_ne_nil (accounts : sorted.Accounts annotations)
    (some : sorted.colons ≠ []) :
    deciding false annotations = sorted.colons.map WrittenTypes.asColon := by
  rw [deciding, ← accounts.colons]
  simp [some]

/-- Where annotations of the result and of parameters have no effect, they are noted where they are,
and so is the one behind the method. -/
theorem map_location_lesser (sorted : Sorted) (trailing : Option TypeAnnotation)
    (reason : Disuse) : ((sorted.lesser trailing reason).map (·.location)).Perm
      (sorted.parts.map (·.location) ++ trailing.toList.map (·.location)) := by
  simp only [lesser, parts, List.map_map, List.map_append, List.append_assoc]
  exact List.perm_append_comm.append_left _

/-- What is kept has an effect, or it is noted where it is. -/
theorem Accounts.exists_lost (accounts : sorted.Accounts annotations)
    (used passed : List Annotation) (kept : sorted.kept = used ++ (passed ++ sorted.parts))
    {ignored : List Ignored} {trailing : Option TypeAnnotation} {reason : Disuse}
    (noted : ignored.map (·.location) = sorted.ignored.map (·.location)
      ++ passed.map (·.location) ++ (sorted.lesser trailing reason).map (·.location)) :
    ∃ lost : List Annotation, (used ++ lost).Perm (annotations.filter (!·.isMark)) ∧
      (ignored.map (·.location)).Perm
        (lost.map (·.location) ++ trailing.toList.map (·.location)) := by
  obtain ⟨lost, -, located, all⟩ := accounts.all
  refine ⟨lost ++ passed ++ sorted.parts, ?_, ?_⟩
  · calc used ++ (lost ++ passed ++ sorted.parts)
      _ ~ used ++ (passed ++ sorted.parts ++ lost) := by
        rw [List.append_assoc]
        exact List.perm_append_comm.append_left used
      _ ~ annotations.filter (!·.isMark) := by
        rw [← List.append_assoc, ← kept]
        exact all
  · rw [noted, ← located, List.map_append, List.map_append,
      List.append_assoc _ _ (trailing.toList.map _)]
    exact (sorted.map_location_lesser trailing reason).append_left _

end Sorted

/-! ## Decisions -/

/-- Where whole method types are given or overridden, they are decided on, and each annotation
decides or is noted where it is. -/
theorem decideOverloads_accounts {annotations : List Annotation} {overriding : Bool}
    (given : overriding = true ∨ ∃ annotation ∈ annotations,
      annotation.isColon = true ∨ annotation.isList = true)
    (trailing : Option TypeAnnotation) (params : List RubyParam) :
    ∃ decision lost, decideOverloads annotations trailing overriding params = .ok decision ∧
      decision.overloads = (deciding overriding annotations).flatMap Annotation.types ∧
      (deciding overriding annotations ++ lost).Perm (annotations.filter (!·.isMark)) ∧
      (decision.ignored.map (·.location)).Perm
        (lost.map (·.location) ++ trailing.toList.map (·.location)) := by
  have accounts := Sorted.accounts_ofAnnotations annotations
  generalize sorts : Sorted.ofAnnotations annotations = sorted at accounts
  cases overriding with
  | true =>
      have noted : (decideOverride sorted trailing).ignored.map (·.location) =
          sorted.ignored.map (·.location)
            ++ (sorted.colons.map WrittenTypes.asColon
              ++ sorted.list.toList.map WrittenTypes.asList).map (·.location)
            ++ (sorted.lesser trailing .overridden).map (·.location) := by
        simp [decideOverride, Function.comp_def, WrittenTypes.asColon, WrittenTypes.asList,
          Annotation.location]
      obtain ⟨lost, all, noted⟩ := accounts.exists_lost [] _ rfl noted
      exact ⟨_, lost, by rw [decideOverloads, sorts]; rfl, rfl, all, noted⟩
  | false =>
      have explicit : sorted.isExplicit = true := accounts.isExplicit (given.resolve_left nofun)
      have decided : decideOverloads annotations trailing false params =
          .ok (decideExplicit sorted trailing) := by
        rw [decideOverloads, sorts, if_neg Bool.false_ne_true, if_pos explicit]
      by_cases none : sorted.colons = []
      · -- the first list decides
        have noted : (decideExplicit sorted trailing).ignored.map (·.location) =
            sorted.ignored.map (·.location) ++ ([] : List Annotation).map (·.location)
              ++ (sorted.lesser trailing .explicitTypes).map (·.location) := by
          simp [decideExplicit, none]
        obtain ⟨lost, all, noted⟩ := accounts.exists_lost
          (sorted.list.toList.map WrittenTypes.asList) [] (by simp [Sorted.kept, none]) noted
        refine ⟨_, lost, decided, ?_⟩
        rw [accounts.deciding_of_nil none, List.flatMap_map]
        refine ⟨?_, all, noted⟩
        simp [decideExplicit, none, WrittenTypes.asList, Annotation.types]
      · -- all annotations behind `#:` decide
        have noted : (decideExplicit sorted trailing).ignored.map (·.location) =
            sorted.ignored.map (·.location)
              ++ (sorted.list.toList.map WrittenTypes.asList).map (·.location)
              ++ (sorted.lesser trailing .explicitTypes).map (·.location) := by
          simp [decideExplicit, none, Function.comp_def, WrittenTypes.asList, Annotation.location]
        obtain ⟨lost, all, noted⟩ := accounts.exists_lost (sorted.colons.map WrittenTypes.asColon)
          (sorted.list.toList.map WrittenTypes.asList) (by simp [Sorted.kept]) noted
        refine ⟨_, lost, decided, ?_⟩
        rw [accounts.deciding_of_ne_nil none, List.flatMap_map]
        refine ⟨?_, all, noted⟩
        simp [decideExplicit, none, WrittenTypes.asColon, Annotation.types]

/-! ## What is settled -/

open Grammar in
/-- A text of method types has at least one of them. -/
theorem readOverloads_ne_nil {buffer : Buffer} {range : Range} {scope : List String}
    {types : List MethodType} (read : readOverloads buffer range scope = .ok types) :
    types ≠ [] := by
  obtain ⟨excerpt, tree, -, parsed, means⟩ := exists_of_readRange read
  obtain ⟨tokens, next, derives⟩ := exists_derives_of_parse parsed
  have needed : .methodType ∈ tree.rule.needs := derives.stretch_eq.1 ▸ (by decide)
  obtain ⟨child, inside, rule⟩ := (Part.whole derives).exists_child .methodType needed
  have inside : child ∈ tree.children.filter fun tree => tree.rule = .methodType :=
    List.mem_filter.2 ⟨inside, decide_eq_true rule⟩
  have all := mapM_eq_ok_iff.1 means
  rintro rfl
  rw [List.forall₂_nil_right_iff.1 all] at inside
  exact nomatch inside

/-- What gives method types in a comment gives at least one. -/
theorem Annotation.types_ne_nil {one : Annotation} {scope : List String}
    (spelled : one.Spelled scope) (gives : one.isColon = true ∨ one.isList = true) :
    one.types ≠ [] := by
  cases one with
  | colon types location | overloads types location =>
      obtain ⟨text, read⟩ := spelled
      exact readOverloads_ne_nil read
  | _ => exact gives.elim nofun nofun

/-- What decides gives method types. -/
theorem mem_deciding {overriding : Bool} {annotations : List Annotation} {one : Annotation}
    (decides : one ∈ deciding overriding annotations) : one ∈ annotations ∧
      (one.isColon = true ∨ one.isList = true) := by
  unfold deciding at decides
  dsimp only at decides
  split at decides
  · exact nomatch decides
  · split at decides
    · have found := Option.mem_toList.1 decides
      exact ⟨List.mem_of_find?_eq_some found, .inr (List.find?_some found)⟩
    · exact (List.mem_filter.1 decides).imp_right .inl

/-- Without an override something decides. -/
theorem deciding_ne_nil {annotations : List Annotation}
    (given : ∃ annotation ∈ annotations, annotation.isColon = true ∨ annotation.isList = true) :
    deciding false annotations ≠ [] := by
  obtain ⟨one, inside, gives⟩ := given
  unfold deciding
  dsimp only
  rw [if_neg Bool.false_ne_true]
  split
  · rename_i none
    have list : one.isList = true := gives.resolve_left fun colon =>
      List.ne_nil_of_mem (List.mem_filter.2 ⟨inside, colon⟩) (List.isEmpty_iff.1 none)
    have found : (annotations.find? Annotation.isList).isSome = true :=
      List.find?_isSome.2 ⟨one, inside, list⟩
    obtain ⟨first, found⟩ := Option.isSome_iff_exists.1 found
    rw [found]
    exact List.cons_ne_nil _ _
  · rename_i some
    exact fun none => some (List.isEmpty_iff.2 none)

/-- Where whole method types are given above a method, or an override stands in for them, and
diagnostics are not limited, the overloads are those of the annotations that decide. Every other
annotation is reported once where it is, also the one behind the method, and none that decides is.
There are no overloads only with an override. -/
theorem settleOverloads_accounts {file : RubyFile} {scope : List String}
    {comments : List CommentLine} {block : LeadingBlock}
    (unlimited : file.options.maxDiagnostics = none)
    (read : readLeading file.buffer scope comments = .ok block)
    (given : block.isOverride = true ∨ ∃ annotation ∈ block.annotations,
      annotation.isColon = true ∨ annotation.isList = true)
    (trailing : Option TypeAnnotation) (params : List RubyParam) (progress : Progress) :
    ∃ overloads reports lost,
      (settleOverloads file block.annotations trailing block.isOverride params).run progress =
        (.ok overloads, { progress with diagnostics := progress.diagnostics ++ reports }) ∧
      overloads = (deciding block.isOverride block.annotations).flatMap Annotation.types ∧
      (deciding block.isOverride block.annotations ++ lost).Perm
        (block.annotations.filter (!·.isMark)) ∧
      (∀ diagnostic ∈ reports, ∃ reason, diagnostic = .unused reason diagnostic.location) ∧
      (reports.map (·.location)).Perm
        (lost.map (·.location) ++ trailing.toList.map (·.location)) ∧
      (overloads = [] ↔ block.isOverride = true) := by
  obtain ⟨decision, lost, decided, overloads, all, noted⟩ :=
    decideOverloads_accounts given trailing params
  refine ⟨_, _, lost, run_settleOverloads unlimited decided, overloads, all, ?_, ?_, ?_⟩
  · simp only [List.forall_mem_map]
    exact fun ignored _ => ⟨ignored.reason, rfl⟩
  · rw [List.map_map]
    exact noted
  · rw [overloads]
    -- Nothing decides only where whole types are overridden: an annotation that decides has types.
    cases overriding : block.isOverride with
    | true => exact ⟨fun _ => rfl, fun _ => rfl⟩
    | false =>
        rw [overriding] at given
        obtain ⟨one, decides⟩ :=
          List.exists_mem_of_ne_nil _ (deciding_ne_nil (given.resolve_left nofun))
        obtain ⟨inside, gives⟩ := mem_deciding decides
        refine ⟨fun none => ?_, nofun⟩
        have some := Annotation.types_ne_nil (spelled_readLeading read one inside) gives
        exact absurd (List.flatMap_eq_nil_iff.1 none one decides) some

/-- Comments with two annotations behind `#:`, one of a parameter and a list. -/
def annotatedFile : RubyFile where
  buffer := .ofString "a.rb" "#: () -> A\n# @rbs a: B\n#: (C) -> D | () -> E\n# @rbs (F) -> G\n"
  comments := { lines := [⟨0, ⟨0, 10⟩, true⟩, ⟨1, ⟨11, 22⟩, true⟩, ⟨2, ⟨23, 44⟩, true⟩,
    ⟨3, ⟨45, 60⟩, true⟩] }

/-- Behind `#:` there are three method types; the other two annotations are reported. -/
theorem settleOverloads_annotatedFile : ∃ block overloads reports,
    readLeading annotatedFile.buffer [] annotatedFile.comments.lines = .ok block ∧
    (settleOverloads annotatedFile block.annotations none block.isOverride []).run {} =
      (.ok overloads, { diagnostics := reports }) ∧
    overloads.map (·.print) =
      ["() -> A".toList, "(C) -> D".toList, "() -> E".toList] ∧ reports.length = 2 := by
  have known : (readLeading annotatedFile.buffer [] annotatedFile.comments.lines).toOption.map
      (fun block => (block.isOverride, block.annotations.any fun annotation =>
          annotation.isColon || annotation.isList,
        ((deciding false block.annotations).flatMap Annotation.types).map (·.print),
        (block.annotations.filter (!·.isMark)).length,
        (deciding false block.annotations).length)) =
      some (false, true, ["() -> A".toList, "(C) -> D".toList, "() -> E".toList], 4, 2) := by
    decide +kernel
  obtain ⟨block, read, shown⟩ := exists_of_toOption_map known
  simp only [Prod.mk.injEq] at shown
  obtain ⟨plain, given, printed, all, decide⟩ := shown
  rw [List.any_eq_true] at given
  obtain ⟨overloads, reports, lost, ran, rfl, partition, -, noted, -⟩ :=
    settleOverloads_accounts (show annotatedFile.options.maxDiagnostics = none from rfl) read
      (.inr (by simpa using given)) none [] {}
  rw [plain] at partition
  have total := partition.length_eq
  have count := noted.length_eq
  rw [List.length_append, all, decide] at total
  simp only [List.length_map, List.length_append, Option.toList_none, List.map_nil,
    List.length_nil] at count
  refine ⟨block, _, reports, read, ran, ?_, by omega⟩
  rw [plain]
  exact printed

end Signet.Inline
