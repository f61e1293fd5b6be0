import Signet.Inline.Annotation
import Signet.Proofs.Reading.Parts

/-!
# Groups of comment lines

The comments above a definition are read line by line, with a method type pending while lines
continue it. What is read in that way are the groups into which the lines fall (`groups`): one after
the other they give the same progress (`BlockProgress.readLines_eq`). So a block can be read in
parts: its groups into annotations and diagnostics, and its lines of documentation into one text
(`readLeading_eq`).
-/

namespace Signet.Inline

open Text Ruby

variable {buffer : Buffer} {scope : List String}

/-! ## Groups -/

/-- The payload of a continuation that has nothing to continue. -/
def Group.dangling? : Group → Option Range
  | .dangling payload => some payload
  | _ => none

/-- The line of documentation that a group is. -/
def Group.doc? : Group → Option (List Char × Range)
  | .doc text range => some (text, range)
  | _ => none

/-- A pending method type in front of groups. It takes the continuations that they begin with. -/
def Group.resume (first : Range) (more : List Range) (groups : List Group) : List Group :=
  let taken := groups.takeWhile fun group => group.dangling?.isSome
  .methodType first (more ++ taken.filterMap Group.dangling?) :: groups.drop taken.length

/-- A line in front of groups. A method type takes the continuations right after it. -/
def Group.cons (range : Range) (groups : List Group) : LineKind → List Group
  | .colon payload => Group.resume payload [] groups
  | .continuation payload => .dangling payload :: groups
  | .directive payload => .directive payload :: groups
  | .doc text => .doc text range :: groups

/-- The groups of a block of comments. -/
def groups (buffer : Buffer) (comments : List CommentLine) : List Group :=
  comments.foldr (fun comment groups =>
    Group.cons (comment.range buffer) groups (classify buffer comment)) []

theorem groups_cons (comment : CommentLine) (comments : List CommentLine) :
    groups buffer (comment :: comments) =
      Group.cons (comment.range buffer) (groups buffer comments) (classify buffer comment) := rfl

/-- The documentation in a block: its lines without white space at the end, and from the first to
the last of them. -/
def readDoc (buffer : Buffer) (groups : List Group) : Except LocationError (Option Comment) := do
  let lines := groups.filterMap Group.doc?
  match lines.head?, lines.getLast? with
  | some first, some last =>
    let text := trimEnd (['\n'].intercalate (lines.map (·.1)))
    let location ← Location.ofRange buffer (first.2.through last.2)
    return some { text := String.ofList text, location }
  | _, _ => return none

/-! ## Line by line -/

/-- The groups of some lines behind what is pending. -/
def Group.behind (pending : Option (Range × List Range)) (groups : List Group) : List Group :=
  match pending with
  | some (first, more) => Group.resume first more groups
  | none => groups

/-- A continuation goes on with the method type that is pending. -/
theorem Group.resume_dangling (first payload : Range) (more : List Range) (groups : List Group) :
    Group.resume first more (.dangling payload :: groups) =
      Group.resume first (more ++ [payload]) groups := by
  simp [Group.resume, Group.dangling?]

namespace BlockProgress

/-- In front of a group that is no continuation, what is pending is read by itself. -/
theorem foldlM_behind {group : Group} (other : group.dangling? = none)
    (pending : Option (Range × List Range)) (groups : List Group) (progress : BlockProgress) :
    (Group.behind pending (group :: groups)).foldlM (read buffer scope) progress =
      progress.flush buffer scope pending >>= fun progress =>
        progress.read buffer scope group >>= fun progress =>
          groups.foldlM (read buffer scope) progress := by
  cases pending with
  | none => rfl
  | some pending =>
      have alone : Group.behind (some pending) (group :: groups) =
          .methodType pending.1 pending.2 :: group :: groups := by
        simp [Group.behind, Group.resume, other]
      rw [alone]
      rfl

/-- Line by line, the groups of the lines are read, the first of them behind what is pending. -/
theorem readLines_eq (pending : Option (Range × List Range)) (progress : BlockProgress)
    (comments : List CommentLine) : readLines buffer scope pending progress comments =
      (Group.behind pending (groups buffer comments)).foldlM (read buffer scope) progress := by
  induction comments generalizing pending progress with
  | nil =>
      cases pending with
      | none => rfl
      | some pending =>
          have alone : Group.behind (some pending) [] = [.methodType pending.1 pending.2] := by
            simp [Group.behind, Group.resume]
          rw [groups, List.foldr_nil, alone, List.foldlM_cons]
          exact (bind_pure _).symm
  | cons comment comments ih =>
      rw [readLines.eq_def, groups_cons]
      dsimp only
      cases classify buffer comment with
      | continuation payload =>
          cases pending with
          | none =>
              simp only [ih]
              rfl
          | some pending =>
              simp only [ih]
              exact congrArg (List.foldlM (read buffer scope) progress ·)
                (Group.resume_dangling ..).symm
      | colon payload =>
          simp only [ih]
          exact (foldlM_behind rfl pending _ progress).symm
      | directive payload =>
          simp only [ih]
          exact (foldlM_behind rfl pending _ progress).symm
      | doc text =>
          simp only [ih]
          exact (foldlM_behind rfl pending _ progress).symm

/-! ## Documentation apart -/

/-- The progress with lines of documentation. -/
def addDocs (progress : BlockProgress) (lines : List (List Char × Range)) : BlockProgress :=
  lines.foldl (fun progress line => progress.addDoc line.1 line.2) progress

/-- The documentation ends with the last line of it. -/
theorem addDocs_of_docRange {progress : BlockProgress} {existing : Range}
    (began : progress.docRange = some existing) (lines : List (List Char × Range)) :
    progress.addDocs lines =
      { progress with
        docLines := progress.docLines ++ lines.map (·.1)
        docRange := some (existing.through ((lines.getLast?.map (·.2)).getD existing)) } := by
  induction lines generalizing progress existing with
  | nil =>
      obtain ⟨block, docLines, docRange⟩ := progress
      obtain rfl := began
      simp [addDocs, Range.through]
  | cons line lines ih =>
      have next : (progress.addDoc line.1 line.2).docRange = some (existing.through line.2) := by
        rw [addDoc, began]
      show (progress.addDoc line.1 line.2).addDocs lines = _
      rw [ih next, List.getLast?_cons, List.map_cons]
      cases lines.getLast? <;> simp [addDoc, Range.through]

/-- Groups are read apart from the documentation among them. -/
theorem foldlM_read (groups : List Group) (progress : BlockProgress) :
    groups.foldlM (read buffer scope) progress = (do
      let block ← groups.foldlM (fun block group => do
        return block.add (← group.read buffer scope)) progress.block
      return { progress with block }.addDocs (groups.filterMap Group.doc?)) := by
  induction groups generalizing progress with
  | nil => rfl
  | cons group groups ih =>
      rw [List.foldlM_cons, List.foldlM_cons, bind_assoc]
      cases group with
      | doc text range =>
          have same : progress.block.add (.ok []) = progress.block := by
            simp [LeadingBlock.add]
          show groups.foldlM (read buffer scope) (progress.addDoc text range) = do
            let block ← groups.foldlM _ (progress.block.add (.ok []))
            return { progress with block }.addDocs ((text, range) :: groups.filterMap Group.doc?)
          rw [ih, same]
          rfl
      | methodType first more | dangling payload | directive payload =>
          simp only [read, bind_assoc, pure_bind, ih]
          rfl

end BlockProgress

/-- Groups add nothing to the documentation of a block. -/
theorem doc_of_foldlM_read {groups : List Group} {block next : LeadingBlock}
    (read : groups.foldlM (fun block group => do return block.add (← group.read buffer scope))
      block = .ok next) : next.doc = block.doc := by
  induction groups generalizing block with
  | nil => exact congrArg LeadingBlock.doc (Except.ok.inj read).symm
  | cons group groups ih =>
      rw [List.foldlM_cons] at read
      obtain ⟨middle, here, later⟩ := bind_eq_ok_iff.1 read
      obtain ⟨outcome, -, same⟩ := bind_eq_ok_iff.1 here
      obtain rfl := Except.ok.inj same
      rw [ih later]
      cases outcome <;> rfl

/-- What is left of a block is its documentation. -/
theorem finish_addDocs {block : LeadingBlock} (undocumented : block.doc = none)
    (groups : List Group) :
    (({ block } : BlockProgress).addDocs (groups.filterMap Group.doc?)).finish buffer = do
      return { block with doc := ← readDoc buffer groups } := by
  rw [readDoc]
  cases groups.filterMap Group.doc? with
  | nil =>
      obtain ⟨annotations, doc, diagnostics⟩ := block
      obtain rfl := undocumented
      rfl
  | cons line lines =>
      have docs : ({ block } : BlockProgress).addDocs (line :: lines) =
          { block, docLines := (line :: lines).map (·.1)
            docRange := some (line.2.through ((lines.getLast?.map (·.2)).getD line.2)) } :=
        BlockProgress.addDocs_of_docRange rfl lines
      have last : (lines.getLast?.map (·.2)).getD line.2 = (lines.getLast?.getD line).2 := by
        cases lines.getLast? <;> rfl
      rw [docs, last, List.getLast?_cons]
      simp only [BlockProgress.finish, List.head?_cons, bind_assoc, pure_bind]

/-- The groups of a block are read one by one, and its documentation is read by itself. -/
theorem readLeading_eq (buffer : Buffer) (scope : List String) (comments : List CommentLine) :
    readLeading buffer scope comments = (do
      let block ← (groups buffer comments).foldlM (fun block group => do
        return block.add (← group.read buffer scope)) ({} : LeadingBlock)
      return { block with doc := ← readDoc buffer (groups buffer comments) }) := by
  rw [readLeading, BlockProgress.readLines_eq, Group.behind, BlockProgress.foldlM_read, bind_assoc]
  cases folded : (groups buffer comments).foldlM (fun block group => do
      return block.add (← group.read buffer scope)) ({} : LeadingBlock) with
  | error error => rfl
  | ok block => exact finish_addDocs (doc_of_foldlM_read folded) _

end Signet.Inline
