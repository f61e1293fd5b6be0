import Mathlib.Data.List.Forall2
import Mathlib.Tactic.Common
import Signet.Proofs.Grammar.Names
import Signet.Proofs.Inline.Groups

/-!
# Lines and groups of comments

A comment line is of one of four kinds (`Tells`), by what its text says: `#:`, `#|`, the word of a
directive behind blanks, or anything else. The lines of a block are split into groups (`Splits`): a
method type with all continuations right behind it, or a line by itself. The groups that are read
are the only way to split the lines (`splits_iff`).
-/

namespace Signet.Inline

open Text Ruby

/-! ## Lines -/

/-- The text has the word of a directive behind blanks and in front of a blank or the end. -/
structure Directs (body blanks rest : List Char) : Prop where
  split : body = blanks ++ directiveWord ++ rest
  blank : allBlank blanks = true
  apart : ∀ c ∈ rest.head?, isBlank c = true

/-- What a line in a range means, from the text after its mark. -/
inductive Tells (range : Range) (body : List Char) : LineKind → Prop
  | colon {rest : List Char} : body = ':' :: rest →
      Tells range body (.colon ⟨range.start + 2, range.stop⟩)
  | continuation {rest : List Char} : body = '|' :: rest →
      Tells range body (.continuation ⟨range.start + 1, range.stop⟩)
  | directive {blanks rest : List Char} : Directs body blanks rest →
      Tells range body
        (.directive ⟨range.start + 1 + blanks.length + directiveWord.length, range.stop⟩)
  | doc : body.head? ≠ some ':' → body.head? ≠ some '|' →
      (∀ blanks rest, ¬ Directs body blanks rest) → Tells range body (.doc (docText body))

namespace Directs

variable {body blanks rest : List Char}

/-- The word begins where the blanks end. -/
theorem trimStart_eq (directs : Directs body blanks rest) :
    trimStart body = directiveWord ++ rest := by
  rw [directs.split, List.append_assoc]
  refine dropWhile_append (List.all_eq_true.1 directs.blank) fun c first => ?_
  obtain rfl : '@' = c := Option.some.inj first
  decide

theorem afterDirectiveWord?_eq (directs : Directs body blanks rest) :
    afterDirectiveWord? (trimStart body) = some rest := by
  have word : directiveWord.isPrefixOf (directiveWord ++ rest) = true := by
    simp
  have apart : (rest.head?.map isBlank).getD true = true := by
    cases first : rest.head? with
    | none => rfl
    | some c => exact directs.apart c first
  rw [directs.trimStart_eq, afterDirectiveWord?, if_pos word, List.drop_left]
  exact if_pos apart

theorem of_afterDirectiveWord? (found : afterDirectiveWord? (trimStart body) = some rest) :
    Directs body (body.takeWhile isBlank) rest := by
  unfold afterDirectiveWord? at found
  dsimp only at found
  split at found
  · rename_i word
    split at found
    · rename_i apart
      obtain rfl := Option.some.inj found
      obtain ⟨after, split⟩ := List.isPrefixOf_iff_prefix.1 word
      have drop_eq : (trimStart body).drop directiveWord.length = after := by
        rw [← split, List.drop_left]
      rw [drop_eq] at apart ⊢
      refine ⟨?_, List.all_takeWhile, fun c first => ?_⟩
      · calc body = body.takeWhile isBlank ++ trimStart body :=
              (List.takeWhile_append_dropWhile).symm
          _ = body.takeWhile isBlank ++ directiveWord ++ after := by
              rw [← split, List.append_assoc]
      · have first : after.head? = some c := first
        simpa [first] using apart
    · cases found
  · cases found

theorem length_skipped (directs : Directs body blanks rest) :
    body.length - (trimStart body).length = blanks.length := by
  rw [directs.trimStart_eq, directs.split]
  simp only [List.length_append]
  omega

/-- The body begins with a blank or with the word. -/
theorem head?_ne (directs : Directs body blanks rest) {c : Char} (ink : isBlank c = false)
    (other : c ≠ '@') : body.head? ≠ some c := by
  rw [directs.split]
  cases blanks with
  | nil =>
      intro same
      exact other (Option.some.inj same).symm
  | cons blank blanks =>
      intro same
      obtain rfl := Option.some.inj same
      have : isBlank blank = true := List.all_eq_true.1 directs.blank blank List.mem_cons_self
      rw [this] at ink
      cases ink

end Directs

/-- What a line is taken for is what it tells. -/
theorem tells_iff {range : Range} {body : List Char} {kind : LineKind} :
    Tells range body kind ↔ classifyBody range body = kind := by
  constructor
  · intro tells
    cases tells with
    | colon split => rw [split, classifyBody]
    | continuation split => rw [split, classifyBody]
    | directive directs =>
        unfold classifyBody
        split
        · exact absurd rfl (directs.head?_ne (c := ':') (by decide) (by decide))
        · exact absurd rfl (directs.head?_ne (c := '|') (by decide) (by decide))
        · dsimp only
          rw [directs.afterDirectiveWord?_eq, directs.length_skipped]
    | doc noColon noBar noWord =>
        unfold classifyBody
        split
        · exact absurd rfl noColon
        · exact absurd rfl noBar
        · dsimp only
          split
          · rename_i found
            exact absurd (Directs.of_afterDirectiveWord? found) (noWord _ _)
          · rfl
  · rintro rfl
    unfold classifyBody
    split
    · exact .colon rfl
    · exact .continuation rfl
    · rename_i noColon noBar
      dsimp only
      split
      · rename_i rest found
        have directs := Directs.of_afterDirectiveWord? found
        rw [directs.length_skipped]
        exact .directive directs
      · rename_i missing
        refine .doc ?_ ?_ fun blanks rest directs => ?_
        · intro first
          obtain ⟨rest, rfl⟩ := List.head?_eq_some_iff.1 first
          exact noColon rest rfl
        · intro first
          obtain ⟨rest, rfl⟩ := List.head?_eq_some_iff.1 first
          exact noBar rest rfl
        · rw [directs.afterDirectiveWord?_eq] at missing
          cases missing

/-! ## Groups -/

variable {buffer : Buffer} {comment : CommentLine} {comments own rest : List CommentLine}
  {kind : LineKind} {payload : Range} {payloads : List Range} {group : Group}

/-- What a comment line of a buffer tells. -/
def Means (buffer : Buffer) (comment : CommentLine) : LineKind → Prop :=
  Tells (comment.range buffer) ((comment.text buffer).drop 1)

theorem means_iff : Means buffer comment kind ↔ classify buffer comment = kind := tells_iff

/-- The comment line continues a method type, if there is one before it. -/
def Continues (buffer : Buffer) (comment : CommentLine) : Prop :=
  ∃ payload, Means buffer comment (.continuation payload)

/-- Lines that make a group: a method type with its continuations, or a single line. -/
inductive Gathers (buffer : Buffer) : List CommentLine → Group → Prop
  | methodType {comment : CommentLine} {comments : List CommentLine} {payload : Range}
      {payloads : List Range} : Means buffer comment (.colon payload) →
      List.Forall₂ (fun comment payload => Means buffer comment (.continuation payload))
        comments payloads →
      Gathers buffer (comment :: comments) (.methodType payload payloads)
  | dangling {comment : CommentLine} {payload : Range} :
      Means buffer comment (.continuation payload) → Gathers buffer [comment] (.dangling payload)
  | directive {comment : CommentLine} {payload : Range} :
      Means buffer comment (.directive payload) → Gathers buffer [comment] (.directive payload)
  | doc {comment : CommentLine} {text : List Char} : Means buffer comment (.doc text) →
      Gathers buffer [comment] (.doc text (comment.range buffer))

/-- The group is a method type. -/
def Group.isMethodType : Group → Bool
  | .methodType .. => true
  | _ => false

/-- Lines split into groups: each line is in one of them, in order, and no continuation is left
right behind a method type. -/
inductive Splits (buffer : Buffer) : List CommentLine → List Group → Prop
  | nil : Splits buffer [] []
  | cons {own rest : List CommentLine} {group : Group} {groups : List Group} :
      Gathers buffer own group → Splits buffer rest groups →
      (group.isMethodType = true → ∀ next ∈ rest.head?, ¬ Continues buffer next) →
      Splits buffer (own ++ rest) (group :: groups)

/-- A group of dangling lines is in front exactly if a continuation is. -/
theorem dangling?_head_groups (stop : ∀ next ∈ rest.head?, ¬ Continues buffer next) :
    ∀ group ∈ (groups buffer rest).head?, group.dangling?.isSome = false := by
  intro group first
  cases rest with
  | nil => cases first
  | cons next rest =>
      rw [groups_cons] at first
      cases said : classify buffer next with
      | continuation payload => exact absurd ⟨payload, means_iff.2 said⟩ (stop next rfl)
      | colon payload | directive payload | doc text =>
          rw [said] at first
          obtain rfl := Option.some.inj first
          rfl

/-- Continuations are dangling by themselves. -/
theorem groups_continuations
    (means : List.Forall₂ (fun comment payload => Means buffer comment (.continuation payload))
      comments payloads) :
    groups buffer (comments ++ rest) = payloads.map Group.dangling ++ groups buffer rest := by
  induction means with
  | nil => rfl
  | cons here _ ih =>
      rw [List.cons_append, groups_cons, means_iff.1 here, ih]
      rfl

/-- A method type takes the continuations behind it, up to the first other line. -/
theorem groups_gathered (gathers : Gathers buffer own group)
    (stop : group.isMethodType = true → ∀ next ∈ rest.head?, ¬ Continues buffer next) :
    groups buffer (own ++ rest) = group :: groups buffer rest := by
  cases gathers with
  | @methodType comment comments payload payloads here means =>
      have all : ∀ group ∈ payloads.map Group.dangling, group.dangling?.isSome = true := by
        simp [Group.dangling?]
      have payloads_eq : (payloads.map Group.dangling).filterMap Group.dangling? = payloads := by
        simp [List.filterMap_map, Function.comp_def, Group.dangling?]
      rw [List.cons_append, groups_cons, means_iff.1 here, groups_continuations means]
      show Group.methodType payload _ :: _ = _
      rw [takeWhile_append all (dangling?_head_groups (stop rfl)), payloads_eq,
        List.drop_left, List.nil_append]
  | dangling here | directive here | doc here =>
      rw [List.singleton_append, groups_cons, means_iff.1 here]
      rfl

theorem Splits.eq_groups {found : List Group} (splits : Splits buffer comments found) :
    found = groups buffer comments := by
  induction splits with
  | nil => rfl
  | cons gathers _ stop ih => rw [groups_gathered gathers stop, ih]

/-- The continuations in front of some lines. -/
theorem exists_continuations (buffer : Buffer) (comments : List CommentLine) :
    ∃ own payloads rest, comments = own ++ rest ∧
      List.Forall₂ (fun comment payload => Means buffer comment (.continuation payload))
        own payloads ∧ ∀ next ∈ rest.head?, ¬ Continues buffer next := by
  induction comments with
  | nil => exact ⟨[], [], [], rfl, .nil, by simp⟩
  | cons comment comments ih =>
      by_cases continues : Continues buffer comment
      · obtain ⟨payload, means⟩ := continues
        obtain ⟨own, payloads, rest, rfl, all, stop⟩ := ih
        exact ⟨comment :: own, payload :: payloads, rest, rfl, .cons means all, stop⟩
      · refine ⟨[], [], comment :: comments, rfl, .nil, fun next first => ?_⟩
        obtain rfl : comment = next := Option.some.inj first
        exact continues

/-- Some group begins with the first line. -/
theorem exists_gathers (buffer : Buffer) (comment : CommentLine) (comments : List CommentLine) :
    ∃ own group rest, comment :: comments = (comment :: own) ++ rest ∧
      Gathers buffer (comment :: own) group ∧
        (group.isMethodType = true → ∀ next ∈ rest.head?, ¬ Continues buffer next) := by
  cases said : classify buffer comment with
  | colon payload =>
      obtain ⟨own, payloads, rest, rfl, all, stop⟩ :=
        exists_continuations buffer comments
      exact ⟨own, _, rest, rfl, .methodType (means_iff.2 said) all, fun _ => stop⟩
  | continuation payload =>
      exact ⟨[], _, comments, rfl, .dangling (means_iff.2 said), nofun⟩
  | directive payload => exact ⟨[], _, comments, rfl, .directive (means_iff.2 said), nofun⟩
  | doc text => exact ⟨[], _, comments, rfl, .doc (means_iff.2 said), nofun⟩

theorem splits_groups (comments : List CommentLine) :
    Splits buffer comments (groups buffer comments) := by
  -- a method type takes any number of lines, so the induction is on how many are left
  induction left : comments.length using Nat.strongRecOn generalizing comments with
  | _ count ih =>
      cases comments with
      | nil => exact .nil
      | cons comment comments =>
          obtain ⟨own, group, rest, split, gathers, stop⟩ :=
            exists_gathers buffer comment comments
          have shorter : rest.length < count := by
            have := congrArg List.length split
            simp at this left
            omega
          rw [split, groups_gathered gathers stop]
          exact .cons gathers (ih rest.length shorter rest rfl) stop

/-- The groups in which a block is read are the only ones into which it splits. -/
theorem splits_iff {found : List Group} :
    Splits buffer comments found ↔ found = groups buffer comments :=
  ⟨Splits.eq_groups, fun same => same ▸ splits_groups comments⟩

end Signet.Inline
