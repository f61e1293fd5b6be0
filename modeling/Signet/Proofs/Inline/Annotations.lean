import Signet.Inline.Extraction
import Signet.Proofs.Inline.Comments
import Signet.Proofs.Inline.Groups

/-!
# Comments are read without failing

Every range that is computed while the comments above a definition are read fits the buffer, so
reading them gives a block (`readLeading_eq_ok`), and so does reading the comment after one
(`readTrailing_eq_ok`). What cannot be read is reported as a fault of the text
(`Diagnostic.Genuine`).
-/

namespace Signet

open Text

namespace Inline

open Ruby

/-! ## Texts -/

/-- The diagnostic is about the text, not about a range that does not exist. -/
def Diagnostic.Genuine (diagnostic : Diagnostic) : Prop :=
  ∀ error, diagnostic.problem ≠ .annotationSyntax (.parse (.location error))

/-- Reading succeeds, with a value of some property or with a genuine diagnostic. -/
def Reads {α : Type} (result : Except LocationError (Except Diagnostic α)) (post : α → Prop) :
    Prop :=
  ∃ outcome, result = .ok outcome ∧ (∀ value, outcome = .ok value → post value) ∧
    ∀ diagnostic, outcome = .error diagnostic → diagnostic.Genuine

theorem Reads.map {α β : Type} {result : Except LocationError (Except Diagnostic α)}
    {post : α → Prop} (reads : Reads result post) {change : α → β} {last : β → Prop}
    (implies : ∀ value, post value → last (change value)) :
    Reads (do return (← result).map change) last := by
  obtain ⟨outcome, rfl, value, fault⟩ := reads
  refine ⟨outcome.map change, rfl, ?_, ?_⟩
  · intro changed mapped
    cases outcome with
    | error diagnostic => simp [Except.map] at mapped
    | ok value' =>
        obtain rfl := Except.ok.inj mapped
        exact implies value' (value value' rfl)
  · intro diagnostic mapped
    cases outcome with
    | error diagnostic' =>
        obtain rfl := Except.error.inj mapped
        exact fault diagnostic' rfl
    | ok value' => simp [Except.map] at mapped

/-- A whole buffer is always there to read. -/
theorem readRange_all_ne_location {α : Type} (rule : Grammar.Rule) (buffer : Buffer)
    (meaning : Excerpt → Grammar.ParseTree → Except Fault α) (error : LocationError) :
    readRange rule buffer buffer.all meaning ≠ .error (.location error) := by
  unfold readRange
  rw [Excerpt.ofRange, Buffer.slice_all]
  simp only [bind, Except.bind, pure, Except.pure, Excerpt.read]
  split
  · simp [Excerpt.unexpected]
  · rename_i tree _
    cases meaning _ tree <;> exact nofun

/-- What lies in ranges that fit is read. -/
theorem reads_payload {α : Type} {buffer : Buffer} {ranges : List Range} (nonempty : ranges ≠ [])
    (fit : ∀ range ∈ ranges, buffer.contains range = true) (location : Location .plain)
    (read : Buffer → Range → Except ParseError α)
    (there : ∀ payload error, read payload payload.all ≠ .error (.location error)) :
    Reads (readPayload buffer ranges location read) fun _ => True := by
  unfold readPayload
  rw [Buffer.carve_eq_ok nonempty fit]
  refine ⟨_, rfl, fun _ _ => trivial, ?_⟩
  intro diagnostic failed error unreadable
  cases outcome : read (.carved buffer ranges) (Buffer.carved buffer ranges).all with
  | ok value =>
      rw [outcome] at failed
      cases failed
  | error cause =>
      rw [outcome] at failed
      obtain rfl : Diagnostic.unreadable cause location = diagnostic := Except.error.inj failed
      obtain rfl : cause = .location error := by simpa [Diagnostic.unreadable] using unreadable
      exact there _ _ outcome

variable {buffer : Buffer} {range : Range} {mark : Nat}

theorem ReadFrom.contains (first : ReadFrom buffer.content mark range) :
    buffer.contains range = true := (buffer.contains_iff range).2 ⟨first.start_le, first.stop_le⟩

/-- A range that fits is read from its own start. -/
theorem ReadFrom.ofContains (fits : buffer.contains range = true) :
    ReadFrom buffer.content range.start range where
  start_le := ((buffer.contains_iff range).1 fits).1
  stop_le := ((buffer.contains_iff range).1 fits).2
  mark_le := Nat.le_refl _
  unmarked := fun _ after before => absurd after (Nat.lt_asymm before)

/-- White space at the ends may be skipped. -/
theorem trimRange_eq_ok (first : ReadFrom buffer.content mark range) :
    ∃ trimmed, trimRange buffer range = .ok trimmed ∧ ReadFrom buffer.content mark trimmed := by
  refine ⟨_, by rw [trimRange, Buffer.slice_eq_ok first.contains]; rfl, ?_⟩
  have blanks := first.skip _ (List.takeWhile_prefix isBlank) (not_mem_takeWhile_isBlank _)
  refine blanks.cut (Nat.le_add_right ..) ?_
  have trimmed := ( trimEnd_prefix (trimStart
    (buffer.content.extract range.start range.stop))).length_le
  have front := (List.takeWhile_prefix isBlank
    (l := buffer.content.extract range.start range.stop)).length_le
  have := first.start_le
  have := first.stop_le
  rw [trim, trimStart_eq_drop]
  rw [trimStart_eq_drop, List.length_drop] at trimmed
  simp only [List.extract_eq_take_drop, List.length_take, List.length_drop] at trimmed front ⊢
  omega

/-- The type in a range that fits is read, with a location that fits. -/
theorem reads_typed (scope : List String) (fits : buffer.contains range = true) :
    Reads ( readTypeAnnotation buffer scope range)
      fun note => buffer.contains note.location.range = true := by
  obtain ⟨trimmed, found, first⟩ := trimRange_eq_ok (.ofContains fits)
  unfold readTypeAnnotation
  rw [found]
  simp only [bind, Except.bind]
  rw [Location.ofRange_eq_ok first.contains]
  refine Reads.map (reads_payload (by simp) (by simpa using first.contains) _ _ ?_)
    fun type _ => first.contains
  exact fun payload error => readRange_all_ne_location _ payload _ error

/-! ## Directives -/

/-- A name and its colon are part of the text. -/
theorem keyLength?_le {payload : List Char} {length : Nat}
    (found : keyLength? payload = some length) : length ≤ payload.length := by
  unfold keyLength? at found
  simp only at found
  split at found
  · split at found
    · rename_i colon
      obtain rfl := Option.some.inj found
      have colon := List.mem_of_head? colon
      have inside := List.length_pos_of_mem colon
      have parts := congrArg List.length (List.takeWhile_append_dropWhile
        (p := fun c => decide (c = '*') || decide (c = '&')) (l := payload))
      simp only [List.length_append, List.length_drop] at parts inside
      omega
    · simp at found
  · simp at found

theorem descriptionStart?_le {text : List Char} {before : Nat}
    (found : descriptionStart? text = some before) : before ≤ text.length := by
  induction text generalizing before with
  | nil => simp [descriptionStart?] at found
  | cons c text ih =>
      rw [descriptionStart?] at found
      split at found
      · obtain rfl := Option.some.inj found
        exact Nat.zero_le _
      · obtain ⟨less, rest, rfl⟩ := Option.map_eq_some_iff.1 found
        exact Nat.succ_le_succ (ih rest)

/-- What is left to read of a directive fits; type parameters are read from its line. -/
def Directive.Inside (content : List Char) (mark : Nat) : Directive → Prop
  | .generic params => ReadFrom content mark params
  | .typed _ type => type.start ≤ type.stop ∧ type.stop ≤ content.length
  | _ => True

theorem ReadFrom.directive {content : List Char} (first : ReadFrom content mark range) :
    (Directive.ofPayload range (content.extract range.start range.stop)).Inside content mark := by
  have length : (content.extract range.start range.stop).length = range.stop - range.start := by
    have := first.stop_le
    simp
    omega
  have := first.start_le
  have := first.stop_le
  simp only [Directive.ofPayload]
  split
  · trivial
  · split
    · trivial
    · split
      · rename_i word
        rw [Bool.and_eq_true] at word
        exact first.skip "generic".toList (by simpa using word.1) (by decide)
      · split
        · rename_i key found
          -- The type is what is left behind its key and in front of a description.
          have key_le := keyLength?_le found
          simp only [Directive.Inside]
          split
          · rename_i before described
            have before_le := descriptionStart?_le described
            rw [List.length_drop, length] at before_le
            rw [length] at key_le
            have : range.start + key + before ≤ content.length := by omega
            exact ⟨Nat.le_add_right .., this⟩
          · rw [length] at key_le
            omega
        · split <;> trivial

/-- The one range of the annotations of generics in a list, if there are any. -/
def GenericsAt (content : List Char) (mark : Nat) (annotations : List Annotation) : Prop :=
  ∃ common, ReadFrom content mark common ∧
    ∀ param location, .generic param location ∈ annotations → location.range = common

/-- A directive is read. -/
theorem reads_directive (scope : List String) (first : ReadFrom buffer.content mark range) :
    Reads (readDirective buffer scope range) (GenericsAt buffer.content mark) := by
  obtain ⟨trimmed, found, first⟩ := trimRange_eq_ok first
  have inside := first.directive
  unfold readDirective
  rw [found]
  simp only [bind, Except.bind]
  rw [Buffer.slice_eq_ok first.contains]
  simp only
  -- Wherever a part of the comment is located, it is inside of it and so fits the buffer.
  generalize Directive.ofPayload trimmed (buffer.content.extract trimmed.start trimmed.stop) =
    directive at inside
  cases directive with
  | skip =>
      rw [Location.ofRange_eq_ok first.contains]
      exact ⟨_, rfl, by rintro _ ⟨⟩; exact ⟨trimmed, first, by simp⟩, by rintro _ ⟨⟩⟩
  | override =>
      rw [Location.ofRange_eq_ok first.contains]
      exact ⟨_, rfl, by rintro _ ⟨⟩; exact ⟨trimmed, first, by simp⟩, by rintro _ ⟨⟩⟩
  | generic params =>
      simp only
      rw [Location.ofRange_eq_ok inside.contains]
      refine Reads.map (reads_payload (by simp) (by simpa using inside.contains) _ _ ?_) ?_
      · exact fun payload error => readRange_all_ne_location _ payload _ error
      · intro read _
        refine ⟨params, inside, fun param location member => ?_⟩
        obtain ⟨_, _, equal⟩ := List.mem_map.1 member
        cases equal
        rfl
  | typed name type =>
      simp only
      refine Reads.map (reads_typed scope ((buffer.contains_iff type).2 inside)) ?_
      intro note _
      refine ⟨trimmed, first, ?_⟩
      split <;> simp
  | overloads =>
      simp only
      rw [Location.ofRange_eq_ok first.contains]
      refine Reads.map (reads_payload (by simp) (by simpa using first.contains) _ _ ?_) ?_
      · exact fun payload error => readRange_all_ne_location _ payload _ error
      · exact fun types _ => ⟨trimmed, first, by simp⟩
  | unknown =>
      simp only
      rw [Location.ofRange_eq_ok first.contains]
      refine ⟨_, rfl, by rintro _ ⟨⟩, ?_⟩
      rintro _ ⟨⟩ error
      simp [Diagnostic.about]

/-! ## Groups -/

/-- The group begins with the comment at a mark; what continues it follows later marks. -/
def Group.Placed (content : List Char) (mark : Nat) : Group → Prop
  | .methodType first more => ReadFrom content mark first ∧ ∀ range ∈ more,
      ∃ next, mark < next ∧ content[next]? = some '#' ∧ ReadFrom content next range
  | .dangling payload => ReadFrom content mark payload
  | .directive payload => ReadFrom content mark payload
  | .doc _ range => ReadFrom content mark range

/-- Groups at marks one after the other, none before a lower bound. -/
inductive Arranged (content : List Char) : Nat → List Group → Prop
  | nil {low : Nat} : Arranged content low []
  | cons {low mark : Nat} {group : Group} {groups : List Group} : low ≤ mark →
      content[mark]? = some '#' → group.Placed content mark →
      Arranged content (mark + 1) groups → Arranged content low (group :: groups)

/-- Ranges that fit, and of which any two have a range from the first through the second. -/
structure Joinable (content : List Char) (ranges : List Range) : Prop where
  fits : ∀ range ∈ ranges, range.start ≤ range.stop ∧ range.stop ≤ content.length
  through : ranges.Pairwise fun first last => first.start ≤ last.stop

/-- The range from the first through the last one fits. -/
theorem Joinable.contains {ranges : List Range} (joinable : Joinable buffer.content ranges)
    {first last : Range} (head : ranges.head? = some first) (tail : ranges.getLast? = some last) :
    buffer.contains (first.through last) = true := by
  have inside := joinable.fits last (List.mem_of_getLast? tail)
  refine (buffer.contains_iff _).2 ⟨?_, inside.2⟩
  obtain ⟨rest, rfl⟩ := List.head?_eq_some_iff.1 head
  cases rest with
  | nil =>
      obtain rfl : first = last := by simpa using tail
      exact inside.1
  | cons second rest =>
      have : last ∈ second :: rest := List.mem_of_getLast? (by simpa using tail)
      exact (List.pairwise_cons.1 joinable.through).1 last this

namespace Arranged

variable {content : List Char} {low : Nat} {groups : List Group}

theorem mono (arranged : Arranged content low groups) {lower : Nat} (le : lower ≤ low) :
    Arranged content lower groups := by
  cases arranged with
  | nil => exact .nil
  | cons above marked placed rest => exact .cons (Nat.le_trans le above) marked placed rest

theorem drop (arranged : Arranged content low groups) (count : Nat) :
    Arranged content low (groups.drop count) := by
  induction arranged generalizing count with
  | nil => simpa using .nil
  | @cons low mark group groups above marked placed rest ih =>
      cases count with
      | zero => exact .cons above marked placed rest
      | succ count => exact (ih count).mono (Nat.le_succ_of_le above)

section Pick

variable (pick : Group → Option Range)
  (picks : ∀ mark group range, group.Placed content mark → pick group = some range →
    ReadFrom content mark range)

include picks

/-- What is picked from the groups is read from their marks. -/
theorem exists_mark (arranged : Arranged content low groups) :
    ∀ range ∈ groups.filterMap pick,
      ∃ next, low ≤ next ∧ content[next]? = some '#' ∧ ReadFrom content next range := by
  induction arranged with
  | nil => simp
  | @cons low mark group groups above marked placed rest ih =>
      intro range member
      obtain ⟨other, inside, picked⟩ := List.mem_filterMap.1 member
      rcases List.mem_cons.1 inside with rfl | inside
      · exact ⟨mark, above, marked, picks mark other range placed picked⟩
      · obtain ⟨next, later, marked, read⟩ :=
          ih range (List.mem_filterMap.2 ⟨other, inside, picked⟩)
        exact ⟨next, by omega, marked, read⟩

theorem joinable (arranged : Arranged content low groups) :
    Joinable content (groups.filterMap pick) := by
  induction arranged with
  | nil => exact ⟨by simp, by simp⟩
  | @cons low mark group groups above marked placed rest ih =>
      cases picked : pick group with
      | none => simpa [List.filterMap_cons, picked] using ih
      | some range =>
          have read := picks mark group range placed picked
          rw [List.filterMap_cons_some picked]
          refine ⟨?_, List.pairwise_cons.2 ⟨fun last member => ?_, ih.through⟩⟩
          · rw [List.forall_mem_cons]
            exact ⟨⟨read.start_le, read.stop_le⟩, ih.fits⟩
          · obtain ⟨next, later, marked, second⟩ := rest.exists_mark pick picks last member
            exact read.through second later marked

end Pick

end Arranged

/-- Later rows begin later in the text. -/
theorem Placed.start_lt_start {first second : CommentLine} (firstPlaced : Placed buffer first)
    (secondPlaced : Placed buffer second) (below : first.row < second.row) :
    (first.range buffer).start < (second.range buffer).start := by
  refine Nat.lt_of_not_le fun before => ?_
  have := (List.take_prefix_take_left (l := buffer.content) before).sublist.count_le '\n'
  rw [firstPlaced.row_eq, secondPlaced.row_eq] at below
  omega

/-- The groups of comments on successive rows follow one after the other. -/
theorem arranged_groups {comments : List CommentLine} {low : Nat}
    (placed : ∀ comment ∈ comments, Placed buffer comment)
    (rows : comments.Pairwise fun first second => first.row < second.row)
    (above : ∀ comment ∈ comments, low ≤ (comment.range buffer).start) :
    Arranged buffer.content low (groups buffer comments) := by
  induction comments generalizing low with
  | nil => exact .nil
  | cons comment comments ih =>
      obtain ⟨below, rows⟩ := List.pairwise_cons.1 rows
      have here := placed comment List.mem_cons_self
      have rest : Arranged buffer.content ((comment.range buffer).start + 1)
          (groups buffer comments) := ih
        (fun other member => placed other (List.mem_cons_of_mem _ member)) rows
        (fun other member => here.start_lt_start (placed other (List.mem_cons_of_mem _ member))
          (below other member))
      -- The group of the first comment begins at its mark, and the other groups begin behind that.
      have cons : ∀ (group : Group) (others : List Group),
          group.Placed buffer.content (comment.range buffer).start →
          Arranged buffer.content ((comment.range buffer).start + 1) others →
          Arranged buffer.content low (group :: others) := fun group others placed rest =>
        .cons (above comment List.mem_cons_self) here.getElem?_start placed rest
      rw [groups, List.foldr_cons, ← groups]
      have payload := here.readFrom_payload
      generalize classify buffer comment = line at payload
      cases line with
      | colon first =>
          refine cons _ _ ⟨payload first rfl, fun range member => ?_⟩ (rest.drop _)
          have taken : range ∈ (groups buffer comments).filterMap Group.dangling? :=
            ((List.takeWhile_sublist _).filterMap _).subset member
          refine rest.exists_mark _ (fun mark group other placed picked => ?_) range taken
          cases group with
          | dangling payload =>
              obtain rfl := Option.some.inj picked
              exact placed
          | _ => simp [Group.dangling?] at picked
      | continuation range => exact cons _ _ (payload range rfl) rest
      | directive range => exact cons _ _ (payload range rfl) rest
      | doc text => exact cons _ _ here.readFrom rest

/-- A group is read. -/
theorem reads_group (scope : List String) {group : Group}
    (placed : group.Placed buffer.content mark) :
    Reads (group.read buffer scope) (GenericsAt buffer.content mark) := by
  cases group with
  | methodType first more =>
      obtain ⟨read, rest⟩ := placed
      have more_fits : ∀ range ∈ more, buffer.contains range = true := fun range member =>
        let ⟨_, _, _, later⟩ := rest range member
        later.contains
      -- The location runs from the first payload through the last one, which is further on.
      have whole : buffer.contains (first.through (more.getLastD first)) = true := by
        rcases List.eq_nil_or_concat more with rfl | ⟨before, last, rfl⟩
        · exact read.contains
        · obtain ⟨next, later, marked, second⟩ := rest last (by simp)
          rw [List.concat_eq_append, List.getLastD_concat]
          have := read.through second later marked
          exact (buffer.contains_iff _).2 ⟨this, second.stop_le⟩
      simp only [Group.read]
      rw [Location.ofRange_eq_ok whole]
      refine Reads.map (reads_payload (by simp) ?_ _ _ ?_) fun types _ => ⟨first, read, by simp⟩
      · rw [List.forall_mem_cons]
        exact ⟨read.contains, more_fits⟩
      · exact fun payload error => readRange_all_ne_location _ payload _ error
  | dangling payload =>
      simp only [Group.read]
      rw [Location.ofRange_eq_ok (ReadFrom.contains placed)]
      refine ⟨_, rfl, by rintro _ ⟨⟩, ?_⟩
      rintro _ ⟨⟩ error
      simp [Diagnostic.unused, Diagnostic.about]
  | directive payload => exact reads_directive scope placed
  | doc text range =>
      refine ⟨_, rfl, ?_, by rintro _ ⟨⟩⟩
      rintro _ ⟨⟩
      exact ⟨range, placed, by simp⟩

/-! ## Blocks -/

/-- The documentation in groups that follow one after the other is found. -/
theorem readDoc_eq_ok {low : Nat} {groups : List Group}
    (arranged : Arranged buffer.content low groups) : ∃ doc, readDoc buffer groups = .ok doc := by
  have joinable := arranged.joinable (fun group => group.doc?.map (·.2))
    fun mark group range placed picked => by
      cases group with
      | doc text other =>
          obtain rfl := Option.some.inj picked
          exact placed
      | _ => simp [Group.doc?] at picked
  have ranges_eq : groups.filterMap (fun group => group.doc?.map (·.2)) =
      (groups.filterMap Group.doc?).map (·.2) := List.map_filterMap.symm
  rw [ranges_eq] at joinable
  unfold readDoc
  simp only
  split
  · rename_i first last head tail
    rw [Location.ofRange_eq_ok (joinable.contains (by rw [List.head?_map, head]; rfl)
      (by rw [List.getLast?_map, tail]; rfl))]
    exact ⟨_, rfl⟩
  · exact ⟨none, rfl⟩

/-- The generics annotated in a block can be put into one range, and its diagnostics are
genuine. -/
structure LeadingBlock.Sound (content : List Char) (block : LeadingBlock) : Prop where
  generics : Joinable content (genericRanges block)
  genuine : ∀ diagnostic ∈ block.diagnostics, diagnostic.Genuine

/-- What a group says may be added, if the annotations so far are from earlier marks. -/
theorem LeadingBlock.Sound.add {content : List Char} {block : LeadingBlock}
    (sound : block.Sound content) (marked : content[mark]? = some '#')
    (earlier : ∀ range ∈ genericRanges block, ∃ before < mark, ReadFrom content before range)
    {outcome : Except Diagnostic (List Annotation)}
    (value : ∀ annotations, outcome = .ok annotations → GenericsAt content mark annotations)
    (fault : ∀ diagnostic, outcome = .error diagnostic → diagnostic.Genuine) :
    (block.add outcome).Sound content ∧
      ∀ range ∈ genericRanges (block.add outcome), ∃ before < mark + 1,
        ReadFrom content before range := by
  cases outcome with
  | error diagnostic =>
      refine ⟨⟨sound.generics, ?_⟩, fun range member => ?_⟩
      · intro other member
        rcases List.mem_append.1 member with member | member
        · exact sound.genuine other member
        · exact List.mem_singleton.1 member ▸ fault diagnostic rfl
      · obtain ⟨before, less, read⟩ := earlier range member
        exact ⟨before, Nat.lt_succ_of_lt less, read⟩
  | ok annotations =>
      obtain ⟨common, read, same⟩ := value annotations rfl
      have ranges_eq : genericRanges (block.add (.ok annotations)) =
          genericRanges block ++ genericRanges { annotations := annotations } := by
        simp [genericRanges, LeadingBlock.add]
      -- All generics of one comment are located at the same range.
      have new : ∀ range ∈ genericRanges { annotations := annotations }, range = common := by
        intro range member
        obtain ⟨note, inside, picked⟩ := List.mem_filterMap.1 member
        cases note with
        | generic param location =>
            obtain rfl := Option.some.inj picked
            exact same param location inside
        | _ => simp at picked
      refine ⟨⟨⟨?_, ?_⟩, sound.genuine⟩, ?_⟩
      · rw [ranges_eq, List.forall_mem_append]
        exact ⟨sound.generics.fits, fun range member =>
          new range member ▸ ⟨read.start_le, read.stop_le⟩⟩
      · rw [ranges_eq, List.pairwise_append]
        refine ⟨sound.generics.through, ?_, ?_⟩
        · refine List.pairwise_of_forall_mem_list fun first inFirst last inLast => ?_
          rw [new first inFirst, new last inLast]
          exact read.start_le
        · intro first old last fresh
          obtain ⟨before, less, earlier⟩ := earlier first old
          exact earlier.through (new last fresh ▸ read) less marked
      · rw [ranges_eq, List.forall_mem_append]
        refine ⟨fun range member => ?_, fun range member => ?_⟩
        · obtain ⟨before, less, read⟩ := earlier range member
          exact ⟨before, Nat.lt_succ_of_lt less, read⟩
        · exact ⟨mark, Nat.lt_succ_self mark, new range member ▸ read⟩

/-- Groups that follow one after the other are read into one block. -/
theorem foldlM_read_eq_ok (scope : List String) {low : Nat} {groups : List Group}
    (arranged : Arranged buffer.content low groups) (block : LeadingBlock)
    (sound : block.Sound buffer.content)
    (earlier : ∀ range ∈ genericRanges block, ∃ before < low,
      ReadFrom buffer.content before range) :
    ∃ result, groups.foldlM (fun block group => do
        return block.add (← group.read buffer scope)) block = Except.ok result ∧
      result.Sound buffer.content := by
  induction arranged generalizing block with
  | nil => exact ⟨block, rfl, sound⟩
  | @cons low mark group groups above marked placed rest ih =>
      obtain ⟨outcome, read, value, fault⟩ := reads_group scope placed
      obtain ⟨sound, earlier⟩ := sound.add marked (fun range member =>
        let ⟨before, less, read⟩ := earlier range member
        ⟨before, Nat.lt_of_lt_of_le less above, read⟩) value fault
      obtain ⟨result, folded, sound⟩ := ih _ sound earlier
      refine ⟨result, ?_, sound⟩
      rw [List.foldlM_cons, read]
      exact folded

/-- The comments on the rows above a definition are read. -/
theorem readLeading_eq_ok (scope : List String) {comments : List CommentLine}
    (placed : ∀ comment ∈ comments, Placed buffer comment)
    (rows : comments.Pairwise fun first second => first.row < second.row) :
    ∃ block, readLeading buffer scope comments = .ok block ∧ block.Sound buffer.content := by
  have arranged := arranged_groups placed rows fun _ _ => Nat.zero_le _
  obtain ⟨block, folded, sound⟩ := foldlM_read_eq_ok scope arranged
    {} ⟨⟨by simp [genericRanges], by simp [genericRanges]⟩, by simp⟩
    (by simp [genericRanges])
  obtain ⟨doc, found⟩ := readDoc_eq_ok arranged
  refine ⟨{ block with doc := doc }, ?_, ⟨sound.generics, sound.genuine⟩⟩
  rw [readLeading_eq, folded]
  simp only [found, bind, Except.bind]
  rfl

/-- The comment after a definition is read. -/
theorem readTrailing_eq_ok (scope : List String) {comment : CommentLine}
    (placed : Placed buffer comment) :
    ∃ trailing, readTrailing buffer scope comment = .ok trailing ∧
      (∀ note, trailing = .assertion note → buffer.contains note.location.range = true) ∧
      ∀ diagnostic, trailing = .invalid diagnostic → diagnostic.Genuine := by
  have payload := placed.readFrom_payload
  unfold readTrailing
  generalize classify buffer comment = line at payload
  cases line with
  | colon range =>
      obtain ⟨outcome, read, value, fault⟩ :=
        reads_typed scope (payload range rfl).contains
      simp only [read, bind, Except.bind]
      cases outcome with
      | ok note => exact ⟨_, rfl, by rintro _ ⟨⟩; exact value note rfl, by rintro _ ⟨⟩⟩
      | error diagnostic => exact ⟨_, rfl, by rintro _ ⟨⟩, by rintro _ ⟨⟩; exact fault _ rfl⟩
  | _ => exact ⟨.absent, rfl, by rintro _ ⟨⟩, by rintro _ ⟨⟩⟩

end Inline

end Signet
