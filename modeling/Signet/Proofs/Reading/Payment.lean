import Signet.Proofs.Grammar.Phrases
import Signet.Proofs.Reading.Parentheses

/-!
# Parentheses on the way

A reading pays for what it reads with the parentheses that it moves over (`Cursor.Pays`). Payments
add up along a chain of trees, so what is paid for the parts of a type is paid for the type.
-/

namespace Signet

open Text Grammar

namespace Grammar

namespace Cursor

variable {cursor next last : Cursor} {m n : Nat} {text : List Char}

/-- On the way from one position to another there are so many opening parentheses. -/
def Pays (cursor : Cursor) (count : Nat) (next : Cursor) : Prop :=
  count + opens next.rest ≤ opens cursor.rest

theorem Pays.trans (first : cursor.Pays m next) (second : next.Pays n last) :
    cursor.Pays (m + n) last := by
  unfold Pays at *
  omega

theorem Pays.mono (pays : cursor.Pays m next) (le : n ≤ m) : cursor.Pays n next := by
  unfold Pays at *
  omega

/-- Nothing is lost on the way to where something is paid. -/
theorem Pays.after (first : cursor.Pays m next) (second : next.Pays n last) :
    cursor.Pays n last := by
  unfold Pays at *
  omega

theorem Pays.through (first : cursor.Pays n next) (second : next.Pays m last) :
    cursor.Pays n last := by
  unfold Pays at *
  omega

theorem Passes.pays (passes : cursor.Passes text next) : cursor.Pays 0 next := by
  have := opens_append_le text next.rest
  rw [Pays, passes.rest_eq]
  omega

theorem pays_skip (cursor : Cursor) : cursor.Pays 0 cursor.skip :=
  let ⟨_, passes⟩ := cursor.passes_skip
  passes.pays

/-- An opening parenthesis counts if something other than a closing one comes after it. -/
theorem Passes.pays_open (passes : cursor.Passes ['('] next)
    (more : ∃ c rest, next.skip.rest = c :: rest ∧ c ≠ ')') : cursor.Pays 1 next.skip := by
  obtain ⟨c, rest, starts, other⟩ := more
  have counted : next.rest.head?.any (· ≠ ')') = true := by
    cases found : next.rest with
    | nil =>
        have := next.length_skip_le
        rw [found, starts] at this
        exact absurd this (by simp)
    | cons d text =>
        have : d ≠ ')' := by
          rintro rfl
          have solid : Solid next.rest := by
            rw [found]
            intro d member
            obtain rfl := Option.some.inj member
            decide
          have same := next.skip_rest.trans (afterBlanks_of_solid solid)
          rw [starts, found] at same
          exact other (List.cons.inj same).1
        simpa using this
  have later := next.pays_skip
  have whole : opens cursor.rest = 1 + opens next.rest := by
    rw [passes.rest_eq, List.singleton_append, opens, if_pos ⟨rfl, counted⟩]
  unfold Pays at *
  omega

end Cursor

theorem Rule.pays {rule : Rule} {cursor next : Cursor} {trees : List ParseTree}
    (read : rule.read cursor = some (trees, next)) : cursor.Pays 0 next :=
  let ⟨_, passes, _⟩ := Rule.moves read
  passes.pays

theorem Chain.pays_nothing {cursor last : Cursor} {trees : List ParseTree}
    (chain : Chain cursor trees last) : cursor.Pays 0 last := by
  induction chain with
  | nil passes => exact passes.pays
  | cons passes read _ ih => exact passes.pays.after ((Rule.pays read).after ih)

theorem Chain.exists_between {cursor last : Cursor} {trees : List ParseTree}
    (chain : Chain cursor trees last) : ∀ tree ∈ trees, ∃ start next, cursor.Pays 0 start ∧
      tree.rule.read start = some ([tree], next) ∧ next.Pays 0 last := by
  induction chain with
  | nil _ => exact nofun
  | cons passes read chain ih =>
      refine List.forall_mem_cons.2 ⟨⟨_, _, passes.pays, read, chain.pays_nothing⟩, ?_⟩
      intro tree member
      obtain ⟨start, next, before, found, after⟩ := ih tree member
      exact ⟨start, next, passes.pays.after ((Rule.pays read).after before), found, after⟩

/-- What holds of the value of each tree of a chain holds of all of them, and what is paid for each
is paid for all. -/
theorem Chain.pays {α : Type} {means : ParseTree → α → Prop} {cursor last : Cursor}
    {trees : List ParseTree} {values : List α} (good : α → Prop) (weight : α → Nat)
    (chain : Chain cursor trees last) (all : List.Forall₂ means trees values)
    (each : ∀ tree ∈ trees, ∀ value start next, means tree value →
      tree.rule.read start = some ([tree], next) → good value ∧ start.Pays (weight value) next) :
    (∀ value ∈ values, good value) ∧ cursor.Pays (values.map weight).sum last := by
  induction chain generalizing values with
  | nil passes =>
      cases all
      exact ⟨nofun, passes.pays⟩
  | @cons cursor start next last text tree trees passes read _ ih =>
      cases all with
      | @cons _ value _ values means all =>
          obtain ⟨here, later⟩ := List.forall_mem_cons.1 each
          obtain ⟨good, paid⟩ := here value start next means read
          obtain ⟨others, rest⟩ := ih all later
          refine ⟨List.forall_mem_cons.2 ⟨good, others⟩, ?_⟩
          exact (passes.pays.after paid).trans rest

end Grammar

end Signet
