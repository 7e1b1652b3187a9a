import ModelQuery.Proofs.Expression.Aborting
import ModelQuery.Proofs.Expression.Pairs

/-!
# How deep the recursion goes

The matcher of the grammar calls itself for the members of a group, and so does the function that
makes the tree. Both run on the stack, and what keeps them from filling it is the depth scan, which
takes no part in the matching. A text that the scan accepts may still be malformed in any way.

`Active` describes the calls that are under way at a time: an item that is tried inside of so many
groups. It is defined by a trap (`trapped`): an item is tried at a place if the matcher aborts once
there is a trap at that place. An item that aborts makes the whole text abort under a limit that is
larger by the number of groups around it (`Active.aborts`). Since the matcher with the limit of the
depth scan does not abort on a text that the scan accepts (`item_not_aborts`), no more groups can
be open at once, and a guard on the number of calls is never met.
-/

namespace ModelQuery.Grammar

open Matcher Expression

/-! ## Calls under way -/

/-- The matcher with a trap: where it is begun at the place, with the record, it aborts. -/
def trapped (place : Cursor) (record : Frontier) (part : Matcher Node) : Matcher Node :=
  fun cursor frontier ↦
    if cursor = place ∧ frontier = record then (.tooDeep cursor.offset, frontier)
    else part cursor frontier

/-- A group that is tried at the place reads its opening parenthesis: if none may be opened, it
aborts. -/
def Opens (cursor : Cursor) (frontier : Frontier) : Prop :=
  (group none cursor frontier).1.Aborts

/-- While a group is tried at the outer place, an item is tried as a member of it at the inner
place. -/
def Tries (outer : Cursor) (frontier : Frontier) (inner : Cursor) (record : Frontier) : Prop :=
  (group (some (trapped inner record unlimited)) outer frontier).1.Aborts

/-- While the text is matched, an item is tried at the place, with the record, and the calls for
`opened` groups around it are under way. A group is tried for every item, so `opened + 1` groups are
then tried inside one another. -/
inductive Active (text : List Char) : (opened : Nat) → Cursor → Frontier → Prop where
  | start : Active text 0 ⟨0, text⟩ .start
  | member (opened : Nat) (outer : Cursor) (frontier : Frontier) (inner : Cursor)
      (record : Frontier) :
      Active text opened outer frontier → Tries outer frontier inner record →
      Active text (opened + 1) inner record

/-- A group of which a member is tried has read its opening parenthesis. -/
theorem Tries.opens {outer inner : Cursor} {frontier record : Frontier}
    (h : Tries outer frontier inner record) : Opens outer frontier :=
  (restricts_group_none _).aborts h

/-- Where an item aborts as a member, the item around it aborts with one level more. -/
theorem Tries.aborts {outer inner : Cursor} {frontier record : Frontier}
    (h : Tries outer frontier inner record) {levels : Nat}
    (habort : (item levels inner record).1.Aborts) :
    (item (levels + 1) outer frontier).1.Aborts := by
  -- at the trap the item aborts too, and elsewhere it is under no trap
  have htrap : Restricts (item levels) (trapped inner record unlimited) := by
    intro cursor updated
    unfold trapped
    by_cases hplace : cursor = inner ∧ updated = record
    · obtain ⟨rfl, rfl⟩ := hplace
      exact Or.inl habort
    · rw [if_neg hplace]
      exact restricts_unlimited levels cursor updated
  have hgroup : (group (some (item levels)) outer frontier).1.Aborts :=
    (restricts_group htrap).aborts h
  exact aborts_otherwise hgroup condition

variable {text : List Char} {opened : Nat} {cursor : Cursor} {frontier : Frontier}

/-- Where an item aborts inside of groups, the item that the text begins with aborts with as many
levels more. -/
theorem Active.aborts (h : Active text opened cursor frontier) {levels : Nat}
    (habort : (item levels cursor frontier).1.Aborts) :
    (item (levels + opened) ⟨0, text⟩ .start).1.Aborts := by
  induction h generalizing levels with
  | start => exact habort
  | member opened outer frontier inner record _ htries ih =>
      have hmore := ih (htries.aborts habort)
      rw [Nat.add_right_comm] at hmore
      exact hmore

/-- Where the item that the text begins with does not abort, each of the groups that have read their
opening parentheses, one inside the other, is covered by its levels. -/
theorem Active.opened_lt (h : Active text opened cursor frontier) (hopens : Opens cursor frontier)
    {levels : Nat} (hfinish : ¬ (item levels ⟨0, text⟩ .start).1.Aborts) : opened < levels := by
  apply Nat.lt_of_not_le
  intro hle
  have habort : (item (0 + opened) ⟨0, text⟩ .start).1.Aborts :=
    h.aborts (aborts_otherwise hopens condition)
  rw [Nat.zero_add] at habort
  exact hfinish ((restricts_item_of_le hle).aborts habort)

/-- The groups around an item have read their opening parentheses. -/
theorem Active.opened_le (h : Active text opened cursor frontier) {levels : Nat}
    (hfinish : ¬ (item levels ⟨0, text⟩ .start).1.Aborts) : opened ≤ levels := by
  cases h with
  | start => exact Nat.zero_le _
  | member opened outer frontier inner record houter htries =>
      exact houter.opened_lt htries.opens hfinish

/-! ## Guards -/

/-- An item, where at most `calls` groups may be tried inside one another. The guard stands before
anything of a group is read. -/
def guarded : (calls : Nat) → Matcher Node
  | 0 => fun cursor frontier ↦ (.tooDeep cursor.offset, frontier)
  | calls + 1 => otherwise (group (some (guarded calls))) condition

/-- A whole text that is an item. -/
def whole (part : Matcher Node) : Matcher Node :=
  named .whole do
    let root ← part
    let _ ← token .endOfText Token.endOfText
    pure root

/-- A guard that leaves one call more than groups may be opened is met only where the limit on the
groups is. -/
theorem restricts_guarded (levels : Nat) : Restricts (item levels) (guarded (levels + 1)) := by
  induction levels with
  | zero => exact (restricts_group_none _).otherwise (.refl _)
  | succ levels ih => exact restricts_item ih

/-- A whole text aborts where the item does. -/
theorem restricts_whole {part part' : Matcher Node} (h : Restricts part part') :
    Restricts (whole part) (whole part') :=
  .named _ (.bind h fun _ ↦ .refl _)

/-! ## Texts that the scan accepts -/

section Accepted

variable (hscan : Depth.excess? text = none)
include hscan

/-- An accepted text is matched or refused. -/
theorem whole_not_aborts : ¬ (whole (item groupLimit) ⟨0, text⟩ .start).1.Aborts := by
  have houtcome := matchText_outcome groupLimit text
  intro habort
  change (matchText groupLimit text).1.Aborts at habort
  generalize matchText groupLimit text = result at houtcome habort
  cases houtcome with
  | matched => exact habort
  | refused => exact habort
  | tooDeep offset frontier hexcess =>
      unfold Depth.excess? at hscan
      rw [hexcess] at hscan
      cases hscan

/-- The item that an accepted text begins with does not abort. -/
theorem item_not_aborts : ¬ (item groupLimit ⟨0, text⟩ .start).1.Aborts := by
  intro habort
  exact whole_not_aborts hscan (aborts_named (aborts_andThen habort _) .whole)

/-- What is done under the limit of the scan is done under any weaker one. -/
theorem whole_eq_of_restricts {part : Matcher Node} (h : Restricts (item groupLimit) part) :
    whole part ⟨0, text⟩ .start = whole (item groupLimit) ⟨0, text⟩ .start := by
  rcases restricts_whole h ⟨0, text⟩ .start with habort | heq
  · exact absurd habort (whole_not_aborts hscan)
  · exact heq.symm

end Accepted

/-- What holds of a text that the depth scan accepts. -/
structure BoundedRecursion (text : List Char) : Prop where
  /-- No more groups than the limit have read their parentheses, one inside the other. -/
  opened_le : ∀ opened cursor frontier, Active text opened cursor frontier →
    Opens cursor frontier → opened + 1 ≤ groupLimit
  /-- At most one group more is tried inside of them. -/
  tried_le : ∀ opened cursor frontier, Active text opened cursor frontier →
    opened + 1 ≤ groupLimit + 1
  /-- The matcher with the limit does what the one without does. -/
  matchText_eq : matchText groupLimit text = whole unlimited ⟨0, text⟩ .start
  /-- A guard that lets so many groups be tried inside one another is never met, and the result is
  the same. -/
  guarded_eq : ∀ calls, groupLimit < calls →
    ¬ (whole (guarded calls) ⟨0, text⟩ .start).1.Aborts ∧
      whole (guarded calls) ⟨0, text⟩ .start = whole unlimited ⟨0, text⟩ .start
  /-- The tree is made of what was matched with no more calls inside one another. -/
  toRoot_eq : ∀ given levels pairs next frontier, groupLimit ≤ levels →
    Pairs.matchText levels text = (.matched pairs next, frontier) →
    ∃ root, whole unlimited ⟨0, text⟩ .start = (.matched root next, frontier) ∧
      ∀ calls, groupLimit < calls → Pairs.toRoot given calls pairs = pure root

/-- The depth scan bounds the recursion of the matcher and of the function that makes the tree,
whatever the text is. -/
theorem boundedRecursion (text : List Char) (hscan : Depth.excess? text = none) :
    BoundedRecursion text where
  opened_le opened cursor frontier h hopens := h.opened_lt hopens (item_not_aborts hscan)
  tried_le opened cursor frontier h := Nat.succ_le_succ (h.opened_le (item_not_aborts hscan))
  matchText_eq := (whole_eq_of_restricts hscan (restricts_unlimited groupLimit)).symm
  guarded_eq := by
    intro calls hcalls
    have hlimit : Restricts (item groupLimit) (guarded calls) := by
      cases calls with
      | zero => exact absurd hcalls (Nat.not_lt_zero _)
      | succ levels =>
          exact (restricts_item_of_le (Nat.le_of_lt_succ hcalls)).trans (restricts_guarded levels)
    have hguarded := whole_eq_of_restricts hscan hlimit
    have hfree := whole_eq_of_restricts hscan (restricts_unlimited groupLimit)
    rw [hguarded, hfree]
    exact ⟨whole_not_aborts hscan, rfl⟩
  toRoot_eq := by
    intro given levels pairs next frontier hlevels hmatched
    have hsame := Pairs.same_matchText levels text
    rw [hmatched, show matchText levels text = matchText groupLimit text from
      whole_eq_of_restricts hscan (restricts_item_of_le hlevels)] at hsame
    have houtcome := matchText_outcome groupLimit text
    rw [whole_eq_of_restricts hscan (restricts_unlimited groupLimit)]
    change ∃ root, matchText groupLimit text = (.matched root next, frontier) ∧ _
    generalize matchText groupLimit text = result at hsame houtcome ⊢
    cases hsame with
    | matched _ root _ _ hroot =>
        cases houtcome with
        | matched _ _ _ _ _ hdepth _ =>
            refine ⟨root, rfl, ?_⟩
            intro calls hcalls
            exact Pairs.toRoot_eq hroot given (Nat.lt_of_le_of_lt hdepth hcalls)

/-- Neither a quote that is never closed nor a parenthesis that is missing lets the recursion go
deeper. -/
theorem boundedRecursion_unclosed :
    Depth.excess? "and(or(a = '((((".toList = none ∧
      BoundedRecursion "and(or(a = '((((".toList :=
  have hscan : Depth.excess? "and(or(a = '((((".toList = none := by decide
  ⟨hscan, boundedRecursion _ hscan⟩

end ModelQuery.Grammar
