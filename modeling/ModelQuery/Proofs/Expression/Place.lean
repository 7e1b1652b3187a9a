import ModelQuery.Proofs.Expression.Layout

/-!
# Places for items

A reader that stands where an item may begin has some groups open around it, and before it stand
what opened them and the items that were read in them. `Place limit level before` says so of the
pieces before the reader. Nothing is known of the text that follows, so a place is as well one in
a text that goes wrong later. `Place.complete` says that every place belongs to some text that does
not.
-/

namespace ModelQuery.Expression

/-- `Place limit level before` says that an item may begin behind the pieces, inside `level` groups,
where no more than `limit` groups were open at once. -/
inductive Place (limit : Nat) : Nat → List Piece → Prop where
  | start : Place limit 0 []
  | inside (level : Nat) (before : List Piece) (keyword gap inner : List Char) :
      Place limit level before → level < limit →
      IsKeyword keyword → IsGap gap → IsGap inner →
      Place limit (level + 1) (before ++ opening keyword gap inner)
  | further (level : Nat) (before : List Piece) (node : Node) (pieces : List Piece)
      (gap after : List Char) :
      Place limit (level + 1) before → Layout (extent before) node pieces →
      level + 1 + node.depth ≤ limit → IsGap gap → IsGap after →
      Place limit (level + 1) (before ++ pieces ++ separator gap after)

variable {limit level : Nat} {before pieces : List Piece} {nodes : List Node}

/-- Several nodes are at least one. -/
theorem Layouts.ne_nil {offset : Nat} (h : Layouts offset nodes pieces) : nodes ≠ [] := by
  cases h with
  | last => exact List.cons_ne_nil _ _
  | more => exact List.cons_ne_nil _ _

/-- Items that are written at a place are a part of some expression; outside of groups there may be
only one. -/
theorem Place.complete (h : Place limit level before)
    (hnodes : Layouts (extent before) nodes pieces) (hsingle : level = 0 → nodes.length = 1) :
    ∃ root rest, Layout 0 root (before ++ pieces ++ rest) := by
  -- on the way out, each group is closed behind what was written inside of it
  induction h generalizing nodes pieces with
  | start =>
      cases hnodes with
      | last _ node _ hnode => exact ⟨node, [], by simpa using hnode⟩
      | more _ _ _ _ _ nodes _ _ _ _ hrest =>
          have hlength := hsingle rfl
          simp only [List.length_cons, Nat.add_eq_right, List.length_eq_zero_iff] at hlength
          exact absurd hlength hrest.ne_nil
  | inside level before keyword gap inner _ _ hkeyword hgap hinner ih =>
      rw [extent_append] at hnodes
      have hgroup := Layout.group (extent before) keyword gap inner nodes pieces [] hkeyword hgap
        hinner hnodes (List.forall_mem_nil _)
      obtain ⟨root, rest, hroot⟩ := ih (.last _ _ _ hgroup) (fun _ ↦ rfl)
      exact ⟨root, closing [] ++ rest, by simpa [List.append_assoc] using hroot⟩
  | further level before node first gap after _ hnode _ hgap hafter ih =>
      rw [List.append_assoc, extent_append] at hnodes
      have hmore := Layouts.more (extent before) node first gap after nodes pieces hnode hgap hafter
        hnodes
      obtain ⟨root, rest, hroot⟩ := ih hmore (fun hzero ↦ absurd hzero (Nat.succ_ne_zero _))
      exact ⟨root, rest, by simpa [List.append_assoc] using hroot⟩

/-- Inside of a group, the items that are written at a place can be the last ones. -/
theorem Place.close {after : List Char} (h : Place limit level before) (hlevel : level ≠ 0)
    (hnodes : Layouts (extent before) nodes pieces) (hafter : IsGap after) :
    ∃ root rest, Layout 0 root (before ++ pieces ++ closing after ++ rest) := by
  induction h generalizing nodes pieces with
  | start => exact absurd rfl hlevel
  | inside level before keyword gap inner hplace _ hkeyword hgap hinner =>
      rw [extent_append] at hnodes
      have hgroup := Layout.group (extent before) keyword gap inner nodes pieces after hkeyword hgap
        hinner hnodes hafter
      obtain ⟨root, rest, hroot⟩ := hplace.complete (.last _ _ _ hgroup) (fun _ ↦ rfl)
      exact ⟨root, rest, by simpa [List.append_assoc] using hroot⟩
  | further level before node first gap between _ hnode _ hgap hbetween ih =>
      rw [List.append_assoc, extent_append] at hnodes
      have hmore := Layouts.more (extent before) node first gap between nodes pieces hnode hgap
        hbetween hnodes
      obtain ⟨root, rest, hroot⟩ := ih (Nat.succ_ne_zero _) hmore
      exact ⟨root, rest, by simpa [List.append_assoc] using hroot⟩

end ModelQuery.Expression
