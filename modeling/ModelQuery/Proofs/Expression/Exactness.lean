import ModelQuery.Proofs.Expression.Reading
import ModelQuery.Proofs.Expression.Verdict

/-!
# The language of expressions

`Expression.parse` accepts exactly the texts that are layouts of some tree with no more than
`groupLimit` groups inside one another, and returns that tree. That it returns nothing else is read
off the outcomes of the matcher; that it loses no layout follows from `Grammar.item_read`, once the
depth scan is known to pass over layouts. No text is a layout of two trees, because the matcher has
only one result.
-/

namespace ModelQuery.Expression

open Matcher

variable {root : Node} {pieces : List Piece}

/-- A layout of a tree that nests no deeper than the limit is matched as that tree. -/
theorem Layout.matchText (h : Layout 0 root pieces) {limit : Nat} (hdepth : root.depth ≤ limit) :
    ∃ next frontier, matchText limit (written pieces) = (.matched root next, frontier) := by
  have hnothing : Text.beginsWith Token.isWordCharacter [] = false := rfl
  have hend : Token.endOfText [] = some ([], []) := rfl
  obtain ⟨updated, hread⟩ := Grammar.item_read h hdepth hnothing .start
  rw [List.append_nil] at hread
  unfold Expression.matchText Grammar.expression
  simp only [named, bind_apply, andThen, hread, token_matched hend, pure_apply]
  exact ⟨_, _, rfl⟩

/-- What is written is a layout of one tree only. -/
theorem Layout.unique {left right : Node} {first second : List Piece} (hleft : Layout 0 left first)
    (hright : Layout 0 right second) (h : written first = written second) : left = right := by
  -- the same matcher reads both, if it may open as many groups as the deeper one needs
  obtain ⟨_, _, hfirst⟩ := hleft.matchText (Nat.le_max_left left.depth right.depth)
  obtain ⟨_, _, hsecond⟩ := hright.matchText (Nat.le_max_right left.depth right.depth)
  rw [h, hsecond] at hfirst
  injection hfirst with houtcome _
  injection houtcome with hroot _
  exact hroot.symm

/-- The depth scan finds nothing in a layout of a tree that nests no deeper than it may. -/
theorem Layout.excess? (h : Layout 0 root pieces) (hdepth : root.depth ≤ groupLimit) :
    Depth.excess? (written pieces) = none := by
  have hlevel : 0 + root.depth ≤ groupLimit := by omega
  have hscan := h.excessFrom? hlevel 0 []
  rw [List.append_nil] at hscan
  exact hscan

/-- A layout of a tree that nests no deeper than it may is read as that tree. -/
theorem Layout.parse (h : Layout 0 root pieces) (hdepth : root.depth ≤ groupLimit)
    {given : String} (hgiven : written pieces = (normalize given).toList) :
    parse given = .ok ⟨normalize given, root⟩ := by
  obtain ⟨next, frontier, hmatch⟩ := h.matchText hdepth
  have hscan := h.excess? hdepth
  unfold Expression.parse
  simp only [← hgiven, hscan, hmatch]

/-- A text in which the depth scan finds something is refused there. -/
theorem parse_of_excess? {given : String} {offset : Nat}
    (h : Depth.excess? (normalize given).toList = some offset) :
    parse given = .error (tooDeepAt given offset) := by
  unfold parse
  simp only [h]

/-- What is read is a layout of the tree that is returned. -/
theorem layout_of_parse {given : String} {tree : Expression} (h : parse given = .ok tree) :
    tree.text = normalize given ∧ tree.root.depth ≤ groupLimit ∧
      ∃ pieces, Layout 0 tree.root pieces ∧ written pieces = (normalize given).toList := by
  have houtcome := Grammar.matchText_outcome groupLimit (normalize given).toList
  unfold parse at h
  simp only at h
  split at h
  next => exact absurd h (by simp)
  next =>
    generalize matchText groupLimit (normalize given).toList = outcome at h houtcome
    cases houtcome with
    | matched root pieces next frontier hlayout hdepth htext =>
        injection h with h
        subst h
        exact ⟨rfl, hdepth, pieces, hlayout, htext.symm⟩
    | refused => exact absurd h (by simp)
    | tooDeep => exact absurd h (by simp)

/-- Reading succeeds exactly with the tree that the normalized text is a layout of, provided that
no more groups are nested than may be; and a text is a layout of one tree at most. -/
theorem parse_exact :
    (∀ (given : String) (tree : Expression), parse given = .ok tree ↔
      tree.text = normalize given ∧ IsLayout (normalize given) tree.root ∧
        tree.root.depth ≤ groupLimit) ∧
    (∀ (text : String) (left right : Node),
      IsLayout text left → IsLayout text right → left = right) := by
  constructor
  · intro given tree
    constructor
    · intro h
      obtain ⟨htext, hdepth, hlayout⟩ := layout_of_parse h
      exact ⟨htext, hlayout, hdepth⟩
    · rintro ⟨htext, ⟨pieces, hlayout, hwritten⟩, hdepth⟩
      rw [hlayout.parse hdepth hwritten, ← htext]
  · rintro text left right ⟨first, hleft, hfirst⟩ ⟨second, hright, hsecond⟩
    exact hleft.unique hright (hfirst.trans hsecond.symm)

/-- A group with a member that begins with the letters of a keyword, and one that could be read with
a shorter symbol if values were any text. -/
def mixedGroup : Node :=
  .group "Or"
    [.condition "not-x" "<=" ⟨.single, "'a b'"⟩ 9, .condition "y" "=~" ⟨.bare, "z"⟩ 19] 0

/-- One way of writing `mixedGroup`. -/
theorem isLayout_mixedGroup : IsLayout "Or(not-x <= 'a b',y=~z)" mixedGroup := by
  have hfirst : Layout 3 (.condition "not-x" "<=" ⟨.single, "'a b'"⟩ 9)
      (comparison ['n', 'o', 't', '-', 'x'] [' '] ['<', '='] [' '] .single
        ['\'', 'a', ' ', 'b', '\'']) :=
    .condition 3 ['n', 'o', 't', '-', 'x'] [' '] ['<', '='] [' '] .single _ (by decide) (by decide)
      (by decide) (by decide) ⟨['a', ' ', 'b'], by decide, rfl⟩
  have hsecond : Layout 18 (.condition "y" "=~" ⟨.bare, "z"⟩ 19)
      (comparison ['y'] [] ['=', '~'] [] .bare ['z']) :=
    .condition 18 ['y'] [] ['=', '~'] [] .bare ['z'] (by decide) (by decide) (by decide) (by decide)
      (show IsWord ['z'] by decide)
  have hitems := Layouts.more 3 _ _ [] [] _ _ hfirst (by decide) (by decide) (.last 18 _ _ hsecond)
  have hgroup := Layout.group 0 ['O', 'r'] [] [] _ _ [] (by decide) (by decide) (by decide) hitems
    (by decide)
  exact ⟨_, hgroup, by decide⟩

/-- Line breaks in the text make no difference, and no other tree is read from it. -/
theorem parse_exact_mixedGroup :
    parse " Or(not-x <=\r 'a b',y=\n~z)\n" = .ok ⟨"Or(not-x <= 'a b',y=~z)", mixedGroup⟩ ∧
      ¬ IsLayout "Or(not-x <= 'a b',y=~z)"
        (.group "Or" [.condition "not-x" "<=" ⟨.single, "'a b'"⟩ 9] 0) := by
  have hnormalize : normalize " Or(not-x <=\r 'a b',y=\n~z)\n" = "Or(not-x <= 'a b',y=~z)" := by
    decide
  constructor
  · refine (parse_exact.1 _ _).mpr ⟨hnormalize.symm, ?_, by decide⟩
    rw [hnormalize]
    exact isLayout_mixedGroup
  · intro hother
    have heq := parse_exact.2 _ _ _ hother isLayout_mixedGroup
    injection heq with _ hitems _
    exact absurd (congrArg List.length hitems) (by decide)

end ModelQuery.Expression
