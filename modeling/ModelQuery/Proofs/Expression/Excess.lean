import ModelQuery.Proofs.Expression.Preorder
import ModelQuery.Proofs.Filter.Spelling

/-!
# The first group that is one too many

A text that is an expression but for its depth is refused at the parenthesis of the first group that
has too many groups around it (`refusal_of_isLayout`). The depth scan knows nothing of groups, so
this group is looked for in the tree: it begins at a place where as many groups are open as may be
(`Layout.opensFirst`), and there the scan stops at the next parenthesis. A text with line breaks in
its gaps and its values is an expression without them as well, and as many groups are nested then
(`Layout.withoutLineBreaks`).
-/

namespace ModelQuery.Expression

/-! ## Groups and their levels -/

/-- `GroupAt root level group` says that the group stands in the tree, and that with it as many
groups are open as the level says. -/
inductive GroupAt : Node → Nat → Node → Prop where
  | itself (keyword : String) (items : List Node) (offset : Nat) :
      GroupAt (.group keyword items offset) 1 (.group keyword items offset)
  | inside (keyword : String) (items : List Node) (offset : Nat) (item : Node) (level : Nat)
      (group : Node) :
      item ∈ items → GroupAt item level group →
      GroupAt (.group keyword items offset) (level + 1) group

/-- The group is the first one in the text that is nested at the level. -/
structure IsFirstAt (root : Node) (level : Nat) (group : Node) : Prop where
  groupAt : GroupAt root level group
  first : ∀ other, GroupAt root level other → group.offset ≤ other.offset

/-- An item nests no deeper than the deepest one. -/
theorem depth_le_depthAll {item : Node} {items : List Node} (h : item ∈ items) :
    item.depth ≤ Node.depthAll items := by
  induction items with
  | nil => cases h
  | cons first items ih =>
      rw [Node.depthAll]
      rcases List.mem_cons.mp h with rfl | h
      · exact Nat.le_max_left _ _
      · exact Nat.le_trans (ih h) (Nat.le_max_right _ _)

/-- Nodes inside an item are nodes inside of all items. -/
theorem mem_preorderAll {item within : Node} {items : List Node} (h : item ∈ items)
    (hwithin : within ∈ item.preorder) : within ∈ Node.preorderAll items := by
  induction items with
  | nil => cases h
  | cons first items ih =>
      rw [Node.preorderAll, List.mem_append]
      rcases List.mem_cons.mp h with rfl | h
      · exact Or.inl hwithin
      · exact Or.inr (ih h)

/-- A group is at one level at least. -/
theorem GroupAt.level_pos {root group : Node} {level : Nat} (h : GroupAt root level group) :
    0 < level := by
  cases h with
  | itself => exact Nat.one_pos
  | inside => exact Nat.succ_pos _

/-- No group is nested deeper than the tree is. -/
theorem GroupAt.level_le {root group : Node} {level : Nat} (h : GroupAt root level group) :
    level ≤ root.depth := by
  induction h with
  | itself keyword items offset =>
      rw [Node.depth]
      exact Nat.succ_pos _
  | inside keyword items offset item level group hitem _ ih =>
      rw [Node.depth]
      exact Nat.succ_le_succ (Nat.le_trans ih (depth_le_depthAll hitem))

/-- A group of a tree is one of its nodes. -/
theorem GroupAt.mem_preorder {root group : Node} {level : Nat} (h : GroupAt root level group) :
    group ∈ root.preorder := by
  induction h with
  | itself keyword items offset => exact List.mem_cons_self
  | inside keyword items offset item level group hitem _ ih =>
      exact List.mem_cons_of_mem _ (mem_preorderAll hitem ih)

/-- Below the first level, the groups of a group are those of its items. -/
theorem groupAt_succ_iff {keyword : String} {items : List Node} {offset level : Nat} {group : Node}
    (hpos : 0 < level) :
    GroupAt (.group keyword items offset) (level + 1) group ↔
      ∃ item ∈ items, GroupAt item level group := by
  constructor
  · intro h
    cases h with
    | itself => exact absurd hpos (Nat.lt_irrefl 0)
    | inside _ _ _ item _ _ hitem hgroup => exact ⟨item, hitem, hgroup⟩
  · rintro ⟨item, hitem, hgroup⟩
    exact .inside keyword items offset item level group hitem hgroup

/-! ## The place where it opens -/

/-- Where as many groups are open as may be, the first of the groups of a kind begins behind some of
the pieces, with its keyword, a gap and its parenthesis. -/
def OpensFirst (limit : Nat) (kind : Node → Prop) (pieces : List Piece) : Prop :=
  ∃ (full : List Piece) (keyword gap inner : List Char) (items : List Node) (after : List Piece),
    Place limit limit full ∧ IsKeyword keyword ∧ IsGap gap ∧
    pieces = full ++ opening keyword gap inner ++ after ∧
    kind (.group (String.ofList keyword) items (extent full)) ∧
    ∀ other, kind other → extent full ≤ other.offset

/-- What follows the pieces makes no difference, nor does another kind that is the same. -/
theorem OpensFirst.append {limit : Nat} {kind same : Node → Prop} {pieces : List Piece}
    (h : OpensFirst limit kind pieces) (hkind : ∀ node, kind node ↔ same node)
    (rest : List Piece) : OpensFirst limit same (pieces ++ rest) := by
  obtain ⟨full, keyword, gap, inner, items, after, hplace, hkeyword, hgap, rfl, hgroup, hfirst⟩ := h
  refine ⟨full, keyword, gap, inner, items, after ++ rest, hplace, hkeyword, hgap, by simp,
    (hkind _).mp hgroup, ?_⟩
  intro other hother
  exact hfirst other ((hkind other).mpr hother)

mutual

/-- In a node that nests too deeply, the first group that is one too many opens where as many groups
are open as may be. -/
theorem Layout.opensFirst {limit level further : Nat} {before pieces : List Piece} {node : Node}
    (h : Layout (extent before) node pieces) (hplace : Place limit level before)
    (hlevel : level + further = limit + 1) (hdeep : further ≤ node.depth) (hpos : 0 < further) :
    OpensFirst limit (GroupAt node further) (before ++ pieces) := by
  cases h with
  | condition =>
      rw [Node.depth] at hdeep
      omega
  | group _ keyword gap inner items pieces after hkeyword hgap hinner hitems _ =>
      by_cases hone : further = 1
      · -- the group itself is the one
        obtain rfl := hone
        obtain rfl : level = limit := by omega
        refine ⟨before, keyword, gap, inner, items, pieces ++ closing after, hplace, hkeyword, hgap,
          by simp, .itself _ items _, ?_⟩
        intro other hother
        cases hother with
        | itself => exact Nat.le_refl _
        | inside _ _ _ item _ _ _ hwithin => exact absurd hwithin.level_pos (Nat.lt_irrefl 0)
      · obtain ⟨remaining, rfl⟩ : ∃ remaining, further = remaining + 1 :=
          ⟨further - 1, by omega⟩
        rw [Node.depth] at hdeep
        rw [← extent_append] at hitems
        have hinside := Place.inside level before keyword gap inner hplace (by omega) hkeyword hgap
          hinner
        have hopens := hitems.opensFirst hinside (by omega) (Nat.le_of_succ_le_succ hdeep)
          (by omega)
        have hkind : ∀ node, (∃ item ∈ items, GroupAt item remaining node) ↔
            GroupAt (.group (String.ofList keyword) items (extent before)) (remaining + 1) node :=
          fun node ↦ (groupAt_succ_iff (by omega)).symm
        simpa only [List.append_assoc] using hopens.append hkind (closing after)

/-- Of nodes in a group that nest too deeply, the first group that is one too many opens where as
many groups are open as may be. -/
theorem Layouts.opensFirst {limit level further : Nat} {before pieces : List Piece}
    {nodes : List Node} (h : Layouts (extent before) nodes pieces)
    (hplace : Place limit (level + 1) before) (hlevel : level + 1 + further = limit + 1)
    (hdeep : further ≤ Node.depthAll nodes) (hpos : 0 < further) :
    OpensFirst limit (fun group ↦ ∃ node ∈ nodes, GroupAt node further group)
      (before ++ pieces) := by
  cases h with
  | last _ node pieces hnode =>
      rw [Node.depthAll, Node.depthAll, Nat.max_zero] at hdeep
      have hopens := hnode.opensFirst hplace hlevel hdeep hpos
      simpa using hopens.append (fun group ↦ (by simp : GroupAt node further group ↔
        ∃ item ∈ [node], GroupAt item further group)) []
  | more _ node first gap after nodes pieces hnode hgap hafter hnodes =>
      rw [Node.depthAll] at hdeep
      by_cases hfirst : further ≤ node.depth
      · -- the groups of the later nodes are further on
        obtain ⟨full, keyword, inner, within, items, rest, hfull, hkeyword, hinner, hsplit, hgroup,
          hleast⟩ := hnode.opensFirst hplace hlevel hfirst hpos
        refine ⟨full, keyword, inner, within, items, rest ++ separator gap after ++ pieces, hfull,
          hkeyword, hinner, ?_, ⟨node, List.mem_cons_self, hgroup⟩, ?_⟩
        · rw [← List.append_assoc, ← List.append_assoc, hsplit]
          simp
        · rintro other ⟨item, hitem, hother⟩
          rcases List.mem_cons.mp hitem with rfl | hitem
          · exact hleast other hother
          · have hbehind := hnodes.offset_bounds_of_mem (mem_preorderAll hitem hother.mem_preorder)
            have hbefore := hnode.offset_bounds_of_mem hgroup.mem_preorder
            simp only [extent_append, Node.offset] at hbehind hbefore ⊢
            omega
      · have hnext := Place.further level before node first gap after hplace hnode (by omega) hgap
          hafter
        rw [← extent_append, ← List.append_assoc] at hnodes
        have hopens := hnodes.opensFirst hnext hlevel (by omega) hpos
        have hkind : ∀ group, (∃ item ∈ nodes, GroupAt item further group) ↔
            ∃ item ∈ node :: nodes, GroupAt item further group := by
          intro group
          simp only [List.mem_cons, exists_eq_or_imp]
          exact (or_iff_right fun hgroup ↦ hfirst hgroup.level_le).symm
        simpa using hopens.append hkind []

end

/-! ## Where the scan stops -/

/-- A text that is an expression, but for groups that nest too deeply, is refused by the scan at the
parenthesis of the first group that is one too many. -/
theorem Layout.excess_of_deep {root : Node} {pieces : List Piece} (h : Layout 0 root pieces)
    (hdeep : groupLimit < root.depth) :
    ∃ keyword items offset place,
      IsFirstAt root (groupLimit + 1) (.group keyword items offset) ∧
      Depth.excess? (written pieces) = some place ∧
      ∀ text : String, written pieces = text.toList → OpensAt text keyword offset place := by
  have hroot : Layout (extent []) root pieces := h
  have hopens := hroot.opensFirst .start (Nat.zero_add _) hdeep (Nat.succ_pos groupLimit)
  obtain ⟨full, keyword, gap, inner, items, after, hfull, hkeyword, hgap, rfl, hgroup, hfirst⟩ :=
    hopens
  refine ⟨_, items, extent full, _, ⟨hgroup, hfirst⟩, ?_,
    fun text htext ↦ opensAt_written hgap htext⟩
  have hscan := hfull.excess_of_full hkeyword hgap (inner ++ written after)
  simpa [opening, Depth.excess?] using hscan

/-! ## Line breaks -/

/-- A value that is written without quotes or between two of them is one without its line breaks,
too. -/
theorem isToken_withoutLineBreaks {quote : Quote} {raw : List Char}
    (h : quote.construct.IsToken raw) : quote.construct.IsToken (withoutLineBreaks raw) := by
  cases quote with
  | bare =>
      rw [withoutLineBreaks_word h]
      exact h
  | single | double =>
      obtain ⟨body, hbody, rfl⟩ := h
      refine ⟨withoutLineBreaks body, fun hquote ↦ hbody (List.mem_filter.mp hquote).1, ?_⟩
      simp [withoutLineBreaks, Text.isLineBreak]

mutual

/-- Without its line breaks, what is written for a node is written for a node that nests as many
groups. -/
theorem Layout.withoutLineBreaks {offset : Nat} {node : Node} {pieces : List Piece}
    (h : Layout offset node pieces) (start : Nat) :
    ∃ normal clean, Layout start normal clean ∧
      written clean = ModelQuery.withoutLineBreaks (written pieces) ∧
      normal.depth = node.depth := by
  cases h with
  | condition _ name before symbol after quote raw hname hbefore hsymbol hafter hraw =>
      refine ⟨_, _, .condition start name _ symbol _ quote _ hname
        (isGap_withoutLineBreaks hbefore) hsymbol (isGap_withoutLineBreaks hafter)
        (isToken_withoutLineBreaks hraw), ?_, rfl⟩
      obtain ⟨operator, -, rfl⟩ := hsymbol
      simp [comparison, withoutLineBreaks_word (isWord_of_isName hname), withoutLineBreaks_symbol]
  | group _ keyword before inner items pieces after hkeyword hbefore hinner hitems hafter =>
      obtain ⟨normals, clean, hclean, hwritten, hdepth⟩ := hitems.withoutLineBreaks
        (start + extent (opening keyword (ModelQuery.withoutLineBreaks before)
          (ModelQuery.withoutLineBreaks inner)))
      refine ⟨_, _, .group start keyword _ _ normals clean _ hkeyword
        (isGap_withoutLineBreaks hbefore) (isGap_withoutLineBreaks hinner) hclean
        (isGap_withoutLineBreaks hafter), ?_, ?_⟩
      · have hword := withoutLineBreaks_word (isWord_of_isName (isName_of_isKeyword hkeyword))
        have hopen := withoutLineBreaks_cons (c := '(') rfl
        have hclose : ModelQuery.withoutLineBreaks [')'] = [')'] := rfl
        simp [opening, closing, hword, hwritten, hopen, hclose]
      · rw [Node.depth, Node.depth, hdepth]

/-- Without its line breaks, what is written for several nodes is written for nodes that nest as
many groups. -/
theorem Layouts.withoutLineBreaks {offset : Nat} {nodes : List Node} {pieces : List Piece}
    (h : Layouts offset nodes pieces) (start : Nat) :
    ∃ normals clean, Layouts start normals clean ∧
      written clean = ModelQuery.withoutLineBreaks (written pieces) ∧
      Node.depthAll normals = Node.depthAll nodes := by
  cases h with
  | last _ node pieces hnode =>
      obtain ⟨normal, clean, hclean, hwritten, hdepth⟩ := hnode.withoutLineBreaks start
      refine ⟨_, _, .last start normal clean hclean, hwritten, ?_⟩
      rw [Node.depthAll, Node.depthAll, hdepth]
      rfl
  | more _ node first before after nodes pieces hnode hbefore hafter hnodes =>
      obtain ⟨normal, clean, hclean, hwritten, hdepth⟩ := hnode.withoutLineBreaks start
      obtain ⟨normals, further, hfurther, hrest, hdepths⟩ := hnodes.withoutLineBreaks
        (start + extent (clean ++ separator (ModelQuery.withoutLineBreaks before)
          (ModelQuery.withoutLineBreaks after)))
      refine ⟨_, _, .more start normal clean _ _ normals further hclean
        (isGap_withoutLineBreaks hbefore) (isGap_withoutLineBreaks hafter) hfurther, ?_, ?_⟩
      · have hcomma := withoutLineBreaks_cons (c := ',') rfl
        simp [separator, hwritten, hrest, hcomma]
      · rw [Node.depthAll, Node.depthAll, hdepth, hdepths]

end

/-- With blank space around it and line breaks anywhere, a text that is written for a tree is
normalized to one that is written for a tree that nests as many groups. -/
theorem IsLayout.normalize {text given : String} {root : Node} {before after : List Char}
    (h : IsLayout text root) (hbefore : IsGap before) (hafter : IsGap after)
    (hgiven : LineBreaksInserted (before ++ (text.toList ++ after)) given.toList) :
    ∃ normal, IsLayout (normalize given) normal ∧ normal.depth = root.depth := by
  obtain ⟨pieces, hlayout, hwritten⟩ := h
  obtain ⟨normal, clean, hclean, hbody, hdepth⟩ := hlayout.withoutLineBreaks 0
  have hnormal := hclean.toList_normalize (isGap_withoutLineBreaks hbefore)
    (isGap_withoutLineBreaks hafter)
    (by rw [hgiven.withoutLineBreaks, withoutLineBreaks_append, withoutLineBreaks_append,
      ← hwritten, ← hbody])
  exact ⟨normal, ⟨clean, hclean, hnormal.symm⟩, hdepth⟩

/-! ## Refusals -/

/-- A text that is written for a tree of any depth, with blank space around it and line breaks
anywhere, is refused if one of the groups is nested deeper than groups may be, and only then. The
refusal is that it nests too deeply, at the parenthesis of the first group that is one too many in
the normalized text. -/
theorem refusal_of_isLayout (text given : String) (root : Node) (before after : List Char)
    (hlayout : IsLayout text root) (hbefore : IsGap before) (hafter : IsGap after)
    (hgiven : LineBreaksInserted (before ++ (text.toList ++ after)) given.toList) :
    ((∃ error, parse given = .error error) ↔
      ∃ level group, GroupAt root level group ∧ groupLimit < level) ∧
    ∀ error, parse given = .error error →
      ∃ normal keyword items offset place, IsLayout (normalize given) normal ∧
        IsFirstAt normal (groupLimit + 1) (.group keyword items offset) ∧
        OpensAt (normalize given) keyword offset place ∧
        error = .expression ⟨given, .tooDeep, 1, place + 1, place⟩ := by
  obtain ⟨normal, ⟨clean, hclean, hwritten⟩, hdepth⟩ := hlayout.normalize hbefore hafter hgiven
  by_cases hdeep : groupLimit < normal.depth
  · obtain ⟨keyword, items, offset, place, hfirst, hscan, hopens⟩ := hclean.excess_of_deep hdeep
    rw [hwritten] at hscan
    have hread := parse_of_excess? hscan
    constructor
    · -- the tree of the text nests as deeply as that of the normalized text
      obtain ⟨pieces, hpieces, -⟩ := hlayout
      obtain ⟨_, _, _, _, hgroup, -⟩ := hpieces.excess_of_deep (hdepth ▸ hdeep)
      exact iff_of_true ⟨_, hread⟩ ⟨_, _, hgroup.groupAt, Nat.lt_succ_self groupLimit⟩
    · intro error herror
      obtain rfl := Except.error.inj (hread.symm.trans herror)
      exact ⟨normal, keyword, items, offset, place, ⟨clean, hclean, hwritten⟩, hfirst,
        hopens _ hwritten, rfl⟩
  · have hread := hclean.parse (Nat.le_of_not_lt hdeep) hwritten
    constructor
    · refine iff_of_false ?_ ?_
      · rintro ⟨error, herror⟩
        cases hread.symm.trans herror
      · rintro ⟨level, group, hgroup, hlevel⟩
        have hle := hgroup.level_le
        omega
    · intro error herror
      cases hread.symm.trans herror

/-- A condition inside of as many groups as given, the first of which begins at the offset. -/
def nested : Nat → Nat → Node
  | 0, offset => .condition "c" "=" ⟨.bare, "0"⟩ (offset + 1)
  | levels + 1, offset => .group "or" [nested levels (offset + 3)] offset

/-- The pieces that `nested` is written as. -/
def nestedPieces : Nat → List Piece
  | 0 => comparison ['c'] [] ['='] [] .bare ['0']
  | levels + 1 => opening ['o', 'r'] [] [] ++ nestedPieces levels ++ closing []

theorem layout_nested (levels offset : Nat) :
    Layout offset (nested levels offset) (nestedPieces levels) := by
  induction levels generalizing offset with
  | zero =>
      exact .condition offset ['c'] [] ['='] [] .bare ['0'] (by decide) (by decide) (by decide)
        (by decide) (show IsWord ['0'] by decide)
  | succ levels ih =>
      exact .group offset ['o', 'r'] [] [] _ _ [] (by decide) (by decide) (by decide)
        (.last _ _ _ (ih (offset + 3))) (by decide)

theorem written_nestedPieces (levels : Nat) :
    written (nestedPieces levels) =
      (List.replicate levels ['o', 'r', '(']).flatten ++
        (['c', '=', '0'] ++ List.replicate levels ')') := by
  induction levels with
  | zero => rfl
  | succ levels ih =>
      rw [nestedPieces, written_append, written_append, ih, List.replicate_succ,
        List.replicate_succ', List.flatten_cons]
      simp [opening, closing]

/-- A group whose first member has a value with a parenthesis, whose second one is a group that is
closed again, and whose last one opens as many further groups as a whole text may. -/
def deepLast : Node :=
  .group "or"
    [.condition "a" "=" ⟨.single, "'(é\"'"⟩ 4,
      .group "not" [.condition "b" "=" ⟨.bare, "1"⟩ 17] 12, nested groupLimit 21] 0

/-- One way of writing `deepLast`, with line breaks in a value and behind the expression. -/
def deepLastText : List Char :=
  "or(a='(é\n\"',not(b=1),".toList ++ (List.replicate 128 "or(".toList).flatten ++
    "c=0".toList ++ List.replicate 129 ')' ++ ['\n']

theorem isLayout_deepLast :
    IsLayout (String.ofList (withoutLineBreaks deepLastText)) deepLast := by
  have hfirst : Layout 3 (.condition "a" "=" ⟨.single, "'(é\"'"⟩ 4)
      (comparison ['a'] [] ['='] [] .single "'(é\"'".toList) :=
    .condition 3 ['a'] [] ['='] [] .single _ (by decide) (by decide) (by decide) (by decide)
      ⟨"(é\"".toList, by decide, by decide⟩
  have hinner : Layout 16 (.condition "b" "=" ⟨.bare, "1"⟩ 17)
      (comparison ['b'] [] ['='] [] .bare ['1']) :=
    .condition 16 ['b'] [] ['='] [] .bare _ (by decide) (by decide) (by decide) (by decide)
      (show IsWord ['1'] by decide)
  have hsecond := Layout.group 12 ['n', 'o', 't'] [] [] _ _ [] (by decide) (by decide) (by decide)
    (.last 16 _ _ hinner) (by decide)
  have hitems := Layouts.more 3 _ _ [] [] _ _ hfirst (by decide) (by decide)
    (.more 12 _ _ [] [] _ _ hsecond (by decide) (by decide)
      (.last 21 _ _ (layout_nested groupLimit 21)))
  have hroot := Layout.group 0 ['o', 'r'] [] [] _ _ [] (by decide) (by decide) (by decide) hitems
    (by decide)
  refine ⟨_, hroot, ?_⟩
  simp only [written_append, written_nestedPieces, String.toList_ofList]
  decide +kernel

/-- The parenthesis of the last of these groups is refused; that of the value does not count, nor
does the group that is closed. -/
theorem refusal_of_isLayout_deepLast :
    IsLayout (String.ofList (withoutLineBreaks deepLastText)) deepLast ∧
      (∃ level group, GroupAt deepLast level group ∧ groupLimit < level) ∧
      parse (String.ofList deepLastText) =
        .error (.expression ⟨String.ofList deepLastText, .tooDeep, 1, 405, 404⟩) ∧
      ∃ normal keyword items offset, IsLayout (normalize (String.ofList deepLastText)) normal ∧
        IsFirstAt normal (groupLimit + 1) (.group keyword items offset) ∧
        OpensAt (normalize (String.ofList deepLastText)) keyword offset 404 := by
  have hgiven : LineBreaksInserted
      ([] ++ ((String.ofList (withoutLineBreaks deepLastText)).toList ++ []))
      (String.ofList deepLastText).toList := by
    rw [List.nil_append, List.append_nil, String.toList_ofList, String.toList_ofList]
    exact lineBreaksInserted_withoutLineBreaks deepLastText
  have hscan : Depth.excess? (normalize (String.ofList deepLastText)).toList = some 404 := by
    rw [normalize, String.toList_ofList, String.toList_ofList]
    decide +kernel
  have hread := parse_of_excess? hscan
  obtain ⟨hrefused, hplace⟩ := refusal_of_isLayout _ _ deepLast [] [] isLayout_deepLast (by decide)
    (by decide) hgiven
  obtain ⟨normal, keyword, items, offset, place, hnormal, hfirst, hopens, herror⟩ := hplace _ hread
  simp only [tooDeepAt, Error.expression.injEq, ExpressionError.mk.injEq] at herror
  obtain rfl : 404 = place := herror.2.2.2.2
  exact ⟨isLayout_deepLast, hrefused.mp ⟨_, hread⟩, hread, normal, keyword, items, offset, hnormal,
    hfirst, hopens⟩

end ModelQuery.Expression
