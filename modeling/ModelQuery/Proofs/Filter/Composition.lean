import ModelQuery.Proofs.Expression.Normal
import ModelQuery.Proofs.Filter.Outcomes
import ModelQuery.Proofs.Filter.Reading
import ModelQuery.Proofs.Steps

/-!
# Groups of expressions

Expressions can be put into a group as they are, with the blank space around them: the filter of the
group is made of theirs, and if one of them has an attribute that cannot be resolved, the first of
these is what is wrong with the group (`parse_grouped`).

An expression of its own begins at offset zero and a member of a group does not, so a layout is
moved first (`Layout.exists_at`). What stands for it elsewhere is another node, with the same
filter.
-/

namespace ModelQuery

namespace Filter

open Expression

/-! ## Layouts at another offset -/

mutual

/-- What a node is written as stands for another node at another offset, with the same filter or the
same error. -/
theorem exists_layout_at {offset : Nat} {node : Node} {pieces : List Piece}
    (h : Layout offset node pieces) (resolver : Resolver) (source : String) (target : Nat)
    (whole : String) :
    ∃ moved, Layout target moved pieces ∧ moved.depth = node.depth ∧
      ofNode resolver whole moved = ofNode resolver source node := by
  cases h with
  | condition _ name before symbol after quote raw hname hbefore hsymbol hafter hraw =>
      refine ⟨_, .condition target name before symbol after quote raw hname hbefore hsymbol hafter
        hraw, rfl, ?_⟩
      -- only the offset of an operator that does not exist would be told
      obtain ⟨operator, -, rfl⟩ := hsymbol
      rw [ofNode, ofNode, String.ofList_toList, Operator.ofSymbol?_symbol]
  | group _ keyword before inner items pieces after hkeyword hbefore hinner hitems hafter =>
      obtain ⟨moved, hmoved, hdepth, hfilters⟩ := exists_layouts_at hitems resolver source
        (target + extent (opening keyword before inner)) whole
      refine ⟨_, .group target keyword before inner moved pieces after hkeyword hbefore hinner
        hmoved hafter, ?_, ?_⟩
      · rw [Node.depth, Node.depth, hdepth]
      · obtain ⟨combinator, -, hfold⟩ := hkeyword
        rw [ofNode, ofNode, Combinator.ofKeyword?_of_fold hfold, hfilters]

/-- What several nodes are written as stands for other nodes at another offset, with the same
filters or the same error. -/
theorem exists_layouts_at {offset : Nat} {nodes : List Node} {pieces : List Piece}
    (h : Layouts offset nodes pieces) (resolver : Resolver) (source : String) (target : Nat)
    (whole : String) :
    ∃ moved, Layouts target moved pieces ∧ Node.depthAll moved = Node.depthAll nodes ∧
      ofNodes resolver whole moved = ofNodes resolver source nodes := by
  cases h with
  | last _ node pieces hnode =>
      obtain ⟨moved, hmoved, hdepth, hfilter⟩ :=
        exists_layout_at hnode resolver source target whole
      refine ⟨[moved], .last target moved pieces hmoved, ?_, ?_⟩
      · simp only [Node.depthAll, hdepth]
      · rw [ofNodes, ofNodes, hfilter]
        rfl
  | more _ node first before after nodes pieces hnode hbefore hafter hnodes =>
      obtain ⟨moved, hmoved, hdepth, hfilter⟩ :=
        exists_layout_at hnode resolver source target whole
      obtain ⟨further, hfurther, hdepths, hfilters⟩ := exists_layouts_at hnodes resolver source
        (target + extent (first ++ separator before after)) whole
      refine ⟨moved :: further, .more target moved first before after further pieces hmoved hbefore
        hafter hfurther, ?_, ?_⟩
      · rw [Node.depthAll, Node.depthAll, hdepth, hdepths]
      · rw [ofNodes, ofNodes, hfilter, hfilters]

end

/-! ## Members of a group -/

/-- Between gaps, and apart from line breaks, the text is a list of members with no more groups
inside one another than a group may have inside it, and the result is their filters or the first
error. -/
def HoldsMembers (text : List Char) (result : Except Error (List Filter)) : Prop :=
  ∃ before pieces after, withoutLineBreaks text = before ++ (written pieces ++ after) ∧
    IsGap before ∧ IsGap after ∧ ∀ offset source, ∃ nodes, Layouts offset nodes pieces ∧
      Node.depthAll nodes < groupLimit ∧ ofNodes AttributeId.resolve source nodes = result

/-- The text is an expression with no more groups inside one another than a group may have inside
it. -/
def IsMember (text : String) : Prop :=
  ∃ tree, Expression.parse text = .ok tree ∧ tree.root.depth < groupLimit

/-- Between gaps, and apart from line breaks, an expression is written as some pieces, which stand
for a node with its filter, or its error, wherever they begin. -/
theorem IsMember.exists_layout {text : String} (h : IsMember text) :
    ∃ before pieces after, withoutLineBreaks text.toList = before ++ (written pieces ++ after) ∧
      IsGap before ∧ IsGap after ∧ ∀ offset source, ∃ node, Layout offset node pieces ∧
        node.depth < groupLimit ∧ ofNode AttributeId.resolve source node = parse text := by
  obtain ⟨tree, hread, hdepth⟩ := h
  obtain ⟨-, -, pieces, hlayout, hwritten⟩ := layout_of_parse hread
  obtain ⟨before, after, hbefore, hafter, htext⟩ :=
    Text.exists_trim (withoutLineBreaks text.toList)
  have hnormal : (normalize text).toList = Text.trim (withoutLineBreaks text.toList) :=
    String.toList_ofList
  rw [← hnormal, ← hwritten] at htext
  refine ⟨before, pieces, after, htext, hbefore, hafter, fun offset source ↦ ?_⟩
  obtain ⟨node, hnode, hsame, hfilter⟩ :=
    exists_layout_at hlayout AttributeId.resolve tree.text offset source
  refine ⟨node, hnode, by omega, ?_⟩
  rw [hfilter, parse, hread]
  rfl

/-- An expression is a list of one member. -/
theorem HoldsMembers.last {text : String} (h : IsMember text) :
    HoldsMembers text.toList ([text].mapM parse) := by
  obtain ⟨before, pieces, after, htext, hbefore, hafter, hnode⟩ := h.exists_layout
  refine ⟨before, pieces, after, htext, hbefore, hafter, fun offset source ↦ ?_⟩
  obtain ⟨node, hlayout, hdepth, hfilter⟩ := hnode offset source
  refine ⟨[node], .last offset node pieces hlayout, ?_, ?_⟩
  · rw [Node.depthAll, Node.depthAll]
    omega
  · rw [ofNodes, ofNodes, hfilter, List.mapM_cons, List.mapM_nil]

/-- An expression, a comma and a list of members are a list of members. -/
theorem HoldsMembers.more {text : String} {rest : List Char} {texts : List String}
    (h : IsMember text) (hrest : HoldsMembers rest (texts.mapM parse)) :
    HoldsMembers (text.toList ++ ',' :: rest) ((text :: texts).mapM parse) := by
  obtain ⟨before, first, gap, htext, hbefore, hgap, hnode⟩ := h.exists_layout
  obtain ⟨beyond, pieces, after, hfurther, hbeyond, hafter, hnodes⟩ := hrest
  -- the blanks behind the first text and before the next one are the gaps around the comma
  refine ⟨before, first ++ separator gap beyond ++ pieces, after, ?_, hbefore, hafter,
    fun offset source ↦ ?_⟩
  · rw [withoutLineBreaks_append, htext]
    show _ ++ (',' :: withoutLineBreaks rest) = _
    rw [hfurther]
    simp [separator]
  · obtain ⟨node, hlayout, hdepth, hfilter⟩ := hnode offset source
    obtain ⟨nodes, hlayouts, hdepths, hfilters⟩ :=
      hnodes (offset + extent (first ++ separator gap beyond)) source
    refine ⟨node :: nodes, .more offset node first gap beyond nodes pieces hlayout hgap hbeyond
      hlayouts, ?_, ?_⟩
    · rw [Node.depthAll]
      omega
    · rw [ofNodes, hfilter, hfilters, List.mapM_cons]

/-- Expressions with commas between them are a list of members. -/
theorem holdsMembers_intercalate {texts : List String} (hne : texts ≠ [])
    (h : ∀ text ∈ texts, IsMember text) :
    HoldsMembers (List.intercalate [','] (texts.map String.toList)) (texts.mapM parse) := by
  induction texts with
  | nil => exact absurd rfl hne
  | cons text texts ih =>
      obtain ⟨hfirst, hothers⟩ := List.forall_mem_cons.mp h
      cases texts with
      | nil =>
          rw [List.map_cons, List.map_nil, List.intercalate_singleton]
          exact .last hfirst
      | cons other texts =>
          rw [List.map_cons, List.map_cons, List.intercalate_cons_cons, List.append_assoc]
          exact .more hfirst (ih (List.cons_ne_nil _ _) hothers)

/-! ## Groups of expressions -/

/-- The texts as members of a group: with commas between them, in parentheses, and behind the
keyword. -/
def grouped (keyword : String) (texts : List String) : String :=
  keyword ++ "(" ++ ",".intercalate texts ++ ")"

/-- A list of members in parentheses and behind a keyword is a group. -/
theorem HoldsMembers.parse_eq {keyword text : List Char} {result : Except Error (List Filter)}
    {given : String} {combinator : Combinator} (h : HoldsMembers text result)
    (hkeyword : Text.fold keyword = combinator.keyword.toList)
    (hgiven : given.toList = keyword ++ ('(' :: (text ++ [')']))) :
    parse given = .group combinator <$> result := by
  obtain ⟨inner, pieces, after, htext, hinner, hafter, hnodes⟩ := h
  have hisKeyword : IsKeyword keyword := ⟨combinator, combinator.mem_all, hkeyword⟩
  have hnogap : IsGap [] := by simp [IsGap]
  obtain ⟨nodes, hlayouts, hdepths, hfilters⟩ :=
    hnodes (0 + extent (opening keyword [] inner)) (normalize given)
  have hlayout := Layout.group 0 keyword [] inner nodes pieces after hisKeyword hnogap hinner
    hlayouts hafter
  have hclean : withoutLineBreaks given.toList =
      written (opening keyword [] inner ++ pieces ++ closing after) := by
    rw [hgiven, withoutLineBreaks_append,
      withoutLineBreaks_word (isWord_of_isName (isName_of_isKeyword hisKeyword))]
    show keyword ++ ('(' :: withoutLineBreaks (text ++ [')'])) = _
    rw [withoutLineBreaks_append, htext]
    simp [opening, closing, withoutLineBreaks, Text.isLineBreak]
  have hnormal := hlayout.toList_normalize hnogap hnogap
    (by rw [hclean, List.nil_append, List.append_nil])
  have hread := hlayout.parse (by rw [Node.depth]; omega) hnormal.symm
  rw [parse, hread]
  show ofNode AttributeId.resolve _ _ = _
  rw [ofNode, Combinator.ofKeyword?_of_fold hkeyword, hfilters]

/-- The filters of the members of a group are those of the texts, or the first error of one. -/
theorem parse_grouped_eq {combinator : Combinator} {keyword : String} {texts : List String}
    (hkeyword : Text.fold keyword.toList = combinator.keyword.toList) (hne : texts ≠ [])
    (h : ∀ text ∈ texts, IsMember text) :
    parse (grouped keyword texts) = .group combinator <$> texts.mapM parse := by
  refine (holdsMembers_intercalate hne h).parse_eq hkeyword ?_
  simp [grouped, String.toList_append, String.toList_intercalate]

/-- A text with a filter that nests less deeply than it may can be a member. -/
theorem isMember_of_parse {text : String} {filter : Filter} (h : parse text = .ok filter)
    (hdepth : filter.depth < groupLimit) : IsMember text := by
  obtain ⟨tree, hread, hfilter⟩ := parse_eq_ok_iff.mp h
  obtain ⟨-, hsame⟩ := spelling_of_read hread hfilter
  exact ⟨tree, hread, by omega⟩

/-- A member without a filter has an attribute that cannot be resolved, and tells which. -/
theorem IsMember.eq_unknownAttribute {text : String} {error : Error} (h : IsMember text)
    (herror : parse text = .error error) : ∃ name, error = .unknownAttribute name := by
  obtain ⟨tree, hread, -⟩ := h
  obtain ⟨-, -, pieces, hlayout, hwritten⟩ := layout_of_parse hread
  have htranslates := translates_parse ⟨tree, hread, hlayout, hwritten⟩
  rw [herror] at htranslates
  generalize pieces.findSome? unresolvable? = first? at htranslates
  cases htranslates with
  | unknownAttribute name => exact ⟨name, rfl⟩

/-- A text with an attribute that cannot be resolved has no filter. -/
theorem IsWritten.parse_ne_ok {text : String} {pieces : List Piece} {name : List Char}
    (h : IsWritten text pieces) (hmem : .token .attributeName name ∈ pieces)
    (hname : IsUnresolvable (String.ofList name)) (filter : Filter) : parse text ≠ .ok filter := by
  intro hparse
  have htranslates := translates_parse h
  rw [hparse] at htranslates
  have hnone : pieces.findSome? unresolvable? = none := by
    generalize pieces.findSome? unresolvable? = first? at htranslates
    cases htranslates with
    | ok => rfl
  have hpiece := List.findSome?_eq_none_iff.mp hnone _ hmem
  rw [unresolvable?_eq_some_iff.mpr ⟨rfl, hname⟩] at hpiece
  cases hpiece

/-- Texts can be put into a group as they are, behind a keyword in any letter case. If each of them
has a filter that nests less deeply than it may, the group has these as its members, in order. If
each is an expression that nests less deeply than it may, but one of them has an attribute that
cannot be resolved, the group is refused as the first text without a filter is. -/
theorem parse_grouped (combinator : Combinator) (keyword : String) (texts : List String)
    (hkeyword : Text.fold keyword.toList = combinator.keyword.toList) (hne : texts ≠ []) :
    (∀ filters,
      List.Forall₂ (fun text filter ↦ parse text = .ok filter ∧ filter.depth < groupLimit) texts
        filters →
      parse (grouped keyword texts) = .ok (.group combinator filters)) ∧
    ((∀ text ∈ texts, IsMember text) →
      (∃ text ∈ texts, ∃ pieces name, IsWritten text pieces ∧
        .token .attributeName name ∈ pieces ∧ IsUnresolvable (String.ofList name)) →
      ∃ before failing after name, texts = before ++ failing :: after ∧
        (∀ text ∈ before, ∃ filter, parse text = .ok filter) ∧
        parse failing = .error (.unknownAttribute name) ∧
        parse (grouped keyword texts) = .error (.unknownAttribute name)) := by
  constructor
  · intro filters h
    have hmembers : ∀ text ∈ texts, IsMember text := by
      intro text hmem
      obtain ⟨filter, hparse, hdepth⟩ := Steps.exists_of_mem h hmem
      exact isMember_of_parse hparse hdepth
    have hfilters := Steps.mapM_eq_ok_iff.mpr (h.imp fun _ _ hpair ↦ hpair.1)
    rw [parse_grouped_eq hkeyword hne hmembers, hfilters]
    rfl
  · rintro hmembers ⟨text, hmem, pieces, name, hwritten, hname, hunresolvable⟩
    rw [parse_grouped_eq hkeyword hne hmembers]
    cases htexts : texts.mapM parse with
    | ok filters =>
        obtain ⟨filter, hparse⟩ :=
          Steps.exists_of_mem (Steps.mapM_eq_ok_iff.mp htexts) hmem
        exact absurd hparse (hwritten.parse_ne_ok hname hunresolvable filter)
    | error error =>
        obtain ⟨before, failing, after, rfl, hbefore, hfailing⟩ :=
          Steps.mapM_eq_error_iff.mp htexts
        obtain ⟨name, rfl⟩ := IsMember.eq_unknownAttribute (hmembers failing (by simp)) hfailing
        exact ⟨before, failing, after, name, rfl, hbefore, hfailing, rfl⟩

/-- A condition and a conjunction in a conjunction, which stays a member of its own; and a condition
with a name that is no attribute behind one with a literal. -/
theorem parse_grouped_conjunction :
    parse (grouped "aNd" [" -1='(a'\n", "AND( 2 = b )"]) =
        .ok (.group .conjunction [.condition ⟨"-0x1", .equals, "(a"⟩,
          .group .conjunction [.condition ⟨"0x2", .equals, "b"⟩]]) ∧
      ∃ before failing after name, ["2 =b", "\tnope=1"] = before ++ failing :: after ∧
        (∀ text ∈ before, ∃ filter, parse text = .ok filter) ∧
        parse failing = .error (.unknownAttribute name) ∧
        parse (grouped "not" ["2 =b", "\tnope=1"]) = .error (.unknownAttribute name) := by
  have hquoted : Spelling (.condition ⟨"-0x1", .equals, "(a"⟩) "-1='(a'".toList :=
    .condition _ ⟨-1, by decide, by decide⟩ ['-', '1'] [] [] .single _ (by decide) rfl rfl
      (by decide) (by decide) (.single (by decide))
  have hbare : ∀ gap, IsGap gap →
      Spelling (.condition ⟨"0x2", .equals, "b"⟩) (['2', ' '] ++ ('=' :: (gap ++ ['b']))) :=
    fun gap hgap ↦ .condition _ ⟨2, by decide, by decide⟩ ['2'] [' '] gap .bare _ (by decide) rfl
      rfl (by decide) hgap (.bare (by decide))
  have hnested : Spelling (.group .conjunction [.condition ⟨"0x2", .equals, "b"⟩])
      "AND( 2 = b )".toList :=
    .group .conjunction _ ['A', 'N', 'D'] [] [' '] _ [' '] (by decide) (by decide) (by decide)
      (.last _ _ (hbare [' '] (by decide))) (by decide)
  have hfirst : parse " -1='(a'\n" = .ok (.condition ⟨"-0x1", .equals, "(a"⟩) :=
    parse_eq_ok_iff_spelling.mpr ⟨hquoted, by decide⟩
  have hsecond : parse "AND( 2 = b )" =
      .ok (.group .conjunction [.condition ⟨"0x2", .equals, "b"⟩]) :=
    parse_eq_ok_iff_spelling.mpr ⟨hnested, by decide⟩
  have hknown : parse "2 =b" = .ok (.condition ⟨"0x2", .equals, "b"⟩) :=
    parse_eq_ok_iff_spelling.mpr ⟨hbare [] (by decide), by decide⟩
  have hlayout : Layout 0 (.condition "nope" "=" ⟨.bare, "1"⟩ 4)
      (comparison ['n', 'o', 'p', 'e'] [] ['='] [] .bare ['1']) :=
    .condition 0 ['n', 'o', 'p', 'e'] [] ['='] [] .bare ['1'] (by decide) (by decide) (by decide)
      (by decide) (show IsWord ['1'] by decide)
  have hread : Expression.parse "\tnope=1" = .ok _ := hlayout.parse (by decide) (by decide)
  refine ⟨(parse_grouped .conjunction "aNd" _ (by decide) (by decide)).1 _
    (.cons ⟨hfirst, by decide⟩ (.cons ⟨hsecond, by decide⟩ .nil)), ?_⟩
  refine (parse_grouped .negation "not" _ (by decide) (by decide)).2 ?_ ?_
  · intro text hmem
    simp only [List.mem_cons, List.not_mem_nil, or_false] at hmem
    rcases hmem with rfl | rfl
    · exact isMember_of_parse hknown (by decide)
    · exact ⟨_, hread, by decide⟩
  · exact ⟨_, by simp, _, ['n', 'o', 'p', 'e'], ⟨_, hread, hlayout, by decide⟩,
      List.mem_cons_self, by decide⟩

end Filter

end ModelQuery
