import ModelQuery.Proofs.Expression.Separators
import ModelQuery.Proofs.Filter.Building

/-!
# Conditions and sizes of filters

Three recursions have to agree: one makes a filter of a tree, one lists the conditions of a filter,
and one counts its conditions and groups together. `Tallies` says in terms of paths how they agree:
the conditions are those that the paths to the conditions of the tree lead to, from left to right,
and the size is the number of paths in the tree. A filter that mirrors a tree does so along every
path (`Mirrors.rel_at?`), so that `Tallies` holds of all of its parts. The main theorem,
`conditions_exact`, says this of the filter of any tree, and ties the conditions of an expression to
the commas of its text.
-/

namespace ModelQuery.Filter

open Expression (Node Layout comparison outerCommas)

/-- The part of the filter to which the path leads, if it does not leave the filter. -/
def at? : Filter → List Nat → Option Filter
  | filter, [] => some filter
  | filter, index :: path => filter.children[index]?.bind fun member ↦ member.at? path

/-- The filter mirrors the node. Its conditions are those that the paths to conditions of the node
lead to, from left to right. Its size is the number of paths in the node, and it is also the number
of its conditions and of its paths to groups. -/
structure Tallies (resolver : Resolver) (node : Node) (filter : Filter) : Prop where
  mirrors : Mirrors resolver node filter
  conditions : ∃ paths, IsSurvey node.at? Node.isCondition paths ∧
    paths.map filter.at? = filter.conditions.map fun single ↦ some (.condition single)
  nodes : ∃ paths, IsSurvey node.at? (fun _ ↦ true) paths ∧ filter.size = paths.length
  groups : ∃ paths, IsSurvey filter.at? isGroup paths ∧
    filter.size = filter.conditions.length + paths.length

variable {resolver : Resolver}

/-! ## Trees and their filters in pre-order -/

mutual

/-- A filter has as many conditions and groups as the tree that it mirrors has nodes. -/
theorem Mirrors.size_eq {node : Node} {filter : Filter} (h : Mirrors resolver node filter) :
    filter.size = node.preorder.length := by
  cases h with
  | condition => rfl
  | group keyword items offset combinator members _ hmembers =>
      rw [size, Node.preorder, List.length_cons, hmembers.sizeAll_eq, Nat.add_comm]

/-- Filters have as many conditions and groups as the trees that they mirror have nodes. -/
theorem MirrorsAll.sizeAll_eq {nodes : List Node} {filters : List Filter}
    (h : MirrorsAll resolver nodes filters) :
    sizeAll filters = (Node.preorderAll nodes).length := by
  cases h with
  | nil => rfl
  | cons node nodes filter filters hfilter hfilters =>
      rw [sizeAll, Node.preorderAll, List.length_append, hfilter.size_eq, hfilters.sizeAll_eq]

end

mutual

/-- The conditions of a filter mirror those of the tree in pre-order, one for one. -/
theorem Mirrors.forall₂_conditions {node : Node} {filter : Filter}
    (h : Mirrors resolver node filter) :
    List.Forall₂ (fun within single ↦ Mirrors resolver within (.condition single))
      (node.preorder.filter Node.isCondition) filter.conditions := by
  cases h with
  | condition name symbol value offset id operator content hid hsymbol hcontent =>
      refine .cons ?_ .nil
      exact .condition name symbol value offset id operator content hid hsymbol hcontent
  | group keyword items offset combinator members _ hmembers =>
      exact hmembers.forall₂_conditionsAll

/-- The conditions of several filters mirror those of the trees in pre-order, one for one. -/
theorem MirrorsAll.forall₂_conditionsAll {nodes : List Node} {filters : List Filter}
    (h : MirrorsAll resolver nodes filters) :
    List.Forall₂ (fun within single ↦ Mirrors resolver within (.condition single))
      ((Node.preorderAll nodes).filter Node.isCondition) (conditionsAll filters) := by
  cases h with
  | nil => exact .nil
  | cons node nodes filter filters hfilter hfilters =>
      rw [Node.preorderAll, List.filter_append, conditionsAll]
      exact List.rel_append hfilter.forall₂_conditions hfilters.forall₂_conditionsAll

end

/-! ## Trees and their filters along paths -/

/-- At each position a filter mirrors the tree, or there is neither of them. -/
theorem MirrorsAll.rel_getElem? {nodes : List Node} {filters : List Filter}
    (h : MirrorsAll resolver nodes filters) (index : Nat) :
    Option.Rel (Mirrors resolver) nodes[index]? filters[index]? := by
  induction index generalizing nodes filters with
  | zero =>
      cases h with
      | nil => exact .none
      | cons node nodes filter filters hfilter => exact .some hfilter
  | succ index ih =>
      cases h with
      | nil => exact .none
      | cons node nodes filter filters _ hfilters => exact ih hfilters

/-- The items of a node and the members of its filter mirror each other. -/
theorem Mirrors.children {node : Node} {filter : Filter} (h : Mirrors resolver node filter) :
    MirrorsAll resolver node.items filter.children := by
  cases h with
  | condition => exact .nil
  | group keyword items offset combinator members _ hmembers => exact hmembers

/-- What stands at the end of a path in the filter mirrors what stands there in the tree, or there
is neither of them. -/
theorem Mirrors.rel_at? {node : Node} {filter : Filter} (h : Mirrors resolver node filter)
    (path : List Nat) : Option.Rel (Mirrors resolver) (node.at? path) (filter.at? path) := by
  induction path generalizing node filter with
  | nil => exact .some h
  | cons index path ih =>
      have hentered := h.children.rel_getElem? index
      rw [Node.at?, at?]
      generalize node.items[index]? = item at hentered ⊢
      generalize filter.children[index]? = member at hentered ⊢
      cases hentered with
      | none => exact .none
      | some hmember => exact ih hmember

/-- A tree has no two filters. -/
theorem Mirrors.unique {node : Node} {left right : Filter} (hleft : Mirrors resolver node left)
    (hright : Mirrors resolver node right) : left = right := by
  have hbuilt : ofNode resolver "" node = .ok left := (ofNode_eq_ok_iff_mirrors node).mpr hleft
  rw [(ofNode_eq_ok_iff_mirrors node).mpr hright] at hbuilt
  exact (Except.ok.inj hbuilt).symm

/-- Where a node of the tree has a filter, this is what the filter of the tree has there. -/
theorem Mirrors.at?_eq_some {node within : Node} {filter part : Filter}
    (h : Mirrors resolver node filter) {path : List Nat} (hwithin : node.at? path = some within)
    (hpart : Mirrors resolver within part) : filter.at? path = some part := by
  have hrel := h.rel_at? path
  rw [hwithin] at hrel
  generalize filter.at? path = found at hrel ⊢
  cases hrel with
  | some hfound => rw [hfound.unique hpart]

/-- The filter of a group is a group, and that of a condition is none. -/
theorem Mirrors.isGroup_eq {node : Node} {filter : Filter} (h : Mirrors resolver node filter) :
    filter.isGroup = !node.isCondition := by
  cases h <;> rfl

/-! ## Paths in a filter -/

/-- The paths to the conditions of a node, in pre-order, lead to the listed conditions of its
filter. -/
theorem Mirrors.map_at?_conditions {node : Node} {filter : Filter}
    (h : Mirrors resolver node filter) {paths : List (List Nat)}
    (hpaths : paths.map node.at? = (node.preorder.filter Node.isCondition).map some) :
    paths.map filter.at? = filter.conditions.map fun single ↦ some (.condition single) := by
  have hmirrors : List.Forall₂
      (fun found single ↦ ∃ within, found = some within ∧
        Mirrors resolver within (.condition single))
      (paths.map node.at?) filter.conditions := by
    rw [hpaths, List.forall₂_map_left_iff]
    exact h.forall₂_conditions.imp fun within single hwithin ↦ ⟨within, rfl, hwithin⟩
  rw [List.forall₂_map_left_iff] at hmirrors
  rw [← List.forall₂_eq_eq_eq, List.forall₂_map_left_iff, List.forall₂_map_right_iff]
  refine hmirrors.imp ?_
  rintro path single ⟨within, hwithin, hsingle⟩
  exact h.at?_eq_some hwithin hsingle

/-- The paths to groups in a filter are those in the tree. -/
theorem Mirrors.isSurvey_isGroup {node : Node} {filter : Filter} (h : Mirrors resolver node filter)
    {paths : List (List Nat)} (hpaths : IsSurvey node.at? (!·.isCondition) paths) :
    IsSurvey filter.at? isGroup paths := by
  refine ⟨hpaths.pairwise_lt, fun path ↦ ?_⟩
  rw [hpaths.mem_iff]
  have hpart := h.rel_at? path
  generalize node.at? path = within at hpart ⊢
  generalize filter.at? path = part at hpart ⊢
  cases hpart with
  | none => simp
  | some hpart => simp [hpart.isGroup_eq]

/-- The filter that mirrors a node lists and counts what there is in the node. -/
theorem Mirrors.tallies {node : Node} {filter : Filter} (h : Mirrors resolver node filter) :
    Tallies resolver node filter := by
  have hsplit := List.length_eq_length_filter_add (l := node.preorder) Node.isCondition
  have hlength := h.forall₂_conditions.length_eq
  obtain ⟨paths, hpaths, hnodes⟩ := node.exists_survey fun _ ↦ true
  obtain ⟨groupPaths, hgroupPaths, hgroups⟩ := node.exists_survey (!·.isCondition)
  obtain ⟨conditionPaths, hconditionPaths, hconditions⟩ := node.exists_survey Node.isCondition
  have hnodeLength : paths.length = node.preorder.length := by
    simpa using congrArg List.length hnodes
  have hgroupLength : groupPaths.length = (node.preorder.filter (!·.isCondition)).length := by
    simpa using congrArg List.length hgroups
  exact {
    mirrors := h
    conditions := ⟨conditionPaths, hconditionPaths, h.map_at?_conditions hconditions⟩
    nodes := ⟨paths, hpaths, h.size_eq.trans hnodeLength.symm⟩
    groups := ⟨groupPaths, h.isSurvey_isGroup hgroupPaths, by
      rw [h.size_eq, hsplit, hlength, hgroupLength]⟩ }

/-- Each part of a filter lists and counts what there is in the node at the same path. -/
theorem Mirrors.tallies_at? {node : Node} {filter : Filter} (h : Mirrors resolver node filter)
    (path : List Nat) : Option.Rel (Tallies resolver) (node.at? path) (filter.at? path) := by
  have hpart := h.rel_at? path
  generalize node.at? path = within at hpart ⊢
  generalize filter.at? path = part at hpart ⊢
  cases hpart with
  | none => exact .none
  | some hpart => exact .some hpart.tallies

/-- The filter of any tree, with attributes resolved in any way, has a part at each path that leads
to a node of the tree, and at no other; this part lists the conditions in that node, once each and
from left to right, and counts the nodes in it. In an expression that is read, the operators of the
conditions, from left to right, stand further and further on in the text, and there is one condition
more than there are commas outside of quotes. As many conditions are listed in the filter of such an
expression, if it has one. -/
theorem conditions_exact :
    (∀ (resolver : Resolver) (expression : Expression) (filter : Filter),
      ofExpression resolver expression = .ok filter →
      ∀ path, Option.Rel (Tallies resolver) (expression.root.at? path) (filter.at? path)) ∧
    (∀ (given : String) (tree : Expression), Expression.parse given = .ok tree →
      (∃ (paths : List (List Nat)) (nodes : List Node),
        IsSurvey tree.root.at? Node.isCondition paths ∧
        paths.map tree.root.at? = nodes.map some ∧
        nodes.Pairwise (fun left right ↦ left.offset < right.offset) ∧
        nodes.length = outerCommas none given.toList + 1) ∧
      ∀ (resolver : Resolver) (filter : Filter), ofExpression resolver tree = .ok filter →
        filter.conditions.length = outerCommas none given.toList + 1) := by
  constructor
  · intro resolver expression filter hfilter path
    have hmirrors : Mirrors resolver expression.root filter :=
      (ofNode_eq_ok_iff_mirrors expression.root).mp hfilter
    exact hmirrors.tallies_at? path
  · intro given tree hread
    obtain ⟨-, -, pieces, hlayout, -⟩ := Expression.layout_of_parse hread
    have hcount := Expression.length_conditions_of_parse hread
    obtain ⟨paths, hpaths, hnodes⟩ := tree.root.exists_survey Node.isCondition
    refine ⟨⟨paths, _, hpaths, hnodes, hlayout.pairwise_offset.filter _, hcount⟩, ?_⟩
    intro resolver filter hfilter
    have hmirrors : Mirrors resolver tree.root filter :=
      (ofNode_eq_ok_iff_mirrors tree.root).mp hfilter
    rw [← hmirrors.forall₂_conditions.length_eq, hcount]

/-- A condition that stands once in a group and once in a group inside of it, with a comma as its
value. -/
def repetition : Node :=
  .group "and"
    [.condition "1" "=" ⟨.single, "','"⟩ 5,
      .group "not" [.condition "1" "=" ⟨.single, "','"⟩ 15] 10] 0

/-- The filter of `repetition`. -/
def repetitionFilter : Filter :=
  .group .conjunction
    [.condition ⟨"0x1", .equals, ","⟩, .group .negation [.condition ⟨"0x1", .equals, ","⟩]]

/-- Equal conditions are listed each at its place, and commas in their values do not count. -/
theorem conditions_exact_repetition :
    Expression.parse "and(1=',',\nnot(1=','))" = .ok ⟨"and(1=',',not(1=','))", repetition⟩ ∧
      ofExpression AttributeId.resolve ⟨"and(1=',',not(1=','))", repetition⟩ =
        .ok repetitionFilter ∧
      Tallies AttributeId.resolve (.group "not" [.condition "1" "=" ⟨.single, "','"⟩ 15] 10)
        (.group .negation [.condition ⟨"0x1", .equals, ","⟩]) ∧
      repetitionFilter.conditions.length = 2 := by
  have hitem : ∀ offset, Layout offset (.condition "1" "=" ⟨.single, "','"⟩ (offset + 1))
      (comparison ['1'] [] ['='] [] .single ['\'', ',', '\'']) := fun offset ↦
    .condition offset ['1'] [] ['='] [] .single _ (by decide) (by decide) (by decide) (by decide)
      ⟨[','], by decide, rfl⟩
  have hinner := Layout.group 10 ['n', 'o', 't'] [] [] _ _ [] (by decide) (by decide) (by decide)
    (.last 14 _ _ (hitem 14)) (by decide)
  have hlayout := Layout.group 0 ['a', 'n', 'd'] [] [] _ _ [] (by decide) (by decide) (by decide)
    (.more 4 _ _ [] [] _ _ (hitem 4) (by decide) (by decide) (.last 10 _ _ hinner)) (by decide)
  have hread : Expression.parse "and(1=',',\nnot(1=','))" =
      .ok ⟨"and(1=',',not(1=','))", repetition⟩ := hlayout.parse (by decide) (by decide)
  have hfilter : ofExpression AttributeId.resolve ⟨"and(1=',',not(1=','))", repetition⟩ =
      .ok repetitionFilter := rfl
  obtain ⟨-, hlength⟩ := conditions_exact.2 _ _ hread
  refine ⟨hread, hfilter, ?_, hlength _ _ hfilter⟩
  cases conditions_exact.1 _ _ _ hfilter [1] with
  | some hpart => exact hpart

end ModelQuery.Filter
