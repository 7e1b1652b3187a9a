import ModelQuery.Proofs.Expression.Preorder

/-!
# Surveys of a tree

Equal nodes may occur more than once in a tree, so what is listed and counted are the paths that
lead to them. A path consists of the positions, from zero, of the items that are entered on the way
down. Of two paths the one that is smaller in lexicographic order leads further to the left, or to a
group around the node that the other one leads to.

A survey lists the paths to a class of nodes from left to right, each of them once. Every class has
one, and the nodes that its paths lead to are those of the class in pre-order
(`Node.exists_survey`). So whatever is known of pre-order, such as that offsets grow, holds from
left to right.
-/

namespace ModelQuery

/-- The paths are those that lead to something of the class, in lexicographic order. -/
structure IsSurvey {α : Type} (at? : List Nat → Option α) (accepts : α → Bool)
    (paths : List (List Nat)) : Prop where
  pairwise_lt : paths.Pairwise (· < ·)
  mem_iff : ∀ path, path ∈ paths ↔ ∃ found, at? path = some found ∧ accepts found = true

namespace Expression

/-- The items of a group. A condition has none. -/
def Node.items : Node → List Node
  | .group _ items _ => items
  | .condition .. => []

/-- The node is a condition. -/
def Node.isCondition : Node → Bool
  | .group .. => false
  | .condition .. => true

/-- The node to which the path leads, if it does not leave the tree. -/
def Node.at? : Node → List Nat → Option Node
  | node, [] => some node
  | node, index :: path => node.items[index]?.bind fun item ↦ item.at? path

mutual

/-- The paths to the node and to the nodes inside it, in pre-order. -/
def Node.paths : Node → List (List Nat)
  | .group _ items _ => [] :: Node.pathsAll items
  | .condition .. => [[]]

/-- The paths to the nodes and to the nodes inside them, in pre-order. Each begins with the position
of one of the nodes. -/
def Node.pathsAll : List Node → List (List Nat)
  | [] => []
  | node :: nodes =>
      (Node.paths node).map (0 :: ·) ++ (Node.pathsAll nodes).map (List.modifyHead (· + 1))

end

/-- A path into one of several nodes is the position of the node and a path in it. -/
theorem Node.mem_pathsAll_iff {nodes : List Node} {path : List Nat} :
    path ∈ Node.pathsAll nodes ↔
      ∃ index rest node, path = index :: rest ∧ nodes[index]? = some node ∧
        rest ∈ node.paths := by
  induction nodes generalizing path with
  | nil => simp [Node.pathsAll]
  | cons first nodes ih =>
      rw [Node.pathsAll, List.mem_append, List.mem_map, List.mem_map]
      constructor
      · rintro (⟨rest, hrest, rfl⟩ | ⟨later, hlater, rfl⟩)
        · exact ⟨0, rest, first, rfl, rfl, hrest⟩
        · obtain ⟨index, rest, node, rfl, hnode, hrest⟩ := ih.mp hlater
          exact ⟨index + 1, rest, node, rfl, hnode, hrest⟩
      · rintro ⟨_ | index, rest, node, rfl, hnode, hrest⟩
        · obtain rfl := Option.some.inj hnode
          exact Or.inl ⟨rest, hrest, rfl⟩
        · exact Or.inr ⟨index :: rest, ih.mpr ⟨index, rest, node, rfl, hnode, hrest⟩, rfl⟩

/-- Every path that does not leave the tree is listed, and no other one is. -/
theorem Node.mem_paths_iff {node : Node} {path : List Nat} :
    path ∈ node.paths ↔ ∃ within, node.at? path = some within := by
  induction path generalizing node with
  | nil => cases node <;> simp [paths, at?]
  | cons index path ih =>
      cases node with
      | condition => simp [paths, at?, items]
      | group keyword items offset =>
          simp only [paths, List.mem_cons, reduceCtorEq, false_or, mem_pathsAll_iff, at?,
            Node.items, Option.bind_eq_some_iff]
          constructor
          · rintro ⟨_, _, node, heq, hnode, hrest⟩
            obtain ⟨rfl, rfl⟩ := List.cons.inj heq
            obtain ⟨within, hwithin⟩ := ih.mp hrest
            exact ⟨within, node, hnode, hwithin⟩
          · rintro ⟨within, node, hnode, hwithin⟩
            exact ⟨index, path, node, rfl, hnode, ih.mpr ⟨within, hwithin⟩⟩

/-- Of paths that begin further right, the smaller one stays the smaller one. -/
theorem modifyHead_succ_lt {left right : List Nat} (h : left < right) :
    left.modifyHead (· + 1) < right.modifyHead (· + 1) := by
  cases left with
  | nil =>
      cases right with
      | nil => exact h
      | cons index right => exact List.nil_lt_cons _ _
  | cons first left =>
      cases right with
      | nil => exact absurd h (List.not_lt_nil _)
      | cons index right =>
          rw [List.modifyHead_cons, List.modifyHead_cons, List.cons_lt_cons_iff]
          rcases List.cons_lt_cons_iff.mp h with hfirst | ⟨rfl, hrest⟩
          · exact Or.inl (Nat.succ_lt_succ hfirst)
          · exact Or.inr ⟨rfl, hrest⟩

mutual

/-- The paths in a node are listed in lexicographic order. -/
theorem Node.pairwise_paths : ∀ node : Node, node.paths.Pairwise (· < ·)
  | .condition .. => List.pairwise_singleton _ _
  | .group keyword items offset => by
      rw [paths, List.pairwise_cons]
      refine ⟨?_, Node.pairwise_pathsAll items⟩
      intro path hpath
      obtain ⟨index, rest, -, rfl, -⟩ := mem_pathsAll_iff.mp hpath
      exact List.nil_lt_cons _ _

/-- The paths in several nodes are listed in lexicographic order. -/
theorem Node.pairwise_pathsAll : ∀ nodes : List Node, (pathsAll nodes).Pairwise (· < ·)
  | [] => .nil
  | node :: nodes => by
      rw [pathsAll, List.pairwise_append, List.pairwise_map, List.pairwise_map]
      refine ⟨?_, ?_, ?_⟩
      · exact (Node.pairwise_paths node).imp List.cons_lt_cons_self.mpr
      · exact (Node.pairwise_pathsAll nodes).imp modifyHead_succ_lt
      · intro left hleft right hright
        obtain ⟨rest, -, rfl⟩ := List.mem_map.mp hleft
        obtain ⟨later, hlater, rfl⟩ := List.mem_map.mp hright
        obtain ⟨index, further, -, rfl, -⟩ := mem_pathsAll_iff.mp hlater
        exact List.cons_lt_cons_iff.mpr (Or.inl (Nat.succ_pos index))

end

mutual

/-- The nodes to which the listed paths lead are those in pre-order. -/
theorem Node.map_at?_paths : ∀ node : Node, node.paths.map node.at? = node.preorder.map some
  | .condition .. => rfl
  | .group keyword items offset => by
      rw [paths, preorder, List.map_cons, List.map_cons, Node.map_at?_pathsAll keyword offset items]
      rfl

/-- The nodes to which the paths in several items of a group lead are those in pre-order. -/
theorem Node.map_at?_pathsAll (keyword : String) (offset : Nat) : ∀ nodes : List Node,
    (pathsAll nodes).map (Node.group keyword nodes offset).at? = (preorderAll nodes).map some
  | [] => rfl
  | node :: nodes => by
      have hlater : ∀ path ∈ pathsAll nodes,
          (Node.group keyword (node :: nodes) offset).at? (path.modifyHead (· + 1)) =
            (Node.group keyword nodes offset).at? path := by
        intro path hpath
        obtain ⟨index, rest, -, rfl, -⟩ := mem_pathsAll_iff.mp hpath
        rfl
      rw [pathsAll, preorderAll, List.map_append, List.map_append, List.map_map, List.map_map,
        ← Node.map_at?_paths node, ← Node.map_at?_pathsAll keyword offset nodes]
      congr 1
      exact List.map_congr_left hlater

end

/-- Each class of nodes in a tree has a survey, whose paths lead to the nodes of the class in
pre-order. -/
theorem Node.exists_survey (node : Node) (accepts : Node → Bool) :
    ∃ paths, IsSurvey node.at? accepts paths ∧
      paths.map node.at? = (node.preorder.filter accepts).map some := by
  refine ⟨node.paths.filter fun path ↦ (node.at? path).any accepts, ⟨?_, ?_⟩, ?_⟩
  · exact node.pairwise_paths.filter _
  · intro path
    rw [List.mem_filter, mem_paths_iff, Option.any_eq_true]
    constructor
    · rintro ⟨-, hfound⟩
      exact hfound
    · rintro ⟨found, hfound, haccepts⟩
      exact ⟨⟨found, hfound⟩, found, hfound, haccepts⟩
  · calc (node.paths.filter fun path ↦ (node.at? path).any accepts).map node.at?
      _ = (node.paths.map node.at?).filter fun found ↦ found.any accepts := by
          rw [List.filter_map]
          rfl
      _ = (node.preorder.map some).filter fun found ↦ found.any accepts := by
          rw [Node.map_at?_paths]
      _ = (node.preorder.filter accepts).map some := List.filter_map

end Expression

end ModelQuery
