import ModelQuery.Proofs.Expression.Exactness

/-!
# Nodes in the order of the text

The offsets that a tree keeps belong to the text that the tree was read from. What is written for a
node inside of another one is a stretch of what is written for that one
(`Layout.exists_of_mem_preorder`), so that every node can be looked at by itself: its keyword or its
operator stands at its offset, with the other parts of it around. In pre-order, where a group comes
before its items, the offsets grow from node to node (`Layout.pairwise_offset`).
-/

namespace ModelQuery.Expression

mutual

/-- The node and the nodes inside it: a group comes before its items, and items come in order. -/
def Node.preorder : Node → List Node
  | .group keyword items offset => .group keyword items offset :: Node.preorderAll items
  | .condition name operator value operatorOffset => [.condition name operator value operatorOffset]

/-- The nodes and the nodes inside them, in order. -/
def Node.preorderAll : List Node → List Node
  | [] => []
  | node :: nodes => Node.preorder node ++ Node.preorderAll nodes

end

/-- The offset that the node keeps: that of the keyword of a group, or that of the operator of a
condition. -/
def Node.offset : Node → Nat
  | .group _ _ offset => offset
  | .condition _ _ _ operatorOffset => operatorOffset

/-- What stands at the offset of the node. -/
def Node.token : Node → String
  | .group keyword _ _ => keyword
  | .condition _ operator _ _ => operator

/-! ## Tokens in a text -/

/-- The bytes of the text from the offset on begin with those of the token. -/
def HoldsAt (text : String) (offset : Nat) (token : String) : Prop :=
  text.toByteArray.extract offset (offset + token.utf8ByteSize) = token.toByteArray

/-- The keyword of a group stands in the text at the offset, and behind it, after a gap, the opening
parenthesis at the given place. -/
def OpensAt (text keyword : String) (offset place : Nat) : Prop :=
  ∃ before gap rest : String, text = before ++ keyword ++ gap ++ "(" ++ rest ∧ IsGap gap.toList ∧
    offset = before.utf8ByteSize ∧ place = (before ++ keyword ++ gap).utf8ByteSize

/-- The parts of the node stand in the text where the node says: the keyword of a group at its
offset, with a parenthesis behind it; or the operator of a condition at its offset, with the
attribute before it and the value behind it. Between the parts there are gaps. -/
inductive StandsIn (text : String) : Node → Prop where
  | group (keyword : String) (items : List Node) (offset place : Nat) :
      OpensAt text keyword offset place → StandsIn text (.group keyword items offset)
  | condition (before name gap operator further : String) (value : WrittenValue) (rest : String) :
      text = before ++ name ++ gap ++ operator ++ further ++ value.raw ++ rest →
      IsGap gap.toList → IsGap further.toList →
      StandsIn text (.condition name operator value (before ++ name ++ gap).utf8ByteSize)

/-- What stands behind a part of the text is there in bytes, too. -/
theorem holdsAt_append (before token rest : String) :
    HoldsAt (before ++ token ++ rest) before.utf8ByteSize token := by
  have hbehind := ByteArray.extract_append_size_add (a := before.toByteArray)
    (b := token.toByteArray ++ rest.toByteArray) (i := 0) (j := token.utf8ByteSize)
  rw [HoldsAt, String.append_assoc, String.toByteArray_append, String.toByteArray_append]
  exact hbehind.trans (ByteArray.extract_append_eq_left rfl)

/-- Where a node stands in the text, its token stands at its offset. -/
theorem StandsIn.exists_append {text : String} {node : Node} (h : StandsIn text node) :
    ∃ before rest : String, text = before ++ node.token ++ rest ∧
      node.offset = before.utf8ByteSize := by
  cases h with
  | group keyword items offset place hopens =>
      obtain ⟨before, gap, rest, htext, -, hoffset, -⟩ := hopens
      exact ⟨before, gap ++ "(" ++ rest, by simp only [htext, Node.token, String.append_assoc],
        hoffset⟩
  | condition before name gap operator further value rest htext =>
      exact ⟨before ++ name ++ gap, further ++ value.raw ++ rest,
        by simp only [htext, Node.token, String.append_assoc], rfl⟩

/-! ## Stretches of a layout -/

mutual

/-- What is written for a node inside is a stretch of what is written for the whole node. -/
theorem Layout.exists_of_mem_preorder {offset : Nat} {node within : Node} {pieces : List Piece}
    (h : Layout offset node pieces) (hwithin : within ∈ node.preorder) :
    ∃ before stretch after, pieces = before ++ stretch ++ after ∧
      Layout (offset + extent before) within stretch := by
  cases h with
  | condition _ name before symbol after quote raw hname hbefore hsymbol hafter hraw =>
      rw [Node.preorder, List.mem_singleton] at hwithin
      subst hwithin
      exact ⟨[], _, [], (List.append_nil _).symm,
        .condition offset name before symbol after quote raw hname hbefore hsymbol hafter hraw⟩
  | group _ keyword before inner items pieces after hkeyword hbefore hinner hitems hafter =>
      rw [Node.preorder, List.mem_cons] at hwithin
      rcases hwithin with rfl | hwithin
      · exact ⟨[], _, [], (List.append_nil _).symm,
          .group offset keyword before inner items pieces after hkeyword hbefore hinner hitems
            hafter⟩
      · obtain ⟨left, stretch, right, rfl, hlayout⟩ := hitems.exists_of_mem_preorderAll hwithin
        refine ⟨opening keyword before inner ++ left, stretch, right ++ closing after, by simp, ?_⟩
        rw [extent_append, ← Nat.add_assoc]
        exact hlayout

/-- What is written for a node inside is a stretch of what is written for all of the nodes. -/
theorem Layouts.exists_of_mem_preorderAll {offset : Nat} {nodes : List Node} {within : Node}
    {pieces : List Piece} (h : Layouts offset nodes pieces)
    (hwithin : within ∈ Node.preorderAll nodes) :
    ∃ before stretch after, pieces = before ++ stretch ++ after ∧
      Layout (offset + extent before) within stretch := by
  cases h with
  | last _ node pieces hnode =>
      rw [Node.preorderAll, Node.preorderAll, List.append_nil] at hwithin
      exact hnode.exists_of_mem_preorder hwithin
  | more _ node first before after nodes pieces hnode _ _ hnodes =>
      rw [Node.preorderAll, List.mem_append] at hwithin
      rcases hwithin with hwithin | hwithin
      · obtain ⟨left, stretch, right, rfl, hlayout⟩ := hnode.exists_of_mem_preorder hwithin
        exact ⟨left, stretch, right ++ separator before after ++ pieces, by simp, hlayout⟩
      · obtain ⟨left, stretch, right, rfl, hlayout⟩ := hnodes.exists_of_mem_preorderAll hwithin
        refine ⟨first ++ separator before after ++ left, stretch, right, by simp, ?_⟩
        rw [extent_append, ← Nat.add_assoc]
        exact hlayout

end

/-- What stands before the members of a group is not empty. -/
theorem extent_opening_pos (keyword before inner : List Char) :
    0 < extent (opening keyword before inner) := by
  have hpos : 0 < Text.byteLength ['('] := by decide
  simp only [opening, extent_token, extent_gap, extent_nil]
  omega

/-- The offset of a node lies within what is written for it. -/
theorem Layout.offset_bounds {offset : Nat} {node : Node} {pieces : List Piece}
    (h : Layout offset node pieces) :
    offset ≤ node.offset ∧ node.offset < offset + extent pieces := by
  cases h with
  | condition _ name before symbol after quote raw _ _ hsymbol =>
      have hpos : 0 < Text.byteLength symbol := Text.byteLength_pos (ne_nil_of_isSymbol hsymbol)
      simp only [Node.offset, comparison, extent_token, extent_gap, extent_nil,
        Text.byteLength_append]
      omega
  | group _ keyword before inner items pieces after =>
      have hpos := extent_opening_pos keyword before inner
      simp only [Node.offset, extent_append]
      omega

/-- The offsets of the nodes inside a node lie within what is written for it. -/
theorem Layout.offset_bounds_of_mem {offset : Nat} {node within : Node} {pieces : List Piece}
    (h : Layout offset node pieces) (hwithin : within ∈ node.preorder) :
    offset ≤ within.offset ∧ within.offset < offset + extent pieces := by
  obtain ⟨before, stretch, after, rfl, hlayout⟩ := h.exists_of_mem_preorder hwithin
  have hbounds := hlayout.offset_bounds
  simp only [extent_append]
  omega

/-- The offsets of the nodes inside several nodes lie within what is written for them. -/
theorem Layouts.offset_bounds_of_mem {offset : Nat} {nodes : List Node} {within : Node}
    {pieces : List Piece} (h : Layouts offset nodes pieces)
    (hwithin : within ∈ Node.preorderAll nodes) :
    offset ≤ within.offset ∧ within.offset < offset + extent pieces := by
  obtain ⟨before, stretch, after, rfl, hlayout⟩ := h.exists_of_mem_preorderAll hwithin
  have hbounds := hlayout.offset_bounds
  simp only [extent_append]
  omega

mutual

/-- From each node to the next one in pre-order the offsets grow. -/
theorem Layout.pairwise_offset {offset : Nat} {node : Node} {pieces : List Piece}
    (h : Layout offset node pieces) :
    node.preorder.Pairwise fun left right ↦ left.offset < right.offset := by
  cases h with
  | condition => exact List.pairwise_singleton _ _
  | group _ keyword before inner items pieces after _ _ _ hitems =>
      have hpos := extent_opening_pos keyword before inner
      rw [Node.preorder, List.pairwise_cons]
      refine ⟨?_, hitems.pairwise_offset⟩
      intro within hwithin
      have hbounds := hitems.offset_bounds_of_mem hwithin
      show offset < within.offset
      omega

/-- From each node of several ones to the next one in pre-order the offsets grow. -/
theorem Layouts.pairwise_offset {offset : Nat} {nodes : List Node} {pieces : List Piece}
    (h : Layouts offset nodes pieces) :
    (Node.preorderAll nodes).Pairwise fun left right ↦ left.offset < right.offset := by
  cases h with
  | last _ node pieces hnode =>
      rw [Node.preorderAll, Node.preorderAll, List.append_nil]
      exact hnode.pairwise_offset
  | more _ node first before after nodes pieces hnode _ _ hnodes =>
      rw [Node.preorderAll, List.pairwise_append]
      refine ⟨hnode.pairwise_offset, hnodes.pairwise_offset, ?_⟩
      intro left hleft right hright
      have hbefore := hnode.offset_bounds_of_mem hleft
      have hbehind := hnodes.offset_bounds_of_mem hright
      rw [extent_append] at hbehind
      omega

end

/-- A group that is written in a text opens in it. -/
theorem opensAt_written {before after : List Piece} {keyword gap inner : List Char} {text : String}
    (hgap : IsGap gap)
    (htext : written (before ++ opening keyword gap inner ++ after) = text.toList) :
    OpensAt text (String.ofList keyword) (extent before)
      (extent before + Text.byteLength (keyword ++ gap)) := by
  refine ⟨String.ofList (written before), String.ofList gap,
    String.ofList (inner ++ written after), ?_, ?_, ?_, ?_⟩
  · rw [← String.toList_inj, ← htext]
    simp [opening]
  · rw [String.toList_ofList]
    exact hgap
  · rw [Text.utf8ByteSize_ofList]
    rfl
  · simp only [String.utf8ByteSize_append, Text.utf8ByteSize_ofList, Text.byteLength_append, extent,
      Nat.add_assoc]

/-- A node that is written in a text stands in it. -/
theorem Layout.standsIn {before stretch after : List Piece} {node : Node} {text : String}
    (h : Layout (extent before) node stretch)
    (htext : written (before ++ stretch ++ after) = text.toList) : StandsIn text node := by
  cases h with
  | condition _ name gap symbol further quote raw _ hgap _ hfurther =>
      have hsplit : text = String.ofList (written before) ++ String.ofList name ++
          String.ofList gap ++ String.ofList symbol ++ String.ofList further ++
          String.ofList raw ++ String.ofList (written after) := by
        rw [← String.toList_inj, ← htext]
        simp [comparison]
      have hoffset : extent before + Text.byteLength (name ++ gap) =
          (String.ofList (written before) ++ String.ofList name ++
            String.ofList gap).utf8ByteSize := by
        simp only [String.utf8ByteSize_append, Text.utf8ByteSize_ofList, Text.byteLength_append,
          extent, Nat.add_assoc]
      rw [hoffset]
      refine .condition _ _ _ _ _ ⟨quote, String.ofList raw⟩ _ hsplit ?_ ?_
      · rw [String.toList_ofList]
        exact hgap
      · rw [String.toList_ofList]
        exact hfurther
  | group _ keyword gap inner items pieces behind _ hgap =>
      rw [List.append_assoc (opening keyword gap inner), ← List.append_assoc before,
        List.append_assoc (before ++ _)] at htext
      exact .group _ items _ _ (opensAt_written hgap htext)

/-- The offsets of an expression that is read are those of its tokens. Every keyword and every
operator stands in the text at the offset that its node keeps, in bytes, with the other parts of the
node around it; each of these offsets is one where a character begins; and in pre-order they grow
from node to node. -/
theorem offsets_of_parse (given : String) (tree : Expression) (h : parse given = .ok tree) :
    (∀ node ∈ tree.root.preorder, StandsIn tree.text node ∧
      HoldsAt tree.text node.offset node.token ∧
      String.Pos.Raw.IsValid tree.text ⟨node.offset⟩) ∧
    (tree.root.preorder.map Node.offset).Pairwise (· < ·) := by
  obtain ⟨htext, -, pieces, hlayout, hwritten⟩ := layout_of_parse h
  refine ⟨?_, List.pairwise_map.mpr hlayout.pairwise_offset⟩
  intro node hnode
  obtain ⟨before, stretch, after, rfl, hstretch⟩ := hlayout.exists_of_mem_preorder hnode
  rw [Nat.zero_add] at hstretch
  rw [← htext] at hwritten
  have hstands := hstretch.standsIn hwritten
  obtain ⟨front, rest, hsplit, hoffset⟩ := hstands.exists_append
  refine ⟨hstands, ?_, ?_⟩
  · rw [hsplit, hoffset]
    exact holdsAt_append front node.token rest
  · rw [hsplit, hoffset, String.append_assoc]
    exact String.Pos.Raw.isValid_iff_exists_append.mpr ⟨front, node.token ++ rest, rfl, rfl⟩

/-- A group whose first member has the keyword and the operator once more in its value, behind a
letter of two bytes. -/
def repeatedTokens : Node :=
  .group "or"
    [.condition "a" "=~" ⟨.single, "'é=~or('"⟩ 4,
      .group "not" [.condition "b" "=~" ⟨.bare, "x"⟩ 25] 16] 0

/-- The tokens inside the value are not taken for those of the nodes behind it, and neither letters
nor blanks of several bytes lead astray. -/
theorem offsets_of_parse_repeatedTokens :
    parse "or(a=~'é=~\nor(',not (b\u2003=~ x))" =
        .ok ⟨"or(a=~'é=~or(',not (b\u2003=~ x))", repeatedTokens⟩ ∧
      HoldsAt "or(a=~'é=~or(',not (b\u2003=~ x))" 25 "=~" ∧
      StandsIn "or(a=~'é=~or(',not (b\u2003=~ x))" (.condition "b" "=~" ⟨.bare, "x"⟩ 25) ∧
      String.Pos.Raw.IsValid "or(a=~'é=~or(',not (b\u2003=~ x))" ⟨25⟩ ∧
      [0, 4, 16, 25].Pairwise (· < ·) := by
  have hfirst : Layout 3 (.condition "a" "=~" ⟨.single, "'é=~or('"⟩ 4)
      (comparison ['a'] [] ['=', '~'] [] .single "'é=~or('".toList) :=
    .condition 3 _ [] _ [] .single _ (by decide) (by decide) (by decide) (by decide)
      ⟨"é=~or(".toList, by decide, by decide⟩
  have hinner : Layout 21 (.condition "b" "=~" ⟨.bare, "x"⟩ 25)
      (comparison ['b'] ['\u2003'] ['=', '~'] [' '] .bare ['x']) :=
    .condition 21 ['b'] ['\u2003'] ['=', '~'] [' '] .bare _ (by decide) (by decide) (by decide)
      (by decide) (show IsWord ['x'] by decide)
  have hsecond := Layout.group 16 ['n', 'o', 't'] [' '] [] _ _ [] (by decide) (by decide)
    (by decide) (.last 21 _ _ hinner) (by decide)
  have hlayout := Layout.group 0 ['o', 'r'] [] [] _ _ [] (by decide) (by decide) (by decide)
    (.more 3 _ _ [] [] _ _ hfirst (by decide) (by decide) (.last 16 _ _ hsecond)) (by decide)
  have hread : parse "or(a=~'é=~\nor(',not (b\u2003=~ x))" =
      .ok ⟨"or(a=~'é=~or(',not (b\u2003=~ x))", repeatedTokens⟩ :=
    hlayout.parse (by decide) (by decide)
  obtain ⟨hnodes, hgrows⟩ := offsets_of_parse _ _ hread
  obtain ⟨hstands, hholds, hvalid⟩ :=
    hnodes (.condition "b" "=~" ⟨.bare, "x"⟩ 25) (by simp [repeatedTokens, Node.preorder,
      Node.preorderAll])
  exact ⟨hread, hholds, hstands, hvalid, hgrows⟩

end ModelQuery.Expression
