import ModelQuery.Proofs.Expression.Preorder
import ModelQuery.Proofs.Filter.Translation
import ModelQuery.Proofs.Steps

/-!
# Filters of arbitrary trees

What `Filter.ofExpression` makes of any tree, also of one that no text has, with attributes resolved
in any way. A node is sound if its keyword spells a combinator, or if its attribute is resolved and
its operator exists; what stands inside a group is no concern of the group itself. A tree of sound
nodes has a filter, which mirrors the tree node by node; of any other tree the first node in
pre-order that is not sound is reported (`ofExpression_exact`). Its column is the one after its
offset, but for a node at the last offset there is, where the sum overflows (`IsColumn`).
-/

namespace ModelQuery

/-! ## What values stand for -/

/-- The value stands for what is between its quotes if it has two of its kind, one at each end, and
for itself if it does not. -/
inductive WrittenValue.StandsFor : WrittenValue → String → Prop where
  | between (quote : Quote) (mark : Char) (body : List Char) :
      quote.character? = some mark →
      StandsFor ⟨quote, String.ofList (mark :: (body ++ [mark]))⟩ (String.ofList body)
  | itself (quote : Quote) (raw : String) :
      (∀ mark body, quote.character? = some mark → raw.toList ≠ mark :: (body ++ [mark])) →
      StandsFor ⟨quote, raw⟩ raw

/-- Two quotes are stripped exactly if they are there, and what is left is what is between them. -/
theorem stripQuotes?_eq_some_iff {mark : Char} {text body : List Char} :
    stripQuotes? mark text = some body ↔ text = mark :: (body ++ [mark]) := by
  constructor
  · intro h
    cases text with
    | nil => cases h
    | cons c rest =>
        rw [stripQuotes?] at h
        split at h
        next hmarks =>
          obtain ⟨rfl, hlast⟩ := hmarks
          obtain rfl := Option.some.inj h
          obtain ⟨front, rfl⟩ := List.getLast?_eq_some_iff.mp hlast
          rw [List.dropLast_concat]
        next => cases h
  · rintro rfl
    exact stripQuotes?_quoted mark body

/-- A value without two quotes of its kind at its ends is taken as it is. -/
theorem WrittenValue.content_eq_raw {quote : Quote} {raw : String}
    (h : ∀ mark body, quote.character? = some mark → raw.toList ≠ mark :: (body ++ [mark])) :
    content ⟨quote, raw⟩ = raw := by
  unfold content
  cases hmark : quote.character? with
  | none => rfl
  | some mark =>
      have hnone : stripQuotes? mark raw.toList = none :=
        Option.eq_none_iff_forall_ne_some.mpr fun body hbody ↦
          h mark body hmark (stripQuotes?_eq_some_iff.mp hbody)
      simp only [hnone, Option.map_none, Option.getD_none]

/-- A value stands for its content and for nothing else. -/
theorem WrittenValue.standsFor_iff {value : WrittenValue} {text : String} :
    value.StandsFor text ↔ text = value.content := by
  constructor
  · intro h
    cases h with
    | between quote mark body hmark => rw [content_quoted hmark]
    | itself quote raw hbare => rw [content_eq_raw hbare]
  · rintro rfl
    obtain ⟨quote, raw⟩ := value
    by_cases hquoted : ∃ mark body, quote.character? = some mark ∧
        raw.toList = mark :: (body ++ [mark])
    · obtain ⟨mark, body, hmark, hraw⟩ := hquoted
      rw [← String.ofList_toList (s := raw), hraw, content_quoted hmark]
      exact .between quote mark body hmark
    · have hbare : ∀ mark body, quote.character? = some mark →
          raw.toList ≠ mark :: (body ++ [mark]) :=
        fun mark body hmark hraw ↦ hquoted ⟨mark, body, hmark, hraw⟩
      rw [content_eq_raw hbare]
      exact .itself quote raw hbare

/-- One quote is not two. -/
example : WrittenValue.content ⟨.single, "'"⟩ = "'" := by
  decide

namespace Filter

open Expression (Node)

/-! ## Nodes of a tree -/

/-- The node itself is as it should be: its keyword spells a combinator, or its attribute is
resolved and its operator exists. -/
inductive Sound (resolver : Resolver) : Node → Prop where
  | group (keyword : String) (items : List Node) (offset : Nat) (combinator : Combinator) :
      Text.fold keyword.toList = combinator.keyword.toList →
      Sound resolver (.group keyword items offset)
  | condition (name symbol : String) (value : WrittenValue) (offset : Nat) (id : AttributeId)
      (operator : Operator) :
      resolver name = .ok id → operator.symbol = symbol →
      Sound resolver (.condition name symbol value offset)

/-- The column that is reported for an offset. It is one more than the offset if that is a word. If
it is none the sum overflows, and the column is what is left of it: zero, since of all words this
happens only to the last. -/
inductive IsColumn (offset : Nat) : Nat → Prop where
  | next : offset + 1 < Text.wordCount → IsColumn offset (offset + 1)
  | overflow : Text.wordCount ≤ offset + 1 → IsColumn offset ((offset + 1) % Text.wordCount)

/-- What is wrong with the node itself. Of a condition the attribute comes first; its error is the
one of the resolver. Any other error has the text, which has one line, the offset that the node has,
and the column of this offset. -/
inductive Faulty (resolver : Resolver) (text : String) : Node → Error → Prop where
  | keyword (keyword : String) (items : List Node) (offset column : Nat) :
      (∀ combinator : Combinator, Text.fold keyword.toList ≠ combinator.keyword.toList) →
      IsColumn offset column →
      Faulty resolver text (.group keyword items offset)
        (.expression ⟨text, .unsupportedKeyword keyword, 1, column, offset⟩)
  | name (name symbol : String) (value : WrittenValue) (offset : Nat) (error : Error) :
      resolver name = .error error →
      Faulty resolver text (.condition name symbol value offset) error
  | symbol (name symbol : String) (value : WrittenValue) (offset column : Nat)
      (id : AttributeId) :
      resolver name = .ok id → (∀ operator : Operator, operator.symbol ≠ symbol) →
      IsColumn offset column →
      Faulty resolver text (.condition name symbol value offset)
        (.expression ⟨text, .unsupportedOperator symbol, 1, column, offset⟩)

mutual

/-- The filter has the shape of the tree: a condition for each condition and a group for each group,
with the items in the same order. -/
inductive Mirrors (resolver : Resolver) : Node → Filter → Prop where
  | group (keyword : String) (items : List Node) (offset : Nat) (combinator : Combinator)
      (members : List Filter) :
      Text.fold keyword.toList = combinator.keyword.toList → MirrorsAll resolver items members →
      Mirrors resolver (.group keyword items offset) (.group combinator members)
  | condition (name symbol : String) (value : WrittenValue) (offset : Nat) (id : AttributeId)
      (operator : Operator) (content : String) :
      resolver name = .ok id → operator.symbol = symbol → value.StandsFor content →
      Mirrors resolver (.condition name symbol value offset)
        (.condition ⟨id.text, operator, content⟩)

/-- The filters have the shapes of the trees, one for one. -/
inductive MirrorsAll (resolver : Resolver) : List Node → List Filter → Prop where
  | nil : MirrorsAll resolver [] []
  | cons (node : Node) (nodes : List Node) (filter : Filter) (filters : List Filter) :
      Mirrors resolver node filter → MirrorsAll resolver nodes filters →
      MirrorsAll resolver (node :: nodes) (filter :: filters)

end

/-- The next word is the column of an offset, and there is no other. -/
theorem isColumn_iff {offset column : Nat} :
    IsColumn offset column ↔ column = Text.nextWord offset := by
  constructor
  · intro h
    cases h with
    | next hword => exact (Text.nextWord_of_lt hword).symm
    | overflow => rfl
  · rintro rfl
    rcases Nat.lt_or_ge (offset + 1) Text.wordCount with hword | hoverflow
    · rw [Text.nextWord_of_lt hword]
      exact .next hword
    · exact .overflow hoverflow

/-- The column of an offset is one more exactly if that is a word. -/
theorem isColumn_succ_iff (offset : Nat) :
    IsColumn offset (offset + 1) ↔ offset + 1 < Text.wordCount := by
  constructor
  · intro h
    rw [isColumn_iff.mp h]
    exact Nat.mod_lt _ (by decide)
  · exact .next

variable {resolver : Resolver} {text : String}

mutual

/-- A tree has the filter that mirrors it and no other. -/
theorem ofNode_eq_ok_iff_mirrors {filter : Filter} :
    ∀ node : Node, ofNode resolver text node = .ok filter ↔ Mirrors resolver node filter
  | .group keyword items offset => by
      rw [ofNode_group_eq_ok_iff]
      constructor
      · rintro ⟨combinator, members, hkeyword, hmembers, rfl⟩
        exact .group keyword items offset combinator members
          (Combinator.ofKeyword?_eq_some_iff.mp hkeyword)
          ((ofNodes_eq_ok_iff_mirrors items).mp hmembers)
      · intro h
        cases h with
        | group _ _ _ combinator members hkeyword hmembers =>
            exact ⟨combinator, members, Combinator.ofKeyword?_eq_some_iff.mpr hkeyword,
              (ofNodes_eq_ok_iff_mirrors items).mpr hmembers, rfl⟩
  | .condition name symbol value offset => by
      rw [ofNode_condition_eq_ok_iff]
      constructor
      · rintro ⟨id, operator, hid, hsymbol, rfl⟩
        exact .condition name symbol value offset id operator _ hid
          (Operator.ofSymbol?_eq_some_iff.mp hsymbol) (WrittenValue.standsFor_iff.mpr rfl)
      · intro h
        cases h with
        | condition _ _ _ _ id operator content hid hsymbol hcontent =>
            obtain rfl := WrittenValue.standsFor_iff.mp hcontent
            exact ⟨id, operator, hid, Operator.ofSymbol?_eq_some_iff.mpr hsymbol, rfl⟩

/-- Several trees have the filters that mirror them and no others. -/
theorem ofNodes_eq_ok_iff_mirrors {filters : List Filter} :
    ∀ nodes : List Node,
      ofNodes resolver text nodes = .ok filters ↔ MirrorsAll resolver nodes filters
  | [] => by
      constructor
      · intro h
        obtain rfl := Except.ok.inj h
        exact .nil
      · intro h
        cases h
        rfl
  | node :: nodes => by
      rw [ofNodes_cons_eq_ok_iff]
      constructor
      · rintro ⟨filter, further, hfilter, hfurther, rfl⟩
        exact .cons node nodes filter further ((ofNode_eq_ok_iff_mirrors node).mp hfilter)
          ((ofNodes_eq_ok_iff_mirrors nodes).mp hfurther)
      · intro h
        cases h with
        | cons _ _ filter further hfilter hfurther =>
            exact ⟨filter, further, (ofNode_eq_ok_iff_mirrors node).mpr hfilter,
              (ofNodes_eq_ok_iff_mirrors nodes).mpr hfurther, rfl⟩

end

/-! ## The first fault -/

/-- The error of the node itself, if something is wrong with it. -/
def fault? (resolver : Resolver) (text : String) : Node → Option Error
  | .group keyword _ offset =>
      match Combinator.ofKeyword? keyword with
      | none => some (unsupportedAt text offset (.unsupportedKeyword keyword))
      | some _ => none
  | .condition name symbol _ offset =>
      match resolver name with
      | .error error => some error
      | .ok _ =>
          match Operator.ofSymbol? symbol with
          | none => some (unsupportedAt text offset (.unsupportedOperator symbol))
          | some _ => none

/-- No keyword of a combinator is spelled where none is found. -/
theorem ofKeyword?_eq_none_iff {keyword : String} :
    Combinator.ofKeyword? keyword = none ↔
      ∀ combinator : Combinator, Text.fold keyword.toList ≠ combinator.keyword.toList := by
  simp only [Option.eq_none_iff_forall_ne_some, ne_eq, Combinator.ofKeyword?_eq_some_iff]

/-- No operator has a symbol that is not found. -/
theorem ofSymbol?_eq_none_iff {symbol : String} :
    Operator.ofSymbol? symbol = none ↔ ∀ operator : Operator, operator.symbol ≠ symbol := by
  simp only [Option.eq_none_iff_forall_ne_some, ne_eq, Operator.ofSymbol?_eq_some_iff]

/-- The error of a node is what is wrong with it. -/
theorem fault?_eq_some_iff {node : Node} {error : Error} :
    fault? resolver text node = some error ↔ Faulty resolver text node error := by
  constructor
  · intro h
    unfold fault? at h
    split at h
    next keyword items offset =>
      split at h
      next hkeyword =>
        obtain rfl := Option.some.inj h
        exact .keyword keyword items offset _ (ofKeyword?_eq_none_iff.mp hkeyword)
          (isColumn_iff.mpr rfl)
      next => cases h
    next name symbol value offset =>
      split at h
      next found hname =>
        obtain rfl := Option.some.inj h
        exact .name name symbol value offset found hname
      next id hname =>
        split at h
        next hsymbol =>
          obtain rfl := Option.some.inj h
          exact .symbol name symbol value offset _ id hname (ofSymbol?_eq_none_iff.mp hsymbol)
            (isColumn_iff.mpr rfl)
        next => cases h
  · intro h
    cases h with
    | keyword keyword items offset column hkeyword hcolumn =>
        obtain rfl := isColumn_iff.mp hcolumn
        simp only [fault?, ofKeyword?_eq_none_iff.mpr hkeyword]
        rfl
    | name name symbol value offset error hname => simp only [fault?, hname]
    | symbol name symbol value offset column id hname hsymbol hcolumn =>
        obtain rfl := isColumn_iff.mp hcolumn
        simp only [fault?, hname, ofSymbol?_eq_none_iff.mpr hsymbol]
        rfl

/-- A node without an error is sound. -/
theorem fault?_eq_none_iff {node : Node} :
    fault? resolver text node = none ↔ Sound resolver node := by
  constructor
  · intro h
    unfold fault? at h
    split at h
    next keyword items offset =>
      split at h
      next => cases h
      next combinator hkeyword =>
        exact .group keyword items offset combinator
          (Combinator.ofKeyword?_eq_some_iff.mp hkeyword)
    next name symbol value offset =>
      split at h
      next => cases h
      next id hname =>
        split at h
        next => cases h
        next operator hsymbol =>
          exact .condition name symbol value offset id operator hname
            (Operator.ofSymbol?_eq_some_iff.mp hsymbol)
  · intro h
    cases h with
    | group keyword items offset combinator hkeyword =>
        simp only [fault?, Combinator.ofKeyword?_eq_some_iff.mpr hkeyword]
    | condition name symbol value offset id operator hname hsymbol =>
        simp only [fault?, hname, Operator.ofSymbol?_eq_some_iff.mpr hsymbol]

mutual

/-- A tree has no filter exactly if one of its nodes has an error, and the first such error is
reported. -/
theorem ofNode_eq_error_iff_first {error : Error} :
    ∀ node : Node, ofNode resolver text node = .error error ↔
      node.preorder.findSome? (fault? resolver text) = some error
  | .group keyword items offset => by
      rw [ofNode, Node.preorder, List.findSome?_cons, fault?]
      cases Combinator.ofKeyword? keyword with
      | none => simp
      | some combinator => simpa [Steps.map_eq_error_iff] using ofNodes_eq_error_iff_first items
  | .condition name symbol value offset => by
      rw [ofNode, Node.preorder, List.findSome?_singleton, fault?]
      cases resolver name with
      | error found => simp [bind, Except.bind]
      | ok id =>
          cases Operator.ofSymbol? symbol with
          | none => simp [bind, Except.bind]
          | some operator => simp [bind, Except.bind, pure, Except.pure]

/-- Several trees have no filters exactly if a node of one of them has an error, and the first such
error is reported. -/
theorem ofNodes_eq_error_iff_first {error : Error} :
    ∀ nodes : List Node, ofNodes resolver text nodes = .error error ↔
      (Node.preorderAll nodes).findSome? (fault? resolver text) = some error
  | [] => by
      simp [ofNodes, Node.preorderAll, pure, Except.pure]
  | node :: nodes => by
      -- the later trees are reached only if the first one has a filter
      have hreached : (∃ filter, ofNode resolver text node = .ok filter) ↔
          node.preorder.findSome? (fault? resolver text) = none := by
        rw [Steps.exists_ok_iff, Option.eq_none_iff_forall_ne_some]
        simp only [ne_eq, ofNode_eq_error_iff_first node]
      have hlater : ∀ filter : Filter,
          (do
            let filters ← ofNodes resolver text nodes
            pure (filter :: filters)) = .error error ↔
          (Node.preorderAll nodes).findSome? (fault? resolver text) = some error := by
        intro filter
        rw [← ofNodes_eq_error_iff_first nodes, Steps.bind_eq_error_iff]
        simp [pure, Except.pure]
      rw [ofNodes, Steps.bind_eq_error_iff, Node.preorderAll, List.findSome?_append,
        Option.or_eq_some_iff, ofNode_eq_error_iff_first node]
      simp only [hlater, exists_and_right, hreached]

end

/-- Of any tree, with attributes resolved in any way: there is a filter exactly if every node is
sound; it is the one that mirrors the tree; and if there is none, what is wrong with the first node
in pre-order that is not sound is the error. The column that is reported with an offset is one more,
exactly if that is a word. -/
theorem ofExpression_exact (resolver : Resolver) (expression : Expression) :
    ((∃ filter, ofExpression resolver expression = .ok filter) ↔
      ∀ node ∈ expression.root.preorder, Sound resolver node) ∧
    (∀ filter, ofExpression resolver expression = .ok filter ↔
      Mirrors resolver expression.root filter) ∧
    (∀ error, ofExpression resolver expression = .error error ↔
      ∃ before node after, expression.root.preorder = before ++ node :: after ∧
        (∀ earlier ∈ before, Sound resolver earlier) ∧
        Faulty resolver expression.text node error) ∧
    ∀ offset, IsColumn offset (offset + 1) ↔ offset + 1 < Text.wordCount := by
  unfold ofExpression
  refine ⟨?_, fun filter ↦ ofNode_eq_ok_iff_mirrors _, fun error ↦ ?_, isColumn_succ_iff⟩
  · rw [Steps.exists_ok_iff]
    simp only [ne_eq, ofNode_eq_error_iff_first, ← Option.eq_none_iff_forall_ne_some,
      List.findSome?_eq_none_iff, fault?_eq_none_iff]
  · rw [ofNode_eq_error_iff_first, List.findSome?_eq_some_iff]
    simp only [fault?_eq_some_iff, fault?_eq_none_iff]
    constructor
    · rintro ⟨before, node, after, hsplit, hfaulty, hbefore⟩
      exact ⟨before, node, after, hsplit, hbefore, hfaulty⟩
    · rintro ⟨before, node, after, hsplit, hbefore, hfaulty⟩
      exact ⟨before, node, after, hsplit, hfaulty, hbefore⟩

/-- An unknown keyword is reported before anything inside of its group is looked at. -/
example :
    ofExpression AttributeId.resolve
        ⟨"", .group "xor" [.condition "nothing" "?" ⟨.bare, ""⟩ 9, .group "nor" [] 2] 7⟩ =
      .error (.expression ⟨"", .unsupportedKeyword "xor", 1, 8, 7⟩) := by
  rfl

/-- An unknown keyword is not always reported in the column after its offset: there is none after
the last offset. -/
theorem column_of_last_offset :
    ¬ ∀ (resolver : Resolver) (text keyword : String) (items : List Node) (offset : Nat),
      offset < Text.wordCount →
      (∀ combinator : Combinator, Text.fold keyword.toList ≠ combinator.keyword.toList) →
      ofExpression resolver ⟨text, .group keyword items offset⟩ =
        .error (.expression ⟨text, .unsupportedKeyword keyword, 1, offset + 1, offset⟩) := by
  intro h
  have hreport := h AttributeId.resolve "" "xor" [] 18446744073709551615 (by decide)
    (ofKeyword?_eq_none_iff.mp rfl)
  have hcolumn : ofExpression AttributeId.resolve ⟨"", .group "xor" [] 18446744073709551615⟩ =
      .error (.expression ⟨"", .unsupportedKeyword "xor", 1, 0, 18446744073709551615⟩) := rfl
  rw [hcolumn] at hreport
  exact absurd (Except.error.inj hreport) (by decide)

end Filter

end ModelQuery
