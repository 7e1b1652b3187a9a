import ModelQuery.Expression.Pair
import ModelQuery.Proofs.Expression.Verdict

/-!
# Reading expressions by way of pairs

Matching with pairs and matching with nodes are the same process with different results: `Same`
relates what the two return at one place. `Built` says which pairs belong to a node, and the pairs
that are matched for an item are built like its node (`same_item`). On such pairs `Pairs.toNode`
finds every part that it looks for, and the calls that it needs inside one another are one more than
the groups (`Built.toNode`). The main result, `parse_eq`, is that the detour changes nothing.
-/

namespace ModelQuery.Pairs

open Matcher
open Expression (Node Layout)

/-! ## Pairs that belong to a node -/

mutual

/-- The pair has the parts that a node of its kind has, and nothing else. -/
inductive Built : Pair → Node → Prop where
  | condition (start : Nat) (text : String) (name operator value : Pair) :
      Built ⟨.condition, start, text, [name, operator, value]⟩
        (.condition name.text operator.text ⟨quoteOf value.rule, value.text⟩ operator.start)
  | group (start : Nat) (text : String) (keyword opening list closing : Pair)
      (items : List Node) :
      keyword.rule = .keyword → opening.rule = .openParenthesis → list.rule = .members →
      closing.rule = .closeParenthesis → BuiltAll (withoutPunctuation list.inner) items →
      Built ⟨.group, start, text, [keyword, opening, list, closing]⟩
        (.group keyword.text items start)

/-- Each of the pairs has the parts that its node has. -/
inductive BuiltAll : List Pair → List Node → Prop where
  | nil : BuiltAll [] []
  | cons (pair : Pair) (node : Node) (pairs : List Pair) (nodes : List Node) :
      Built pair node → BuiltAll pairs nodes → BuiltAll (pair :: pairs) (node :: nodes)

end

/-- The pair of a node is no punctuation. -/
theorem Built.withoutPunctuation {pair : Pair} {node : Node} (h : Built pair node)
    (pairs : List Pair) :
    withoutPunctuation (pair :: pairs) = pair :: Pairs.withoutPunctuation pairs := by
  cases h with
  | condition => rfl
  | group => rfl

mutual

/-- A pair that is built like a node is turned into it, with one call more than groups. -/
theorem Built.toNode {pair : Pair} {node : Node} (h : Built pair node) (given : String)
    {calls : Nat} (hcalls : node.depth < calls) : Pairs.toNode given calls pair = pure node := by
  cases calls with
  | zero => exact absurd hcalls (Nat.not_lt_zero _)
  | succ calls =>
      cases h with
      | condition start text name operator value => rfl
      | group start text keyword opening list closing items hkeyword hopening hlist hclosing
          hitems =>
          rw [Node.depth] at hcalls
          have hread := hitems.mapM_toNode given (Nat.lt_of_succ_lt_succ hcalls)
          have hparts : Pairs.withoutPunctuation [keyword, opening, list, closing] =
              [keyword, list] := by
            simp [Pairs.withoutPunctuation, hkeyword, hopening, hlist, hclosing]
          simp only [Pairs.toNode, hparts]
          show ((withoutPunctuation list.inner).mapM (Pairs.toNode given calls) >>= fun nodes ↦
            pure (Node.group keyword.text nodes start)) = _
          rw [hread]
          rfl

/-- Pairs that are built like nodes are turned into them. -/
theorem BuiltAll.mapM_toNode {pairs : List Pair} {nodes : List Node} (h : BuiltAll pairs nodes)
    (given : String) {calls : Nat} (hcalls : Node.depthAll nodes < calls) :
    pairs.mapM (Pairs.toNode given calls) = pure nodes := by
  cases h with
  | nil => rfl
  | cons pair node pairs nodes hnode hnodes =>
      rw [Node.depthAll] at hcalls
      have hfirst := hnode.toNode given (Nat.lt_of_le_of_lt (Nat.le_max_left _ _) hcalls)
      have hrest := hnodes.mapM_toNode given (Nat.lt_of_le_of_lt (Nat.le_max_right _ _) hcalls)
      rw [List.mapM_cons, hfirst, hrest]
      rfl

end

/-! ## Matching side by side -/

/-- Two matchers have come to the same end: they match up to the same place, with results that
belong together, or both do not match; and both have the same record. -/
inductive Same {α β : Type} (related : α → β → Prop) :
    Outcome α × Frontier → Outcome β × Frontier → Prop where
  | matched (left : α) (right : β) (next : Cursor) (frontier : Frontier) :
      related left right →
      Same related (.matched left next, frontier) (.matched right next, frontier)
  | failed (frontier : Frontier) : Same related (.failed, frontier) (.failed, frontier)
  | tooDeep (offset : Nat) (frontier : Frontier) :
      Same related (.tooDeep offset, frontier) (.tooDeep offset, frontier)

variable {α β γ δ : Type}

/-- Results that belong together in one way may do so in another. -/
theorem Same.mono {related related' : α → β → Prop} {left : Outcome α × Frontier}
    {right : Outcome β × Frontier} (h : Same related left right)
    (himp : ∀ value value', related value value' → related' value value') :
    Same related' left right := by
  cases h with
  | matched value value' next frontier hrelated =>
      exact .matched value value' next frontier (himp value value' hrelated)
  | failed frontier => exact .failed frontier
  | tooDeep offset frontier => exact .tooDeep offset frontier

/-- Two parts in a row come to the same end if each of them does. -/
theorem same_bind {related : α → β → Prop} {related' : γ → δ → Prop} {first : Matcher α}
    {first' : Matcher β} {second : α → Matcher γ} {second' : β → Matcher δ} {cursor : Cursor}
    {frontier : Frontier} (h : Same related (first cursor frontier) (first' cursor frontier))
    (h' : ∀ left right next updated, related left right →
      Same related' (second left next updated) (second' right next updated)) :
    Same related' ((first >>= second) cursor frontier) ((first' >>= second') cursor frontier) := by
  show Same related' (andThen first second cursor frontier) (andThen first' second' cursor frontier)
  unfold andThen
  generalize first cursor frontier = result, first' cursor frontier = result' at h
  cases h with
  | matched left right next updated hrelated => exact h' left right next updated hrelated
  | failed updated => exact .failed updated
  | tooDeep offset updated => exact .tooDeep offset updated

/-- A matcher comes to the same end as itself, with the same result. -/
theorem Same.refl (result : Outcome α × Frontier) : Same Eq result result := by
  obtain ⟨outcome, frontier⟩ := result
  cases outcome with
  | matched value next => exact .matched value value next frontier rfl
  | failed => exact .failed frontier
  | tooDeep offset => exact .tooDeep offset frontier

/-- Behind a part that both have in common they come to the same end if the rest does. -/
theorem same_behind {related : γ → δ → Prop} (first : Matcher α) {second : α → Matcher γ}
    {second' : α → Matcher δ} {cursor : Cursor} {frontier : Frontier}
    (h : ∀ value next updated, Same related (second value next updated)
      (second' value next updated)) :
    Same related ((first >>= second) cursor frontier) ((first >>= second') cursor frontier) := by
  refine same_bind (.refl _) ?_
  intro value _ next updated heq
  subst heq
  exact h value next updated

/-- Two alternatives come to the same end if each of them does. -/
theorem same_otherwise {related : α → β → Prop} {first second : Matcher α}
    {first' second' : Matcher β} {cursor : Cursor} {frontier : Frontier}
    (h : Same related (first cursor frontier) (first' cursor frontier))
    (h' : ∀ updated, Same related (second cursor updated) (second' cursor updated)) :
    Same related (otherwise first second cursor frontier)
      (otherwise first' second' cursor frontier) := by
  unfold otherwise
  generalize first cursor frontier = result, first' cursor frontier = result' at h
  cases h with
  | matched left right next updated hrelated => exact .matched left right next updated hrelated
  | failed updated => exact h' updated
  | tooDeep offset updated => exact .tooDeep offset updated

/-- The only pair is of the construct and begins at the offset, and the pairs inside it belong to
the result. -/
def Covers (construct : Construct) (start : Nat) (related : List Pair → β → Prop)
    (pairs : List Pair) (value : β) : Prop :=
  ∃ text inner, pairs = [⟨construct, start, text, inner⟩] ∧ related inner value

/-- A rule comes to the same end as the construct that it matches. -/
theorem same_rule {related : List Pair → β → Prop} (construct : Construct)
    {inner : Matcher (List Pair)} {body : Matcher β} {cursor : Cursor} {frontier : Frontier}
    (h : Same related (inner cursor frontier) (body cursor frontier)) :
    Same (Covers construct cursor.offset related)
      (rule construct inner cursor frontier) (named construct body cursor frontier) := by
  unfold rule named
  generalize inner cursor frontier = result, body cursor frontier = result' at h
  cases h with
  | matched left right next updated hrelated =>
      exact .matched _ _ next updated ⟨_, left, rfl, hrelated⟩
  | failed updated => exact .failed _
  | tooDeep offset updated => exact .tooDeep offset updated

/-- A token comes to the same end as its text. -/
theorem same_token (construct : Construct) {scan : Token.Scanner} (hscan : scan.Lossless)
    (cursor : Cursor) (frontier : Frontier) :
    Same (fun pairs text ↦ pairs = [⟨construct, cursor.offset, text, []⟩])
      (token construct scan cursor frontier) (Matcher.token construct scan cursor frontier) := by
  obtain ⟨offset, text⟩ := cursor
  cases hread : scan text with
  | none =>
      have hrule : token construct scan ⟨offset, text⟩ frontier =
          (.failed, frontier.note construct offset) := by
        simp [token, rule, named, scanned, bind_apply, andThen, hread, Frontier.note]
      rw [hrule, token_failed hread]
      exact .failed _
  | some result =>
      obtain ⟨read, rest⟩ := result
      have htext : text = read ++ rest := hscan text read rest hread
      have htaken : text.take (text.length - rest.length) = read := by
        simp [htext]
      have hrule : token construct scan ⟨offset, text⟩ frontier =
          (.matched [⟨construct, offset, String.ofList read, []⟩]
            ⟨offset + Text.byteLength read, rest⟩, frontier) := by
        simp [token, rule, named, scanned, bind_apply, pure_apply, andThen, hread, Cursor.after,
          htaken]
      rw [hrule, token_matched hread]
      exact .matched _ _ _ _ rfl

/-- Two repetitions come to the same end if each attempt does. -/
theorem same_repeated {related : α → β → Prop} {relatedAll : List α → List β → Prop}
    (hnil : relatedAll [] [])
    (hcons : ∀ left right lefts rights, related left right → relatedAll lefts rights →
      relatedAll (left :: lefts) (right :: rights))
    {part : Matcher α} {part' : Matcher β}
    (h : ∀ cursor frontier, Same related (part cursor frontier) (part' cursor frontier))
    (limit : Nat) (cursor : Cursor) (frontier : Frontier) :
    Same relatedAll (repeated part limit cursor frontier)
      (repeated part' limit cursor frontier) := by
  induction limit generalizing cursor frontier with
  | zero => exact .matched [] [] cursor frontier hnil
  | succ limit ih =>
      refine same_otherwise (same_bind (h cursor frontier) ?_) ?_
      · intro left right next updated hrelated
        refine same_bind (ih next updated) ?_
        intro lefts rights final last hall
        exact .matched _ _ final last (hcons left right lefts rights hrelated hall)
      · intro updated
        exact .matched [] [] cursor updated hnil

/-- Reading a part as often as it goes comes to the same end if each attempt does. -/
theorem same_many {related : α → β → Prop} {relatedAll : List α → List β → Prop}
    (hnil : relatedAll [] [])
    (hcons : ∀ left right lefts rights, related left right → relatedAll lefts rights →
      relatedAll (left :: lefts) (right :: rights))
    {part : Matcher α} {part' : Matcher β}
    (h : ∀ cursor frontier, Same related (part cursor frontier) (part' cursor frontier))
    (cursor : Cursor) (frontier : Frontier) :
    Same relatedAll (many part cursor frontier) (many part' cursor frontier) :=
  same_repeated hnil hcons h (cursor.rest.length + 1) cursor frontier

/-- Asking for the place makes no difference. -/
theorem same_position {related : α → β → Prop} {left : Matcher α} {right : Nat → Matcher β}
    {cursor : Cursor} {frontier : Frontier}
    (h : Same related (left cursor frontier) (right cursor.offset cursor frontier)) :
    Same related (left cursor frontier) ((position >>= right) cursor frontier) :=
  h

/-- Turning a result into another one makes no difference. -/
theorem same_map {related : α → β → Prop} {related' : α → γ → Prop} {left : Matcher α}
    {right : Matcher β} {f : β → γ} {cursor : Cursor} {frontier : Frontier}
    (h : Same related (left cursor frontier) (right cursor frontier))
    (himp : ∀ value value', related value value' → related' value (f value')) :
    Same related' (left cursor frontier) ((f <$> right) cursor frontier) := by
  rw [map_apply]
  unfold andThen
  generalize left cursor frontier = result, right cursor frontier = result' at h
  cases h with
  | matched value value' next updated hrelated =>
      exact .matched value (f value') next updated (himp value value' hrelated)
  | failed updated => exact .failed updated
  | tooDeep offset updated => exact .tooDeep offset updated

/-- Adding to the pairs in the end makes no difference. -/
theorem same_adding {related : α → β → Prop} {related' : γ → β → Prop} {left : Matcher α}
    {right : Matcher β} {f : α → γ} {cursor : Cursor} {frontier : Frontier}
    (h : Same related (left cursor frontier) (right cursor frontier))
    (himp : ∀ value value', related value value' → related' (f value) value') :
    Same related' ((left >>= fun value ↦ pure (f value)) cursor frontier)
      (right cursor frontier) := by
  rw [bind_apply]
  unfold andThen
  generalize left cursor frontier = result, right cursor frontier = result' at h
  cases h with
  | matched value value' next updated hrelated =>
      exact .matched (f value) value' next updated (himp value value' hrelated)
  | failed updated => exact .failed updated
  | tooDeep offset updated => exact .tooDeep offset updated

/-! ## The grammar -/

/-- The only pair is built like the node. -/
def Builds (pairs : List Pair) (node : Node) : Prop :=
  ∃ pair, pairs = [pair] ∧ Built pair node

/-- The only pair is of a value with the form and the text. -/
def Holds (pairs : List Pair) (written : WrittenValue) : Prop :=
  ∃ pair, pairs = [pair] ∧ written = ⟨quoteOf pair.rule, pair.text⟩

/-- But for the commas, the pairs are built like the nodes. -/
def Lists (pairs : List Pair) (nodes : List Node) : Prop :=
  BuiltAll (withoutPunctuation pairs) nodes

/-- The first pair is of a list whose pairs, but for the commas, are built like the nodes; the
second one is of the parenthesis behind the list. -/
def Encloses (pairs : List Pair) (nodes : List Node) : Prop :=
  ∃ list closing, pairs = [list, closing] ∧ list.rule = .members ∧
    closing.rule = .closeParenthesis ∧ Lists list.inner nodes

/-- The pairs are of the parts of the condition. -/
def Compares (pairs : List Pair) (node : Node) : Prop :=
  ∃ name operator value : Pair, pairs = [name, operator, value] ∧
    node = .condition name.text operator.text ⟨quoteOf value.rule, value.text⟩ operator.start

/-- The pairs are of a comma and of an item that is built like the node. -/
def Follows (pairs : List Pair) (node : Node) : Prop :=
  ∃ comma pair : Pair, pairs = [comma, pair] ∧ comma.rule = .comma ∧ Built pair node

/-- The pairs are of the parts of the group. -/
def Groups (start : Nat) (pairs : List Pair) (node : Node) : Prop :=
  ∃ (keyword opening list closing : Pair) (nodes : List Node),
    pairs = [keyword, opening, list, closing] ∧ keyword.rule = .keyword ∧
    opening.rule = .openParenthesis ∧ list.rule = .members ∧ closing.rule = .closeParenthesis ∧
    Lists list.inner nodes ∧ node = .group keyword.text nodes start

/-- The first pair is built like the root, and one more follows. -/
def Roots (pairs : List Pair) (root : Node) : Prop :=
  ∃ pair finish : Pair, pairs = [pair, finish] ∧ Built pair root

/-- A pair that is built like a node comes first in a list of them. -/
theorem Built.lists_cons {pair : Pair} {node : Node} (h : Built pair node) {pairs : List Pair}
    {nodes : List Node} (hpairs : Lists pairs nodes) : Lists (pair :: pairs) (node :: nodes) := by
  unfold Lists
  rw [h.withoutPunctuation]
  exact .cons pair node _ _ h hpairs

/-- A comma is no member. -/
theorem withoutPunctuation_comma {comma : Pair} (h : comma.rule = .comma) (pairs : List Pair) :
    withoutPunctuation (comma :: pairs) = withoutPunctuation pairs := by
  simp [withoutPunctuation, h]

/-- A value of each form leaves one pair. -/
theorem same_value (cursor : Cursor) (frontier : Frontier) :
    Same Holds (value cursor frontier) (Grammar.value cursor frontier) := by
  have hform : ∀ (quote : Quote) (construct : Construct) (scan : Token.Scanner),
      quoteOf construct = quote → scan.Lossless → ∀ cursor frontier,
      Same Holds (token construct scan cursor frontier)
        ((WrittenValue.mk quote <$> Matcher.token construct scan) cursor frontier) := by
    intro quote construct scan hquote hscan cursor frontier
    refine same_map (same_token construct hscan cursor frontier) ?_
    intro pairs text hpairs
    exact ⟨_, hpairs, by rw [hquote]⟩
  unfold value Grammar.value
  refine same_otherwise ?_ fun updated ↦ same_otherwise ?_ fun updated ↦ ?_
  · exact hform .single .singleQuoted _ rfl (Token.quoted_lossless _) cursor frontier
  · exact hform .double .doubleQuoted _ rfl (Token.quoted_lossless _) cursor updated
  · exact hform .bare .bareWord _ rfl (Token.run_lossless _) cursor updated

/-- A condition leaves a pair with one pair for each of its parts. -/
theorem same_condition (cursor : Cursor) (frontier : Frontier) :
    Same Builds (condition cursor frontier) (Grammar.condition cursor frontier) := by
  have hrule : Same (Covers .condition cursor.offset Compares) (condition cursor frontier)
      (Grammar.condition cursor frontier) := by
    unfold condition Grammar.condition
    refine same_rule .condition ?_
    refine same_bind (same_token .attributeName (Token.run_lossless _) cursor frontier) ?_
    intro names nameText behind updated hname
    refine same_behind blanks ?_
    intro _ place updated
    refine same_position ?_
    refine same_bind (same_token .operator Token.operator_lossless place updated) ?_
    intro operators operatorText behind updated hoperator
    refine same_behind blanks ?_
    intro _ place updated
    refine same_bind (same_value place updated) ?_
    intro values written behind updated hvalue
    subst hname hoperator
    obtain ⟨value, rfl, rfl⟩ := hvalue
    exact .matched _ _ _ _ ⟨_, _, _, rfl, rfl⟩
  refine hrule.mono ?_
  intro pairs node hcovers
  obtain ⟨text, parts, rfl, name, operator, value, rfl, rfl⟩ := hcovers
  exact ⟨_, rfl, .condition cursor.offset text name operator value⟩

section Items

variable {part : Matcher (List Pair)} {part' : Matcher Node}
  (h : ∀ cursor frontier, Same Builds (part cursor frontier) (part' cursor frontier))
include h

/-- An item behind a comma leaves the pair of the comma and the one of the item. -/
theorem same_furtherItem (cursor : Cursor) (frontier : Frontier) :
    Same Follows (furtherItem part cursor frontier)
      (Grammar.furtherItem part' cursor frontier) := by
  unfold furtherItem Grammar.furtherItem
  refine same_behind blanks ?_
  intro _ place updated
  refine same_bind (same_token .comma (Token.character_lossless _) place updated) ?_
  intro commas _ behind updated hcomma
  refine same_behind blanks ?_
  intro _ place updated
  refine same_adding (h place updated) ?_
  intro pairs node hbuilds
  subst hcomma
  obtain ⟨pair, rfl, hbuilt⟩ := hbuilds
  exact ⟨_, pair, rfl, rfl, hbuilt⟩

/-- The members of a group leave one pair, with their pairs and those of the commas inside. -/
theorem same_members (cursor : Cursor) (frontier : Frontier) :
    Same (Covers .members cursor.offset Lists) (members part cursor frontier)
      (Grammar.members part' cursor frontier) := by
  unfold members Grammar.members
  refine same_rule .members ?_
  refine same_bind (h cursor frontier) ?_
  intro first node behind updated hfirst
  have hmany : Same (fun further nodes ↦ Lists further.flatten nodes)
        (many (furtherItem part) behind updated)
      (many (Grammar.furtherItem part') behind updated) := by
    refine same_many .nil ?_ (same_furtherItem h) behind updated
    intro follows node further nodes hfollows hfurther
    obtain ⟨comma, pair, rfl, hcomma, hbuilt⟩ := hfollows
    have hlists := hbuilt.lists_cons hfurther
    show BuiltAll (withoutPunctuation (comma :: pair :: further.flatten)) (node :: nodes)
    rw [withoutPunctuation_comma hcomma]
    exact hlists
  refine same_bind hmany ?_
  intro further nodes behind updated hfurther
  obtain ⟨pair, rfl, hbuilt⟩ := hfirst
  exact .matched _ _ _ _ (hbuilt.lists_cons hfurther)

/-- The body of a group leaves the pair of the members and the one of the parenthesis. -/
theorem same_body (cursor : Cursor) (frontier : Frontier) :
    Same Encloses (body part cursor frontier) (Grammar.body part' cursor frontier) := by
  unfold body Grammar.body
  refine same_behind blanks ?_
  intro _ place updated
  refine same_bind (same_members h place updated) ?_
  intro lists nodes behind updated hlist
  refine same_behind blanks ?_
  intro _ place updated
  refine same_bind
    (same_token .closeParenthesis (Token.character_lossless _) place updated) ?_
  intro closings _ behind updated hclosing
  subst hclosing
  obtain ⟨text, inner, rfl, hinner⟩ := hlist
  exact .matched _ _ _ _ ⟨_, _, rfl, rfl, rfl, hinner⟩

/-- A group leaves a pair with one pair for each of its parts. -/
theorem same_group (cursor : Cursor) (frontier : Frontier) :
    Same Builds (group (some part) cursor frontier)
      (Grammar.group (some part') cursor frontier) := by
  have hrule : Same (Covers .group cursor.offset (Groups cursor.offset))
      (group (some part) cursor frontier) (Grammar.group (some part') cursor frontier) := by
    unfold group Grammar.group
    refine same_rule .group ?_
    refine same_position ?_
    refine same_bind (same_token .keyword Token.keyword_lossless cursor frontier) ?_
    intro keywords keywordText behind updated hkeyword
    refine same_behind blanks ?_
    intro _ place updated
    refine same_behind position ?_
    intro _ place updated
    refine same_bind (same_token .openParenthesis (Token.character_lossless _) place updated) ?_
    intro openings _ behind updated hopening
    refine same_bind (same_body h behind updated) ?_
    intro list nodes behind updated hlist
    subst hkeyword hopening
    obtain ⟨list, closing, rfl, hrule, hclosing, hlists⟩ := hlist
    exact .matched _ _ _ _ ⟨_, _, list, closing, nodes, rfl, rfl, rfl, hrule, hclosing, hlists, rfl⟩
  refine hrule.mono ?_
  intro pairs node hcovers
  obtain ⟨text, parts, rfl, keyword, opening, list, closing, nodes, rfl, hkeyword, hopening, hlist,
    hclosing, hlists, rfl⟩ := hcovers
  exact ⟨_, rfl, .group cursor.offset text keyword opening list closing nodes hkeyword hopening
    hlist hclosing hlists⟩

end Items

/-- A group that may not be opened is refused alike. -/
theorem same_group_none (cursor : Cursor) (frontier : Frontier) :
    Same Builds (group none cursor frontier) (Grammar.group none cursor frontier) := by
  have hrule : Same (Covers .group cursor.offset fun _ _ ↦ False)
      (group none cursor frontier) (Grammar.group none cursor frontier) := by
    unfold group Grammar.group
    refine same_rule .group ?_
    refine same_position ?_
    refine same_bind (same_token .keyword Token.keyword_lossless cursor frontier) ?_
    intro keywords keywordText behind updated hkeyword
    refine same_behind blanks ?_
    intro _ place updated
    refine same_behind position ?_
    intro _ place updated
    refine same_bind (same_token .openParenthesis (Token.character_lossless _) place updated) ?_
    intro openings _ behind updated hopening
    exact .tooDeep _ _
  refine hrule.mono ?_
  intro pairs node hcovers
  obtain ⟨_, _, _, hfalse⟩ := hcovers
  exact hfalse.elim

/-- An item leaves one pair, and it is built like the node of the item. -/
theorem same_item (levels : Nat) (cursor : Cursor) (frontier : Frontier) :
    Same Builds (item levels cursor frontier) (Grammar.item levels cursor frontier) := by
  induction levels generalizing cursor frontier with
  | zero =>
      exact same_otherwise (same_group_none cursor frontier) (same_condition cursor)
  | succ levels ih =>
      exact same_otherwise (same_group ih cursor frontier) (same_condition cursor)

/-- A whole text leaves one pair, and the first pair inside it is built like the root. -/
theorem same_matchText (levels : Nat) (text : List Char) :
    Same (Covers .whole 0 Roots) (matchText levels text) (Expression.matchText levels text) := by
  unfold matchText expression Expression.matchText Grammar.expression
  show Same (Covers .whole (Cursor.mk 0 text).offset Roots) _ _
  refine same_rule .whole ?_
  refine same_bind (same_item levels ⟨0, text⟩ .start) ?_
  intro roots root behind updated hroot
  refine same_bind (same_token .endOfText Token.endOfText_lossless behind updated) ?_
  intro finishes _ behind updated hfinish
  subst hfinish
  obtain ⟨pair, rfl, hbuilt⟩ := hroot
  exact .matched _ _ _ _ ⟨pair, _, rfl, hbuilt⟩

/-! ## The whole way -/

/-- The pairs of a whole text are turned into its root, with one call more than groups. -/
theorem toRoot_eq {pairs : List Pair} {root : Node} (h : Covers .whole 0 Roots pairs root)
    (given : String) {calls : Nat} (hcalls : root.depth < calls) :
    toRoot given calls pairs = pure root := by
  obtain ⟨text, inner, rfl, pair, finish, rfl, hbuilt⟩ := h
  show toNode given calls pair = pure root
  exact hbuilt.toNode given hcalls

/-- Reading an expression by way of pairs gives what reading it at once does, if there are calls
enough for the groups that may be opened and one more. -/
theorem parse_eq {calls : Nat} (hcalls : groupLimit < calls) (given : String) :
    (parse calls given).run = some (Expression.parse given) := by
  simp only [parse, Expression.parse]
  cases Depth.excess? (Expression.normalize given).toList with
  | some offset => rfl
  | none =>
      have hsame := same_matchText groupLimit (Expression.normalize given).toList
      have houtcome := Grammar.matchText_outcome groupLimit (Expression.normalize given).toList
      generalize matchText groupLimit _ = result at hsame ⊢
      generalize Expression.matchText groupLimit _ = result' at hsame houtcome ⊢
      cases hsame with
      | matched pairs root next frontier hroot =>
          cases houtcome with
          | matched _ _ _ _ _ hdepth _ =>
              have htree := toRoot_eq hroot given (Nat.lt_of_le_of_lt hdepth hcalls)
              simp only [htree]
              rfl
      | failed frontier => rfl
      | tooDeep offset frontier => rfl

end ModelQuery.Pairs
