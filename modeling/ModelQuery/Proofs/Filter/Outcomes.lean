import ModelQuery.Proofs.Expression.Exactness
import ModelQuery.Proofs.Expression.Pairs
import ModelQuery.Proofs.Expression.Refusal
import ModelQuery.Proofs.Filter.Translation

/-!
# How reading a filter can end

A text describes a filter, nests too deeply, goes on differently from what was expected, or names an
attribute that cannot be resolved. `Ending` lists the four; the other faults of an expression belong
to pairs and trees that no text has. An attribute is reported only if the whole text was read, and
then it is the first one in the text that cannot be resolved: the filters of the members of a group
are made in the order in which the members are written (`translates_ofNode`).
-/

namespace ModelQuery

/-! ## Where the depth scan stops -/

namespace Depth

/-- Only an opening parenthesis makes the level greater. -/
theorem eq_of_level_lt {state : State} {c : Char} (h : state.level < (state.step c).level) :
    c = '(' := by
  unfold State.step at h
  split at h
  next quote =>
    split at h
    next => exact absurd h (Nat.lt_irrefl _)
    next => exact absurd h (Nat.lt_irrefl _)
  next =>
    split at h
    next => exact absurd h (Nat.lt_irrefl _)
    next =>
      split at h
      next hopen => exact hopen
      next =>
        split at h
        next => exact absurd h (Nat.not_lt.mpr (Nat.sub_le _ _))
        next => exact absurd h (Nat.lt_irrefl _)

/-- What the scan reports is the offset of an opening parenthesis. -/
theorem exists_of_excessFrom? {limit offset found : Nat} {state : State} {text : List Char}
    (hlevel : state.level ≤ limit) (h : excessFrom? limit state offset text = some found) :
    ∃ before rest, text = before ++ '(' :: rest ∧ found = offset + Text.byteLength before := by
  induction text generalizing state offset with
  | nil => cases h
  | cons c text ih =>
      simp only [excessFrom?] at h
      split at h
      next hexcess =>
        obtain rfl := eq_of_level_lt (Nat.lt_of_le_of_lt hlevel hexcess)
        obtain rfl := Option.some.inj h
        exact ⟨[], text, rfl, rfl⟩
      next hnext =>
        obtain ⟨before, rest, rfl, rfl⟩ := ih (Nat.le_of_not_lt hnext) h
        refine ⟨c :: before, rest, rfl, ?_⟩
        rw [Text.byteLength, Nat.add_assoc]

end Depth

namespace Filter

open Expression (Node Piece Layout Layouts written normalize comparison opening separator closing)

/-! ## Attributes that cannot be resolved -/

/-- No attribute of the catalogue has the name, and it is no literal within range. -/
def IsUnresolvable (name : String) : Prop :=
  Attribute.ofName? name = none ∧ AttributeId.ofLiteral? name = none

instance (name : String) : Decidable (IsUnresolvable name) :=
  inferInstanceAs (Decidable (_ ∧ _))

/-- A name that cannot be resolved is not resolved. -/
theorem IsUnresolvable.resolve_eq {name : String} (h : IsUnresolvable name) :
    AttributeId.resolve name = .error (.unknownAttribute name) := by
  rw [AttributeId.resolve, h.1, h.2]

/-- The attribute that the piece is, if it cannot be resolved. -/
def unresolvable? : Piece → Option String
  | .token .attributeName text =>
      if IsUnresolvable (String.ofList text) then some (String.ofList text) else none
  | _ => none

/-- The result is the attribute, if there is one that cannot be resolved, and else no error. -/
inductive Translates {α : Type} : Option String → Except Error α → Prop where
  | ok (value : α) : Translates none (.ok value)
  | unknownAttribute (name : String) :
      Translates (some name) (.error (.unknownAttribute name))

/-- Of two steps in a row, the first that comes upon such an attribute reports it. -/
theorem Translates.bind {α β : Type} {first? second? : Option String} {first : Except Error α}
    {second : α → Except Error β} (h : Translates first? first)
    (h' : ∀ value, Translates second? (second value)) :
    Translates (first?.or second?) (first >>= second) := by
  cases h with
  | ok value => exact h' value
  | unknownAttribute name => exact .unknownAttribute name

/-- What is made of the result does not matter. -/
theorem Translates.map {α β : Type} {name? : Option String} {result : Except Error α} (f : α → β)
    (h : Translates name? result) : Translates name? (f <$> result) := by
  cases h with
  | ok value => exact .ok (f value)
  | unknownAttribute name => exact .unknownAttribute name

/-- A name is resolved unless it cannot be. -/
theorem translates_resolve (name : List Char) :
    Translates (unresolvable? (.token .attributeName name))
      (AttributeId.resolve (String.ofList name)) := by
  by_cases h : IsUnresolvable (String.ofList name)
  · have hpiece : unresolvable? (.token .attributeName name) = some (String.ofList name) := if_pos h
    rw [hpiece, h.resolve_eq]
    exact .unknownAttribute _
  · have hpiece : unresolvable? (.token .attributeName name) = none := if_neg h
    rw [hpiece, AttributeId.resolve]
    cases hname : Attribute.ofName? (String.ofList name) with
    | some known => exact .ok known.id
    | none =>
        cases hliteral : AttributeId.ofLiteral? (String.ofList name) with
        | some id => exact .ok id
        | none => exact absurd ⟨hname, hliteral⟩ h

/-- A gap or a token of another kind is no attribute. -/
theorem findSome?_unresolvable {pieces : List Piece}
    (h : ∀ text, .token .attributeName text ∉ pieces) : pieces.findSome? unresolvable? = none := by
  refine List.findSome?_eq_none_iff.mpr ?_
  intro piece hpiece
  unfold unresolvable?
  split
  next text => exact absurd hpiece (h text)
  next => rfl

mutual

/-- The filter of a written node is made, unless one of its attributes cannot be resolved. -/
theorem translates_ofNode {offset : Nat} {node : Node} {pieces : List Piece}
    (h : Layout offset node pieces) (text : String) :
    Translates (pieces.findSome? unresolvable?) (ofNode AttributeId.resolve text node) := by
  cases h with
  | condition _ name before symbol after quote raw _ _ hsymbol =>
      obtain ⟨operator, -, rfl⟩ := hsymbol
      -- the operator exists, so only the attribute can be at fault
      have hothers : [.gap before, .token .operator operator.symbol.toList, .gap after,
          .token quote.construct raw].findSome? unresolvable? = none := by
        refine findSome?_unresolvable ?_
        cases quote <;> simp [Quote.construct]
      rw [ofNode, comparison, ← List.singleton_append, List.findSome?_append, hothers,
        List.findSome?_singleton]
      refine (translates_resolve name).bind ?_
      intro id
      rw [String.ofList_toList, Operator.ofSymbol?_symbol]
      exact .ok _
  | group _ keyword before inner items pieces after hkeyword _ _ hitems =>
      obtain ⟨combinator, -, hfold⟩ := hkeyword
      have hopening : (opening keyword before inner).findSome? unresolvable? = none :=
        findSome?_unresolvable (by simp [opening])
      have hclosing : (closing after).findSome? unresolvable? = none :=
        findSome?_unresolvable (by simp [closing])
      rw [ofNode, Combinator.ofKeyword?_of_fold hfold, List.findSome?_append,
        List.findSome?_append, hopening, hclosing, Option.none_or, Option.or_none]
      exact (translates_ofNodes hitems text).map _

/-- The filters of written nodes are made, unless one of their attributes cannot be resolved. -/
theorem translates_ofNodes {offset : Nat} {nodes : List Node} {pieces : List Piece}
    (h : Layouts offset nodes pieces) (text : String) :
    Translates (pieces.findSome? unresolvable?) (ofNodes AttributeId.resolve text nodes) := by
  cases h with
  | last _ node pieces hnode =>
      rw [ofNodes, ← Option.or_none (o := pieces.findSome? unresolvable?)]
      refine (translates_ofNode hnode text).bind ?_
      intro filter
      exact .ok [filter]
  | more _ node first before after nodes pieces hnode _ _ hnodes =>
      have hseparator : (separator before after).findSome? unresolvable? = none :=
        findSome?_unresolvable (by simp [separator])
      rw [ofNodes, List.findSome?_append, List.findSome?_append, hseparator, Option.or_none]
      refine (translates_ofNode hnode text).bind ?_
      intro filter
      exact (translates_ofNodes hnodes text).map (filter :: ·)

end

/-- A piece is reported exactly if it is an attribute that cannot be resolved. -/
theorem unresolvable?_eq_some_iff {piece : Piece} {text : List Char} :
    unresolvable? piece = some (String.ofList text) ↔
      piece = .token .attributeName text ∧ IsUnresolvable (String.ofList text) := by
  constructor
  · intro h
    unfold unresolvable? at h
    split at h
    next found =>
      split at h
      next hfound =>
        obtain rfl : found = text := String.ofList_injective (Option.some.inj h)
        exact ⟨rfl, hfound⟩
      next => cases h
    next => cases h
  · rintro ⟨rfl, h⟩
    exact if_pos h

/-- The first piece that is reported is the first attribute that cannot be resolved. -/
theorem findSome?_unresolvable_eq_some_iff {pieces : List Piece} {text : List Char} :
    pieces.findSome? unresolvable? = some (String.ofList text) ↔
      ∃ before after, pieces = before ++ .token .attributeName text :: after ∧
        IsUnresolvable (String.ofList text) ∧
        ∀ earlier, .token .attributeName earlier ∈ before →
          ¬ IsUnresolvable (String.ofList earlier) := by
  rw [List.findSome?_eq_some_iff]
  constructor
  · rintro ⟨before, piece, after, rfl, hpiece, hbefore⟩
    obtain ⟨rfl, h⟩ := unresolvable?_eq_some_iff.mp hpiece
    refine ⟨before, after, rfl, h, ?_⟩
    intro earlier hmem hearlier
    have hnone := hbefore _ hmem
    rw [unresolvable?_eq_some_iff.mpr ⟨rfl, hearlier⟩] at hnone
    cases hnone
  · rintro ⟨before, after, rfl, h, hbefore⟩
    refine ⟨before, _, after, rfl, unresolvable?_eq_some_iff.mpr ⟨rfl, h⟩, ?_⟩
    intro piece hmem
    cases hpiece : unresolvable? piece with
    | none => rfl
    | some name =>
        rw [← String.ofList_toList (s := name)] at hpiece
        obtain ⟨rfl, hearlier⟩ := unresolvable?_eq_some_iff.mp hpiece
        exact absurd hearlier (hbefore _ hmem)

/-! ## The endings -/

/-- What reading a text can end in: a filter, or one of three errors. -/
inductive Ending (given : String) : Except Error Filter → Prop where
  | filter (filter : Filter) : Ending given (.ok filter)
  | tooDeep (before rest : List Char) :
      (normalize given).toList = before ++ '(' :: rest →
      Ending given (.error (.expression ⟨given, .tooDeep, 1, Text.byteLength before + 1,
        Text.byteLength before⟩))
  | expected (constructs shown : List Construct) (before rest : List Char) :
      (ExpressionFault.expected constructs).detail =
        "expected " ++ Construct.alternatives (shown.map Construct.words) → shown ≠ [] →
      (normalize given).toList = before ++ rest →
      Ending given (.error (.expression ⟨given, .expected constructs, 1, before.length + 1,
        Text.byteLength before⟩))
  | unknownAttribute (name : String) : Ending given (.error (.unknownAttribute name))

/-- The text is an expression, and the pieces are the ones that it is written as. -/
def IsWritten (given : String) (pieces : List Piece) : Prop :=
  ∃ tree, Expression.parse given = .ok tree ∧ Layout 0 tree.root pieces ∧
    written pieces = (normalize given).toList

/-- How reading the text ends, whichever way it goes. -/
structure Endings (given : String) : Prop where
  /-- There are four ways. -/
  ending : Ending given (parse given)
  /-- They are the same by way of pairs, where no pair is missing or unexpected. -/
  byPairs : ∀ calls, groupLimit < calls → (parseByPairs calls given).run = some (parse given)
  /-- An attribute is reported if the text is an expression with one that cannot be resolved. -/
  reported_iff : (∃ name, parse given = .error (.unknownAttribute name)) ↔
    ∃ pieces text, IsWritten given pieces ∧ .token .attributeName text ∈ pieces ∧
      IsUnresolvable (String.ofList text)
  /-- It is the first such attribute in the text, as it is written there. -/
  first_iff : ∀ text, parse given = .error (.unknownAttribute (String.ofList text)) ↔
    ∃ before after, IsWritten given (before ++ .token .attributeName text :: after) ∧
      IsUnresolvable (String.ofList text) ∧
      ∀ earlier, .token .attributeName earlier ∈ before → ¬ IsUnresolvable (String.ofList earlier)

/-- A text that is an expression has a filter, unless one of its attributes cannot be resolved. -/
theorem translates_parse {given : String} {pieces : List Piece} (h : IsWritten given pieces) :
    Translates (pieces.findSome? unresolvable?) (parse given) := by
  obtain ⟨tree, hparse, hlayout, -⟩ := h
  unfold parse
  rw [hparse]
  exact translates_ofNode hlayout tree.text

/-- A text that is no expression is refused, since it nests too deeply or for want of something
else. -/
theorem ending_of_error {given : String} {error : Error}
    (h : Expression.parse given = .error error) : Ending given (.error error) := by
  cases hscan : Depth.excess? (normalize given).toList with
  | some offset =>
      have hparse := Expression.parse_of_excess? hscan
      obtain ⟨before, rest, htext, hoffset⟩ :=
        Depth.exists_of_excessFrom? (Nat.zero_le groupLimit) hscan
      rw [Nat.zero_add] at hoffset
      rw [hparse, hoffset] at h
      obtain rfl := Except.error.inj h
      exact .tooDeep before rest htext
  | none =>
      have houtcome := Grammar.matchText_outcome groupLimit (normalize given).toList
      generalize hmatch : Expression.matchText groupLimit _ = outcome at houtcome
      cases houtcome with
      | matched root pieces next frontier =>
          unfold Expression.parse at h
          simp only [hscan, hmatch] at h
          cases h
      | tooDeep offset frontier hdeep =>
          rw [Depth.excess?, hdeep] at hscan
          cases hscan
      | refused frontier hrefused =>
          obtain ⟨pieces, rest, htext, hoffset, hrefused⟩ := hrefused
          obtain ⟨offset, constructs⟩ := frontier
          obtain rfl : offset = Expression.extent pieces := hoffset
          have hprecise := hrefused.precise htext (Grammar.parse_of_failed hscan hmatch)
          rw [hprecise.parse_eq] at h
          obtain rfl := Except.error.inj h
          refine .expected constructs _ _ rest hprecise.detail_eq ?_ htext
          intro hnil
          exact hprecise.shown_ne_nil (by rw [hnil]; rfl)

/-- What is no expression has no attributes that could be reported. -/
theorem ne_unknownAttribute_of_error {given : String} {error : Error}
    (h : Expression.parse given = .error error) (name : String) :
    error ≠ .unknownAttribute name := by
  rintro rfl
  unfold Expression.parse at h
  simp only at h
  split at h
  next => cases h
  next =>
    split at h
    next => cases h
    next => cases h
    next => cases h

/-- A text is written as some pieces, or it is refused as an expression. -/
theorem isWritten_or_error (given : String) :
    (∃ pieces, IsWritten given pieces) ∨
      ∃ error, Expression.parse given = .error error ∧ parse given = .error error := by
  cases hparse : Expression.parse given with
  | ok tree =>
      obtain ⟨-, -, pieces, hlayout, hwritten⟩ := Expression.layout_of_parse hparse
      exact Or.inl ⟨pieces, tree, hparse, hlayout, hwritten⟩
  | error error =>
      refine Or.inr ⟨error, rfl, ?_⟩
      unfold parse
      rw [hparse]
      rfl

/-- An attribute is reported where the text is an expression, and it is the first one that cannot
be resolved. -/
theorem parse_eq_unknownAttribute_iff (given : String) (text : List Char) :
    parse given = .error (.unknownAttribute (String.ofList text)) ↔
      ∃ pieces, IsWritten given pieces ∧
        pieces.findSome? unresolvable? = some (String.ofList text) := by
  constructor
  · intro h
    rcases isWritten_or_error given with ⟨pieces, hwritten⟩ | ⟨error, hparse, herror⟩
    · have htranslates := translates_parse hwritten
      rw [h] at htranslates
      generalize hname : pieces.findSome? unresolvable? = name? at htranslates
      cases htranslates with
      | unknownAttribute => exact ⟨pieces, hwritten, hname⟩
    · rw [h] at herror
      exact absurd (Except.error.inj herror).symm (ne_unknownAttribute_of_error hparse _)
  · rintro ⟨pieces, hwritten, hname⟩
    have htranslates := translates_parse hwritten
    rw [hname] at htranslates
    generalize parse given = result at htranslates ⊢
    cases htranslates with
    | unknownAttribute => rfl

/-- A text without a filter is no expression, or it has an attribute that is not resolved. -/
theorem error_cases {text : String} {error : Error} (h : parse text = .error error) :
    (∃ found, error = .expression found) ∨
      ∃ name, error = .unknownAttribute name ∧ AttributeId.resolve name = .error error := by
  rcases isWritten_or_error text with ⟨pieces, hwritten⟩ | ⟨found, hread, hfound⟩
  · have htranslates := translates_parse hwritten
    rw [h] at htranslates
    generalize hfirst : pieces.findSome? unresolvable? = first? at htranslates
    cases htranslates with
    | unknownAttribute name =>
        rw [← name.ofList_toList] at hfirst
        obtain ⟨_, _, _, hname, -⟩ := findSome?_unresolvable_eq_some_iff.mp hfirst
        rw [name.ofList_toList] at hname
        exact Or.inr ⟨name, rfl, hname.resolve_eq⟩
  · obtain rfl := Except.error.inj (hfound.symm.trans h)
    cases ending_of_error hread with
    | tooDeep => exact Or.inl ⟨_, rfl⟩
    | expected => exact Or.inl ⟨_, rfl⟩
    | unknownAttribute name => exact absurd rfl (ne_unknownAttribute_of_error hread name)

/-- Reading a filter ends in one of four ways, whatever the text is; the way by pairs is no other;
and an attribute is reported exactly if the text is an expression with one that cannot be resolved,
and then it is the first. -/
theorem endings (given : String) : Endings given where
  ending := by
    rcases isWritten_or_error given with ⟨pieces, hwritten⟩ | ⟨error, hparse, herror⟩
    · have htranslates := translates_parse hwritten
      generalize pieces.findSome? unresolvable? = name?, parse given = result at htranslates ⊢
      cases htranslates with
      | ok filter => exact .filter filter
      | unknownAttribute name => exact .unknownAttribute name
    · rw [herror]
      exact ending_of_error hparse
  byPairs := by
    intro calls hcalls
    have hpairs := Pairs.parse_eq hcalls given
    unfold parseByPairs parse
    rw [ExceptT.run_bind, hpairs]
    cases Expression.parse given with
    | ok tree => rfl
    | error error => rfl
  reported_iff := by
    constructor
    · rintro ⟨name, h⟩
      rw [← String.ofList_toList (s := name)] at h
      obtain ⟨pieces, hwritten, hfirst⟩ := (parse_eq_unknownAttribute_iff given _).mp h
      obtain ⟨before, after, rfl, hunresolvable, -⟩ := findSome?_unresolvable_eq_some_iff.mp hfirst
      exact ⟨_, name.toList, hwritten, List.mem_append_right _ List.mem_cons_self, hunresolvable⟩
    · rintro ⟨pieces, text, hwritten, hmem, hunresolvable⟩
      have hsome : (pieces.findSome? unresolvable?).isSome := by
        refine List.findSome?_isSome_iff.mpr ⟨_, hmem, ?_⟩
        rw [unresolvable?_eq_some_iff.mpr ⟨rfl, hunresolvable⟩]
        rfl
      obtain ⟨name, hname⟩ := Option.isSome_iff_exists.mp hsome
      rw [← String.ofList_toList (s := name)] at hname
      exact ⟨_, (parse_eq_unknownAttribute_iff given _).mpr ⟨pieces, hwritten, hname⟩⟩
  first_iff := by
    intro text
    rw [parse_eq_unknownAttribute_iff]
    constructor
    · rintro ⟨pieces, hwritten, hfirst⟩
      obtain ⟨before, after, rfl, h⟩ := findSome?_unresolvable_eq_some_iff.mp hfirst
      exact ⟨before, after, hwritten, h⟩
    · rintro ⟨before, after, hwritten, h⟩
      exact ⟨_, hwritten, findSome?_unresolvable_eq_some_iff.mpr ⟨before, after, rfl, h⟩⟩

example : parse "0x1 a" = .error (.expression ⟨"0x1 a", .expected [.operator], 1, 5, 4⟩) := by
  rfl

end Filter

end ModelQuery
