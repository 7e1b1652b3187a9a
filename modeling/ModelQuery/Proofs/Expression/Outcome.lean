import ModelQuery.Proofs.Expression.Nesting
import ModelQuery.Proofs.Expression.Parts

/-!
# Outcomes of matching an item

What the matcher of an item can return at a place for items. Either it matches, and what it read is
a layout of the node it returns; or the text is refused, and `Refused` lists where that can be and
which constructs are expected there; or a parenthesis opens one group too many, and then the depth
scan reports the same parenthesis. This module settles the case in which no group is opened at the
place, so that a condition is tried behind what was refused of a group.
-/

namespace ModelQuery.Grammar

open Matcher Expression Text

/-- The kinds of tokens that a construct in a refusal stands for. An expression and the members of a
group begin with a keyword or an attribute; any other construct is a token itself. -/
def tokens : Construct → List Construct
  | .whole | .members => [.keyword, .attributeName]
  | construct => [construct]

/-- `Refused limit pieces rest expected` says that a text which begins with the pieces is refused
where the rest of it begins, and that the constructs are expected there. -/
inductive Refused (limit : Nat) : List Piece → List Char → List Construct → Prop where
  | item (level : Nat) (before : List Piece) (rest : List Char) (expected : List Construct) :
      Place limit level before → beginsWith Token.isNameCharacter rest = false →
      expected.flatMap tokens = [.keyword, .attributeName] →
      Refused limit before rest expected
  | name (level : Nat) (before : List Piece) (name gap rest : List Char) :
      Place limit level before → IsName name → ¬ IsKeyword name → IsGap gap →
      ¬ Construct.operator.StandsAt rest →
      Refused limit (before ++ [.token .attributeName name, .gap gap]) rest [.operator]
  | keyword (level : Nat) (before : List Piece) (name gap rest : List Char) :
      Place limit level before → IsKeyword name → IsGap gap →
      ¬ Construct.openParenthesis.StandsAt rest → ¬ Construct.operator.StandsAt rest →
      Refused limit (before ++ [.token .attributeName name, .gap gap]) rest
        [.openParenthesis, .operator]
  | value (level : Nat) (before : List Piece) (name gap symbol after rest : List Char) :
      Place limit level before → IsName name → IsGap gap → IsSymbol symbol → IsGap after →
      NoValue rest →
      Refused limit
        (before ++ [.token .attributeName name, .gap gap, .token .operator symbol, .gap after]) rest
        [.singleQuoted, .doubleQuoted, .bareWord]
  | delimiter (level : Nat) (before : List Piece) (node : Node) (pieces : List Piece)
      (gap rest : List Char) :
      Place limit (level + 1) before → Layout (extent before) node pieces → IsGap gap →
      ¬ Construct.comma.StandsAt rest → ¬ Construct.closeParenthesis.StandsAt rest →
      Refused limit (before ++ pieces ++ [.gap gap]) rest [.comma, .closeParenthesis]
  | finish (node : Node) (pieces : List Piece) (rest : List Char) :
      Layout 0 node pieces → rest ≠ [] → Refused limit pieces rest [.endOfText]

/-- The record says where the text is refused and what is expected there. -/
def RefusedAt (limit : Nat) (text : List Char) (frontier : Frontier) : Prop :=
  ∃ pieces rest, text = written pieces ++ rest ∧ frontier.offset = extent pieces ∧
    Refused limit pieces rest frontier.refused

/-- What the matcher of an item can return at a place, where at most `levels` more groups may be
opened. -/
inductive ItemOutcome (limit levels : Nat) (text : List Char) (before : List Piece)
    (rest : List Char) : Outcome Node × Frontier → Prop where
  | matched (node : Node) (pieces : List Piece) (following : List Char) (frontier : Frontier) :
      Layout (extent before) node pieces → node.depth ≤ levels →
      rest = written pieces ++ following → frontier.offset < extent before + extent pieces →
      ItemOutcome limit levels text before rest
        (.matched node ⟨extent before + extent pieces, following⟩, frontier)
  | noItem :
      beginsWith Token.isNameCharacter rest = false →
      ItemOutcome limit levels text before rest
        (.failed, ⟨extent before, [.keyword, .attributeName]⟩)
  | refused (frontier : Frontier) :
      extent before < frontier.offset → RefusedAt limit text frontier →
      ItemOutcome limit levels text before rest (.failed, frontier)
  | tooDeep (offset : Nat) (frontier : Frontier) :
      Depth.excessFrom? limit .start 0 text = some offset →
      ItemOutcome limit levels text before rest (.tooDeep offset, frontier)

/-- What is recorded when no group was opened where an item is tried: its keyword is missing, or
the parenthesis behind its keyword. -/
inductive HeadRefused (offset : Nat) (rest : List Char) : Frontier → Prop where
  | noKeyword : ¬ Construct.keyword.StandsAt rest → HeadRefused offset rest ⟨offset, [.keyword]⟩
  | noParenthesis (keyword gap following : List Char) :
      Split .keyword rest keyword gap following → ¬ Construct.openParenthesis.StandsAt following →
      HeadRefused offset rest ⟨offset + byteLength (keyword ++ gap), [.openParenthesis]⟩

/-- Where a name and a gap are read after no group was opened, the missing operator is recorded
alone, or beside the missing parenthesis if the name is a keyword. -/
theorem note_operator_of_headRefused {offset : Nat} {rest name gap following : List Char}
    {frontier : Frontier} (hhead : HeadRefused offset rest frontier)
    (hname : Split .attributeName rest name gap following)
    (hends : beginsWith Token.isNameCharacter (gap ++ following) = false) :
    frontier.offset ≤ offset + byteLength (name ++ gap) ∧
      ((¬ IsKeyword name ∧ frontier.note .operator (offset + byteLength (name ++ gap)) =
          ⟨offset + byteLength (name ++ gap), [.operator]⟩) ∨
        (IsKeyword name ∧ ¬ Construct.openParenthesis.StandsAt following ∧
          frontier.note .operator (offset + byteLength (name ++ gap)) =
            ⟨offset + byteLength (name ++ gap), [.openParenthesis, .operator]⟩)) := by
  have hpos : 0 < byteLength name := byteLength_pos hname.isToken.1
  have hlength : byteLength (name ++ gap) = byteLength name + byteLength gap :=
    byteLength_append name gap
  cases hhead with
  | noKeyword hnone =>
      have hlt : offset < offset + byteLength (name ++ gap) := by omega
      refine ⟨Nat.le_of_lt hlt, Or.inl ⟨?_, Frontier.note_of_lt _ hlt⟩⟩
      intro hkeyword
      refine hnone ⟨name, gap ++ following, hkeyword, ?_⟩
      rw [hname.text_eq, List.append_assoc]
  | noParenthesis keyword inner beyond hkeyword hopen =>
      rcases keyword_or_longer hkeyword hname hends with ⟨rfl, rfl, rfl⟩ | ⟨more, hne, rfl, rfl⟩
      · exact ⟨Nat.le_refl _, Or.inr ⟨hkeyword.isToken, hopen, Frontier.note_here _ _ _⟩⟩
      · have hmore : 0 < byteLength more := byteLength_pos hne
        have hlt : offset + byteLength (keyword ++ []) <
            offset + byteLength (keyword ++ more ++ gap) := by
          simp only [List.append_nil, byteLength_append]
          omega
        refine ⟨Nat.le_of_lt hlt, Or.inl ⟨?_, Frontier.note_of_lt _ hlt⟩⟩
        intro hlonger
        exact hne (eq_nil_of_isKeyword_append hkeyword.isToken hlonger)

variable {limit levels level : Nat} {text : List Char} {before : List Piece} {rest : List Char}

/-- What the matcher of a condition returns after no group was opened at the place. -/
theorem condition_outcome (hplace : Place limit level before)
    (htext : text = written before ++ rest) {frontier : Frontier}
    (hhead : HeadRefused (extent before) rest frontier) :
    ItemOutcome limit levels text before rest (condition ⟨extent before, rest⟩ frontier) := by
  have hrun := condition_run (extent before) rest frontier
  generalize condition _ frontier = outcome at hrun ⊢
  cases hrun with
  | noName hnone =>
      -- neither a keyword nor a name: two entries at the offset where both were tried
      cases hhead with
      | noKeyword =>
          rw [Frontier.note_here]
          have hcount : Frontier.countAt ⟨extent before, [.keyword]⟩ (extent before) =
              [Construct.keyword].length := by
            simp [Frontier.countAt]
          rw [hcount, Frontier.refuse_single]
          exact .noItem hnone
      | noParenthesis keyword gap following hkeyword =>
          have hbegin := beginsWith_isName (isName_of_isKeyword hkeyword.isToken)
            (gap ++ following)
          rw [← List.append_assoc, ← hkeyword.text_eq, hnone] at hbegin
          cases hbegin
  | noOperator name gap following hname hends hoperator =>
      have hpos : 0 < byteLength name := byteLength_pos hname.isToken.1
      have hat : extent before + byteLength (name ++ gap) =
          extent (before ++ [.token .attributeName name, .gap gap]) := by
        simp [byteLength_append]
      have hsplit : text =
          written (before ++ [.token .attributeName name, .gap gap]) ++ following := by
        simp [htext, hname.text_eq]
      obtain ⟨-, ⟨hkeyword, hnote⟩ | ⟨hkeyword, hopen, hnote⟩⟩ :=
        note_operator_of_headRefused hhead hname hends
      · rw [hnote]
        refine .refused _ (by simp only [byteLength_append]; omega) ⟨_, _, hsplit, hat, ?_⟩
        exact .name level before name gap following hplace hname.isToken hkeyword hname.isGap
          hoperator
      · rw [hnote]
        refine .refused _ (by simp only [byteLength_append]; omega) ⟨_, _, hsplit, hat, ?_⟩
        exact .keyword level before name gap following hplace hkeyword hname.isGap hopen hoperator
  | noValue name gap following symbol after beyond hname hends hsymbol hvalue =>
      have hpos : 0 < byteLength symbol := byteLength_pos (ne_nil_of_isSymbol hsymbol.isToken)
      have hat : extent before + byteLength (name ++ gap) + byteLength (symbol ++ after) =
          extent (before ++
            [.token .attributeName name, .gap gap, .token .operator symbol, .gap after]) := by
        simp [byteLength_append, Nat.add_assoc]
      have hsplit : text = written (before ++
          [.token .attributeName name, .gap gap, .token .operator symbol, .gap after]) ++
            beyond := by
        simp [htext, hname.text_eq, hsymbol.text_eq]
      -- whatever was refused of a group stands before the value
      have hle := (note_operator_of_headRefused hhead hname hends).1
      have hlt : frontier.offset <
          extent before + byteLength (name ++ gap) + byteLength (symbol ++ after) := by
        rw [byteLength_append symbol]
        omega
      rw [noteValue, Frontier.note_of_lt _ hlt, Frontier.note_here, Frontier.note_here]
      refine .refused _ (by simp only [byteLength_append]; omega) ⟨_, _, hsplit, hat, ?_⟩
      exact .value level before name gap symbol after beyond hplace hname.isToken hname.isGap
        hsymbol.isToken hsymbol.isGap hvalue
  | matched name gap following symbol after beyond quote raw behind updated hname hends hsymbol
      hraw hbeyond hupdated =>
      have hpos : 0 < byteLength raw := byteLength_pos (ne_nil_of_isValue hraw)
      have hle := (note_operator_of_headRefused hhead hname hends).1
      have hfinish : extent before + byteLength (name ++ gap) + byteLength (symbol ++ after) +
          byteLength raw =
          extent before + extent (comparison name gap symbol after quote raw) := by
        simp [comparison, byteLength_append, Nat.add_assoc]
      rw [hfinish]
      refine .matched _ _ _ _ (.condition _ name gap symbol after quote raw hname.isToken
        hname.isGap hsymbol.isToken hsymbol.isGap hraw) (Nat.zero_le _) ?_ (by omega)
      simp [comparison, hname.text_eq, hsymbol.text_eq, hbeyond]

/-- After a group was opened and given up, the condition at the same place fails at the parenthesis,
and the refusal inside the group stays. -/
theorem condition_failed_after_group {offset : Nat} {keyword gap following : List Char}
    {frontier : Frontier} (hkeyword : Split .keyword rest keyword gap ('(' :: following))
    (hfrontier : offset + byteLength (keyword ++ gap) < frontier.offset) :
    condition ⟨offset, rest⟩ frontier = (.failed, frontier) := by
  have hnone : ∀ name inner beyond, Split .attributeName rest name inner beyond →
      beginsWith Token.isNameCharacter (inner ++ beyond) = false →
      name = keyword ∧ inner = gap ∧ beyond = '(' :: following := by
    intro name inner beyond hname hends
    rcases keyword_or_longer hkeyword hname hends with h | ⟨more, hne, hlonger, rfl⟩
    · exact h
    · exact absurd hname (not_longer_than_keyword hkeyword hlonger hne)
  have hrun := condition_run offset rest frontier
  generalize condition _ frontier = outcome at hrun ⊢
  cases hrun with
  | noName hbegin =>
      have := beginsWith_isName (isName_of_isKeyword hkeyword.isToken) (gap ++ '(' :: following)
      rw [← List.append_assoc, ← hkeyword.text_eq, hbegin] at this
      cases this
  | noOperator name inner beyond hname hends =>
      obtain ⟨rfl, rfl, rfl⟩ := hnone _ _ _ hname hends
      rw [Frontier.note_of_gt _ hfrontier]
  | noValue name inner beyond symbol after _ hname hends hsymbol =>
      obtain ⟨rfl, rfl, rfl⟩ := hnone _ _ _ hname hends
      exact absurd ⟨symbol, after ++ _, hsymbol.isToken, by
        rw [hsymbol.text_eq, List.append_assoc]⟩ (not_operator_of_parenthesis following)
  | matched name inner beyond symbol after _ quote raw behind updated hname hends hsymbol =>
      obtain ⟨rfl, rfl, rfl⟩ := hnone _ _ _ hname hends
      exact absurd ⟨symbol, after ++ _, hsymbol.isToken, by
        rw [hsymbol.text_eq, List.append_assoc]⟩ (not_operator_of_parenthesis following)

end ModelQuery.Grammar
