import ModelQuery.Proofs.Expression.Matching

/-!
# Conditions and the heads of groups

Every way in which the attempt to match a condition or a group can go. `ConditionRun` and `GroupRun`
list them with all that is known in each: which tokens were found, where the next one is missing,
and what becomes of the record of refusals. `condition_run` and `group_run` say that there is no
other way. Where a group and a condition are tried at the same place, `keyword_or_longer` says how
the keyword and the name that they find there are related.
-/

namespace ModelQuery.Grammar

open Matcher Expression Text

/-- The record after no value of any form was found at the offset. -/
def noteValue (offset : Nat) (frontier : Frontier) : Frontier :=
  ((frontier.note .singleQuoted offset).note .doubleQuoted offset).note .bareWord offset

/-- No value of any form stands at the beginning of the text. -/
def NoValue (text : List Char) : Prop :=
  ∀ quote : Quote, ¬ quote.construct.StandsAt text

/-- The ways in which an attempt to match a value can go. -/
inductive ValueRun (offset : Nat) (text : List Char) (frontier : Frontier) :
    Outcome WrittenValue × Frontier → Prop where
  | matched (quote : Quote) (raw rest : List Char) (updated : Frontier) :
      quote.construct.IsToken raw → text = raw ++ rest →
      updated.offset ≤ max frontier.offset offset →
      ValueRun offset text frontier
        (.matched ⟨quote, String.ofList raw⟩ ⟨offset + byteLength raw, rest⟩, updated)
  | failed : NoValue text → ValueRun offset text frontier (.failed, noteValue offset frontier)

/-- A value is matched in one of its forms, or no form stands there. -/
theorem value_run (offset : Nat) (text : List Char) (frontier : Frontier) :
    ValueRun offset text frontier (value ⟨offset, text⟩ frontier) := by
  unfold value
  cases hsingle : Token.quoted '\'' text with
  | some result =>
      obtain ⟨raw, rest⟩ := result
      obtain ⟨htoken, htext⟩ := Construct.scanner_sound .singleQuoted hsingle
      simp only [otherwise, map_apply, andThen, token_matched hsingle, succeed]
      exact .matched .single raw rest _ htoken htext (by omega)
  | none =>
      cases hdouble : Token.quoted '"' text with
      | some result =>
          obtain ⟨raw, rest⟩ := result
          obtain ⟨htoken, htext⟩ := Construct.scanner_sound .doubleQuoted hdouble
          simp only [otherwise, map_apply, andThen, token_failed hsingle, token_matched hdouble,
            succeed]
          exact .matched .double raw rest _ htoken htext (Nat.le_of_eq (Frontier.offset_note _ _ _))
      | none =>
          cases hbare : Token.bareWord text with
          | some result =>
              obtain ⟨raw, rest⟩ := result
              obtain ⟨htoken, htext⟩ := Construct.scanner_sound .bareWord hbare
              simp only [otherwise, map_apply, andThen, token_failed hsingle, token_failed hdouble,
                token_matched hbare, succeed]
              exact .matched .bare raw rest _ htoken htext
                (by rw [Frontier.offset_note, Frontier.offset_note]; omega)
          | none =>
              simp only [otherwise, map_apply, andThen, token_failed hsingle, token_failed hdouble,
                token_failed hbare]
              refine .failed ?_
              intro quote
              cases quote with
              | single => exact Construct.scanner_none .singleQuoted hsingle
              | double => exact Construct.scanner_none .doubleQuoted hdouble
              | bare => exact Construct.scanner_none .bareWord hbare

/-- The text begins with a token of the kind, then a gap that is as long as it can be, and then the
rest. -/
structure Split (kind : Construct) (text token gap rest : List Char) : Prop where
  isToken : kind.IsToken token
  isGap : IsGap gap
  text_eq : text = token ++ gap ++ rest
  gap_ends : beginsWith isBlank rest = false

/-- A token that is read splits the text, and the gap behind it is the longest one. -/
theorem exists_split (kind : Construct) {text token behind : List Char}
    (h : kind.scanner text = some (token, behind)) :
    ∃ gap rest, behind = gap ++ rest ∧ Split kind text token gap rest := by
  obtain ⟨htoken, htext⟩ := Construct.scanner_sound kind h
  obtain ⟨gap, rest, rfl, hgap, hblank⟩ := exists_gap behind
  refine ⟨gap, rest, rfl, htoken, hgap, ?_, hblank⟩
  rw [List.append_assoc, htext]

/-- The ways in which an attempt to match a condition can go. The name that is found is the longest
one. -/
inductive ConditionRun (offset : Nat) (text : List Char) (frontier : Frontier) :
    Outcome Node × Frontier → Prop where
  | noName :
      beginsWith Token.isNameCharacter text = false →
      ConditionRun offset text frontier
        (.failed, (frontier.note .attributeName offset).refuse .condition offset
          (frontier.countAt offset))
  | noOperator (name before rest : List Char) :
      Split .attributeName text name before rest →
      beginsWith Token.isNameCharacter (before ++ rest) = false →
      ¬ Construct.operator.StandsAt rest →
      ConditionRun offset text frontier
        (.failed, frontier.note .operator (offset + byteLength (name ++ before)))
  | noValue (name before rest symbol after following : List Char) :
      Split .attributeName text name before rest →
      beginsWith Token.isNameCharacter (before ++ rest) = false →
      Split .operator rest symbol after following →
      NoValue following →
      ConditionRun offset text frontier
        (.failed, noteValue (offset + byteLength (name ++ before) + byteLength (symbol ++ after))
          frontier)
  | matched (name before rest symbol after following : List Char) (quote : Quote)
      (raw behind : List Char) (updated : Frontier) :
      Split .attributeName text name before rest →
      beginsWith Token.isNameCharacter (before ++ rest) = false →
      Split .operator rest symbol after following →
      quote.construct.IsToken raw →
      following = raw ++ behind →
      updated.offset ≤ max frontier.offset
        (offset + byteLength (name ++ before) + byteLength (symbol ++ after)) →
      ConditionRun offset text frontier
        (.matched
          (.condition (String.ofList name) (String.ofList symbol) ⟨quote, String.ofList raw⟩
            (offset + byteLength (name ++ before)))
          ⟨offset + byteLength (name ++ before) + byteLength (symbol ++ after) + byteLength raw,
            behind⟩,
          updated)

/-- A condition is matched, or one of its three parts is missing. -/
theorem condition_run (offset : Nat) (text : List Char) (frontier : Frontier) :
    ConditionRun offset text frontier (condition ⟨offset, text⟩ frontier) := by
  unfold condition
  cases hname : Token.attributeName text with
  | none =>
      simp only [named, bind_apply, andThen, token_failed hname]
      exact .noName (Token.run_none hname)
  | some result =>
      obtain ⟨name, behind⟩ := result
      have hends := Token.run_ends hname
      obtain ⟨before, rest, rfl, hsplit⟩ := exists_split .attributeName hname
      -- everything that is refused from here on lies behind the beginning of the condition
      have hpos : 0 < byteLength name := byteLength_pos hsplit.isToken.1
      have hat : offset + byteLength name + byteLength before =
          offset + byteLength (name ++ before) := by
        rw [byteLength_append]
        omega
      cases hsymbol : Token.operator rest with
      | none =>
          have hrefuse : offset <
              (frontier.note .operator (offset + byteLength (name ++ before))).offset := by
            rw [Frontier.offset_note]
            omega
          simp only [named, bind_apply, andThen, token_matched hname,
            blanks_gap hsplit.isGap hsplit.gap_ends, position_apply, token_failed hsymbol, hat,
            Frontier.refuse_of_gt _ _ hrefuse]
          exact .noOperator name before rest hsplit hends
            (Construct.scanner_none .operator hsymbol)
      | some result =>
          obtain ⟨symbol, beyond⟩ := result
          obtain ⟨after, following, rfl, hsplit'⟩ := exists_split .operator hsymbol
          have hat' : offset + byteLength (name ++ before) + byteLength symbol + byteLength after =
              offset + byteLength (name ++ before) + byteLength (symbol ++ after) := by
            rw [byteLength_append symbol]
            omega
          simp only [named, bind_apply, andThen, token_matched hname,
            blanks_gap hsplit.isGap hsplit.gap_ends, position_apply, token_matched hsymbol,
            blanks_gap hsplit'.isGap hsplit'.gap_ends, hat, hat']
          have hvalue := value_run
            (offset + byteLength (name ++ before) + byteLength (symbol ++ after)) following frontier
          generalize value _ frontier = outcome at hvalue ⊢
          cases hvalue with
          | matched quote raw behind updated hraw hrest hoffset =>
              exact .matched name before rest symbol after following quote raw behind updated hsplit
                hends hsplit' hraw hrest hoffset
          | failed hnone =>
              have hrefuse : offset < (noteValue
                  (offset + byteLength (name ++ before) + byteLength (symbol ++ after))
                  frontier).offset := by
                simp only [noteValue, Frontier.offset_note]
                omega
              simp only [Frontier.refuse_of_gt _ _ hrefuse]
              exact .noValue name before rest symbol after following hsplit hends hsplit' hnone

/-- The ways in which an attempt to match a group can go, given what the matcher of the members
and the closing parenthesis does. -/
inductive GroupRun (item? : Option (Matcher Node)) (offset : Nat) (text : List Char)
    (frontier : Frontier) : Outcome Node × Frontier → Prop where
  | noKeyword :
      ¬ Construct.keyword.StandsAt text →
      GroupRun item? offset text frontier
        (.failed, (frontier.note .keyword offset).refuse .group offset (frontier.countAt offset))
  | noParenthesis (keyword before rest : List Char) :
      Split .keyword text keyword before rest →
      ¬ Construct.openParenthesis.StandsAt rest →
      GroupRun item? offset text frontier
        (.failed, frontier.note .openParenthesis (offset + byteLength (keyword ++ before)))
  | tooDeep (keyword before following : List Char) :
      item? = none →
      Split .keyword text keyword before ('(' :: following) →
      GroupRun item? offset text frontier
        (.tooDeep (offset + byteLength (keyword ++ before)), frontier)
  | matched (item : Matcher Node) (keyword before following : List Char) (items : List Node)
      (next : Cursor) (updated : Frontier) :
      item? = some item →
      Split .keyword text keyword before ('(' :: following) →
      body item ⟨offset + byteLength (keyword ++ before) + byteLength ['('], following⟩ frontier =
        (.matched items next, updated) →
      GroupRun item? offset text frontier
        (.matched (.group (String.ofList keyword) items offset) next, updated)
  | bodyFailed (item : Matcher Node) (keyword before following : List Char)
      (updated : Frontier) :
      item? = some item →
      Split .keyword text keyword before ('(' :: following) →
      body item ⟨offset + byteLength (keyword ++ before) + byteLength ['('], following⟩ frontier =
        (.failed, updated) →
      GroupRun item? offset text frontier
        (.failed, updated.refuse .group offset (frontier.countAt offset))
  | bodyTooDeep (item : Matcher Node) (keyword before following : List Char) (deep : Nat)
      (updated : Frontier) :
      item? = some item →
      Split .keyword text keyword before ('(' :: following) →
      body item ⟨offset + byteLength (keyword ++ before) + byteLength ['('], following⟩ frontier =
        (.tooDeep deep, updated) →
      GroupRun item? offset text frontier (.tooDeep deep, updated)

/-- A parenthesis that is read is the first character of the text. -/
theorem eq_of_character {expected : Char} {text token rest : List Char}
    (h : Token.character expected text = some (token, rest)) :
    text = expected :: rest ∧ token = [expected] := by
  cases text with
  | nil => simp [Token.character] at h
  | cons c text =>
      simp only [Token.character] at h
      split at h
      next hc => cases h; exact ⟨by rw [hc], by rw [hc]⟩
      next => exact absurd h (by simp)

/-- A group has no keyword, no parenthesis behind its keyword, or a body. -/
theorem group_run (item? : Option (Matcher Node)) (offset : Nat) (text : List Char)
    (frontier : Frontier) :
    GroupRun item? offset text frontier (group item? ⟨offset, text⟩ frontier) := by
  unfold group
  cases hkeyword : Token.keyword text with
  | none =>
      simp only [named, bind_apply, andThen, position_apply, token_failed hkeyword]
      exact .noKeyword (Construct.scanner_none .keyword hkeyword)
  | some result =>
      obtain ⟨keyword, behind⟩ := result
      obtain ⟨gap, rest, rfl, hsplit⟩ := exists_split .keyword hkeyword
      have hpos : 0 < byteLength keyword := byteLength_pos (isName_of_isKeyword hsplit.isToken).1
      have hat : offset + byteLength keyword + byteLength gap =
          offset + byteLength (keyword ++ gap) := by
        rw [byteLength_append]
        omega
      cases hopen : Token.character '(' rest with
      | none =>
          have hrefuse : offset <
              (frontier.note .openParenthesis (offset + byteLength (keyword ++ gap))).offset := by
            rw [Frontier.offset_note]
            omega
          simp only [named, bind_apply, andThen, token_matched hkeyword,
            blanks_gap hsplit.isGap hsplit.gap_ends, position_apply, token_failed hopen, hat,
            Frontier.refuse_of_gt _ _ hrefuse]
          exact .noParenthesis keyword gap rest hsplit
            (Construct.scanner_none .openParenthesis hopen)
      | some result =>
          obtain ⟨parenthesis, following⟩ := result
          obtain ⟨rfl, rfl⟩ := eq_of_character hopen
          cases item? with
          | none =>
              simp only [named, bind_apply, andThen, token_matched hkeyword,
                blanks_gap hsplit.isGap hsplit.gap_ends, position_apply, token_matched hopen, hat,
                refuseDepth]
              exact .tooDeep keyword gap following rfl hsplit
          | some item =>
              simp only [named, bind_apply, andThen, token_matched hkeyword,
                blanks_gap hsplit.isGap hsplit.gap_ends, position_apply, token_matched hopen, hat]
              cases hbody : body item
                  ⟨offset + byteLength (keyword ++ gap) + byteLength ['('], following⟩ frontier with
              | mk outcome updated =>
                  cases outcome with
                  | matched items next => exact .matched item _ _ _ _ _ _ rfl hsplit hbody
                  | failed => exact .bodyFailed item _ _ _ _ rfl hsplit hbody
                  | tooDeep deep => exact .bodyTooDeep item _ _ _ _ _ rfl hsplit hbody

/-- A keyword and a gap at the beginning of a text are the name and the gap that stand there, unless
the name is longer than the keyword. -/
theorem keyword_or_longer {text keyword gap rest name before following : List Char}
    (hkeyword : Split .keyword text keyword gap rest)
    (hname : Split .attributeName text name before following)
    (hends : beginsWith Token.isNameCharacter (before ++ following) = false) :
    (name = keyword ∧ before = gap ∧ following = rest) ∨
      ∃ more, more ≠ [] ∧ name = keyword ++ more ∧ gap = [] := by
  have hrun : ∀ c ∈ keyword, Token.isNameCharacter c = true :=
    (isName_of_isKeyword hkeyword.isToken).2
  have heq : keyword ++ (gap ++ rest) = name ++ (before ++ following) := by
    rw [← List.append_assoc, ← List.append_assoc, ← hkeyword.text_eq, hname.text_eq]
  obtain ⟨more, hmore, hbehind⟩ := exists_append_of_run hrun hends heq
  cases more with
  | nil =>
      obtain ⟨hgap, hrest⟩ := run_unique hkeyword.isGap hname.isGap hkeyword.gap_ends
        hname.gap_ends hbehind
      exact Or.inl ⟨by simpa using hmore, hgap.symm, hrest.symm⟩
  | cons c more =>
      refine Or.inr ⟨c :: more, List.cons_ne_nil _ _, hmore, ?_⟩
      cases gap with
      | nil => rfl
      | cons d gap =>
          -- the gap would begin with a character of the name
          have hd : c = d := by
            simpa using (congrArg List.head? hbehind).symm
          have hc : Token.isNameCharacter c = true := hname.isToken.2 c (by simp [hmore])
          rw [hd, Token.isNameCharacter_of_isBlank d (hkeyword.isGap d List.mem_cons_self)] at hc
          cases hc

/-- With a parenthesis right behind the keyword, no longer name stands there. -/
theorem not_longer_than_keyword {text keyword following name before rest more : List Char}
    (hkeyword : Split .keyword text keyword [] ('(' :: following))
    (hlonger : name = keyword ++ more) (hne : more ≠ []) :
    ¬ Split .attributeName text name before rest := by
  intro hname
  have htext := hkeyword.text_eq
  rw [hname.text_eq, hlonger] at htext
  simp only [List.append_assoc, List.append_cancel_left_eq, List.nil_append] at htext
  cases more with
  | nil => exact hne rfl
  | cons c more =>
      have hc : Token.isNameCharacter c = true := hname.isToken.2 c (by simp [hlonger])
      obtain rfl : c = '(' := by simpa using congrArg List.head? htext
      cases hc

/-- What stands at the beginning of a group is no condition. -/
theorem not_operator_of_parenthesis (following : List Char) :
    ¬ Construct.operator.StandsAt ('(' :: following) := by
  rintro ⟨symbol, rest, hsymbol, heq⟩
  exact (beginsWith_symbol hsymbol rest).2 following heq.symm

/-- A text that begins with no comma behind its gap holds no further item. -/
theorem furtherItem_failed {gap rest : List Char} (hgap : IsGap gap)
    (hblank : beginsWith isBlank rest = false) (hcomma : Token.character ',' rest = none)
    (part : Matcher Node) (offset : Nat) (frontier : Frontier) :
    furtherItem part ⟨offset, gap ++ rest⟩ frontier =
      (.failed, frontier.note .comma (offset + byteLength gap)) := by
  unfold furtherItem
  simp only [bind_apply, andThen, blanks_gap hgap hblank, token_failed hcomma]

/-- Behind a comma the matcher of a further item is the matcher of the item. -/
theorem furtherItem_comma {before after rest : List Char} (hbefore : IsGap before)
    (hafter : IsGap after) (hblank : beginsWith isBlank rest = false) (part : Matcher Node)
    (offset : Nat) (frontier : Frontier) :
    furtherItem part ⟨offset, before ++ (',' :: (after ++ rest))⟩ frontier =
      part ⟨offset + extent (separator before after), rest⟩ frontier := by
  have hcomma : Token.character ',' (',' :: (after ++ rest)) = some ([','], after ++ rest) := by
    simp [Token.character]
  unfold furtherItem
  simp only [bind_apply, andThen, blanks_gap hbefore (show beginsWith isBlank (',' :: _) = false
    from rfl), token_matched hcomma, blanks_gap hafter hblank]
  simp [separator, Nat.add_assoc]

end ModelQuery.Grammar
