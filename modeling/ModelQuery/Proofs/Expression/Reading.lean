import ModelQuery.Proofs.Expression.Parts

/-!
# Every layout is read

The matcher of an item reads each layout of a node back as that node, whatever the record of
refusals holds and whatever text follows that does not make the last value longer. The main theorem,
`item_read`, is an induction over the layout. A condition that begins with the letters of a keyword
is first tried as a group, which fails for want of a parenthesis (`group_failed_of_condition`).
-/

namespace ModelQuery.Grammar

open Matcher Expression Text

/-- A scanner for quoted values reads nothing from a text that begins otherwise. -/
theorem quoted_none_of_ne {quote c : Char} (h : c ≠ quote) (rest : List Char) :
    Token.quoted quote (c :: rest) = none := by
  simp [Token.quoted, h]

/-- A value is matched as it is written. -/
theorem value_read {quote : Quote} {raw rest : List Char} (hraw : quote.construct.IsToken raw)
    (hrest : beginsWith Token.isWordCharacter rest = false) (offset : Nat) (frontier : Frontier) :
    ∃ updated, value ⟨offset, raw ++ rest⟩ frontier =
      (.matched ⟨quote, String.ofList raw⟩ ⟨offset + byteLength raw, rest⟩, updated) := by
  have hread : quote.construct.scanner (raw ++ rest) = some (raw, rest) := by
    refine Construct.scanner_append _ hraw ?_
    cases quote with
    | bare => exact hrest
    | single | double => cases rest <;> rfl
  unfold value
  cases quote with
  | single =>
      have hsingle : Token.quoted '\'' (raw ++ rest) = some (raw, rest) := hread
      simp only [otherwise, map_apply, andThen, token_matched hsingle, succeed]
      exact ⟨_, rfl⟩
  | double =>
      have hdouble : Token.quoted '"' (raw ++ rest) = some (raw, rest) := hread
      have hsingle : Token.quoted '\'' (raw ++ rest) = none := by
        obtain ⟨body, -, rfl⟩ := hraw
        exact quoted_none_of_ne (by decide) _
      simp only [otherwise, map_apply, andThen, token_failed hsingle, token_matched hdouble,
        succeed]
      exact ⟨_, rfl⟩
  | bare =>
      have hbare : Token.bareWord (raw ++ rest) = some (raw, rest) := hread
      have hnone : ∀ mark : Char, Token.isWordCharacter mark = false →
          Token.quoted mark (raw ++ rest) = none := by
        intro mark hmark
        obtain ⟨hne, hall⟩ := hraw
        cases raw with
        | nil => exact absurd rfl hne
        | cons c raw =>
            refine quoted_none_of_ne ?_ _
            rintro rfl
            rw [hall c List.mem_cons_self] at hmark
            cases hmark
      simp only [otherwise, map_apply, andThen, token_failed (hnone '\'' (by decide)),
        token_failed (hnone '"' (by decide)), token_matched hbare, succeed]
      exact ⟨_, rfl⟩

/-- Behind a name, a gap and a symbol begin with no further character of the name. -/
theorem name_ends {before symbol : List Char} (hbefore : IsGap before) (hsymbol : IsSymbol symbol)
    (rest : List Char) :
    beginsWith Token.isNameCharacter (before ++ (symbol ++ rest)) = false :=
  beginsWith_run_append hbefore Token.isNameCharacter_of_isBlank
    (beginsWith_symbol hsymbol rest).1

/-- What a condition begins with is no group. -/
theorem group_failed_of_condition {name before symbol : List Char} (hname : IsName name)
    (hbefore : IsGap before) (hsymbol : IsSymbol symbol) (item? : Option (Matcher Node))
    (offset : Nat) (rest : List Char) (frontier : Frontier) :
    ∃ updated, group item? ⟨offset, name ++ before ++ (symbol ++ rest)⟩ frontier =
      (.failed, updated) := by
  have hsplit : Split .attributeName (name ++ before ++ (symbol ++ rest)) name before
      (symbol ++ rest) :=
    ⟨hname, hbefore, rfl, beginsWith_isBlank_token .operator hsymbol (by decide) rest⟩
  have hends := name_ends hbefore hsymbol rest
  -- with a parenthesis behind the keyword, the keyword would be the name
  have hnot : ∀ keyword gap following,
      ¬ Split .keyword (name ++ before ++ (symbol ++ rest)) keyword gap ('(' :: following) := by
    intro keyword gap following hkeyword
    rcases keyword_or_longer hkeyword hsplit hends with ⟨-, -, heq⟩ | ⟨more, hne, heq, rfl⟩
    · exact (beginsWith_symbol hsymbol rest).2 following heq
    · exact not_longer_than_keyword hkeyword heq hne hsplit
  have hrun := group_run item? offset (name ++ before ++ (symbol ++ rest)) frontier
  generalize group item? _ frontier = outcome at hrun ⊢
  cases hrun with
  | noKeyword => exact ⟨_, rfl⟩
  | noParenthesis => exact ⟨_, rfl⟩
  | tooDeep keyword gap following _ hkeyword => exact absurd hkeyword (hnot _ _ _)
  | matched _ keyword gap following _ _ _ _ hkeyword => exact absurd hkeyword (hnot _ _ _)
  | bodyFailed _ keyword gap following _ _ hkeyword => exact absurd hkeyword (hnot _ _ _)
  | bodyTooDeep _ keyword gap following _ _ _ hkeyword => exact absurd hkeyword (hnot _ _ _)

/-- A condition is matched as it is written. -/
theorem condition_read {name before symbol after raw rest : List Char} {quote : Quote}
    (hname : IsName name) (hbefore : IsGap before) (hsymbol : IsSymbol symbol)
    (hafter : IsGap after) (hraw : quote.construct.IsToken raw)
    (hrest : beginsWith Token.isWordCharacter rest = false) (offset : Nat) (frontier : Frontier) :
    ∃ updated, condition
        ⟨offset, name ++ (before ++ (symbol ++ (after ++ (raw ++ rest))))⟩ frontier =
      (.matched
        (.condition (String.ofList name) (String.ofList symbol) ⟨quote, String.ofList raw⟩
          (offset + byteLength (name ++ before)))
        ⟨offset + extent (comparison name before symbol after quote raw), rest⟩, updated) := by
  have hquote : quote.construct ≠ .endOfText := by cases quote <;> decide
  have hcontinues : beginsWith Token.continuesSymbol (after ++ (raw ++ rest)) = false :=
    beginsWith_run_append hafter continuesSymbol_of_isBlank (beginsWith_value hraw rest)
  have hread : Token.attributeName (name ++ (before ++ (symbol ++ (after ++ (raw ++ rest))))) =
      some (name, before ++ (symbol ++ (after ++ (raw ++ rest)))) :=
    Construct.scanner_append .attributeName hname (name_ends hbefore hsymbol _)
  have hread' : Token.operator (symbol ++ (after ++ (raw ++ rest))) =
      some (symbol, after ++ (raw ++ rest)) :=
    Construct.scanner_append .operator hsymbol hcontinues
  obtain ⟨updated, hvalue⟩ := value_read hraw hrest
    (offset + byteLength name + byteLength before + byteLength symbol + byteLength after) frontier
  unfold condition
  simp only [named, bind_apply, andThen, token_matched hread, position_apply,
    blanks_gap hbefore (beginsWith_isBlank_token .operator hsymbol (by decide) _),
    token_matched hread', blanks_gap hafter (beginsWith_isBlank_token _ hraw hquote rest), hvalue,
    pure_apply]
  refine ⟨updated, ?_⟩
  simp [comparison, byteLength_append, Nat.add_assoc]

/-- The matcher of an item tries a group and then a condition. -/
theorem item_eq (levels : Nat) : ∃ item?, item levels = otherwise (group item?) condition := by
  cases levels with
  | zero => exact ⟨none, rfl⟩
  | succ levels => exact ⟨some (item levels), rfl⟩

/-- Behind the members that are read, the body of a group reads the closing parenthesis. -/
theorem body_read {part : Matcher Node} {inner text after rest : List Char} {items : List Node}
    {offset finish : Nat} {frontier updated : Frontier} (hinner : IsGap inner)
    (hblank : beginsWith isBlank text = false) (hafter : IsGap after)
    (hmembers : members part ⟨offset + byteLength inner, text⟩ frontier =
      (.matched items ⟨finish, after ++ (')' :: rest)⟩, updated)) :
    body part ⟨offset, inner ++ text⟩ frontier =
      (.matched items ⟨finish + extent (closing after), rest⟩, updated) := by
  have hclose : Token.character ')' (')' :: rest) = some ([')'], rest) := by
    simp [Token.character]
  unfold body
  simp only [bind_apply, andThen, blanks_gap hinner hblank, hmembers,
    blanks_gap hafter (show beginsWith isBlank (')' :: rest) = false from rfl),
    token_matched hclose, pure_apply]
  simp [closing, Nat.add_assoc]

/-- A group is matched as it is written if its body is. -/
theorem group_read {part : Matcher Node} {keyword before inside rest : List Char}
    {items : List Node} {offset finish : Nat} {frontier updated : Frontier}
    (hkeyword : IsKeyword keyword) (hbefore : IsGap before)
    (hbody : body part ⟨offset + byteLength keyword + byteLength before + byteLength ['('], inside⟩
      frontier = (.matched items ⟨finish, rest⟩, updated)) :
    group (some part) ⟨offset, keyword ++ (before ++ ('(' :: inside))⟩ frontier =
      (.matched (.group (String.ofList keyword) items offset) ⟨finish, rest⟩, updated) := by
  have hread : Token.keyword (keyword ++ (before ++ ('(' :: inside))) =
      some (keyword, before ++ ('(' :: inside)) := Token.keyword_append hkeyword _
  have hopen : Token.character '(' ('(' :: inside) = some (['('], inside) := by
    simp [Token.character]
  unfold group
  simp only [named, bind_apply, andThen, position_apply, token_matched hread,
    blanks_gap hbefore (show beginsWith isBlank ('(' :: inside) = false from rfl),
    token_matched hopen, hbody, pure_apply]

/-- The members of a group are read if the first is, and the others with any sufficient number of
attempts. -/
theorem members_read {part : Matcher Node} {first : Node} {others : List Node}
    {cursor next last : Cursor} {frontier updated : Frontier}
    (hfirst : part cursor frontier = (.matched first next, updated))
    (hlength : others.length ≤ next.rest.length)
    (hothers : ∀ limit, others.length < limit → ∃ final,
      repeated (furtherItem part) limit next updated = (.matched others last, final)) :
    ∃ final, members part cursor frontier = (.matched (first :: others) last, final) := by
  obtain ⟨final, hmany⟩ := hothers (next.rest.length + 1) (by omega)
  refine ⟨final, ?_⟩
  unfold members
  simp only [named, bind_apply, andThen, hfirst, many, hmany, pure_apply]

mutual

/-- The matcher of an item reads every layout of a node that nests no deeper than it may. -/
theorem item_read {offset : Nat} {node : Node} {pieces : List Piece}
    (h : Layout offset node pieces) {levels : Nat} (hdepth : node.depth ≤ levels)
    {rest : List Char} (hrest : beginsWith Token.isWordCharacter rest = false)
    (frontier : Frontier) :
    ∃ updated, item levels ⟨offset, written pieces ++ rest⟩ frontier =
      (.matched node ⟨offset + extent pieces, rest⟩, updated) := by
  cases h with
  | condition _ name before symbol after quote raw hname hbefore hsymbol hafter hraw =>
      obtain ⟨item?, hitem⟩ := item_eq levels
      have htext : written (comparison name before symbol after quote raw) ++ rest =
          name ++ (before ++ (symbol ++ (after ++ (raw ++ rest)))) := by
        simp [comparison]
      -- the attempt to read a group comes first and leaves a record that does not matter
      obtain ⟨updated, hgroup⟩ := group_failed_of_condition hname hbefore hsymbol item? offset
        (after ++ (raw ++ rest)) frontier
      rw [List.append_assoc] at hgroup
      obtain ⟨final, hcondition⟩ := condition_read hname hbefore hsymbol hafter hraw hrest offset
        updated
      refine ⟨final, ?_⟩
      rw [hitem, htext]
      simp only [otherwise, hgroup, hcondition]
  | group _ keyword before inner items pieces after hkeyword hbefore hinner hitems hafter =>
      cases levels with
      | zero => exact absurd hdepth (by simp [Node.depth])
      | succ levels =>
          have hlevels : Node.depthAll items ≤ levels := by
            simpa [Node.depth] using hdepth
          have htext : written (opening keyword before inner ++ pieces ++ closing after) ++ rest =
              keyword ++ (before ++ ('(' :: (inner ++
                (written pieces ++ (after ++ (')' :: rest)))))) := by
            simp [opening, closing]
          have hstart : offset + extent (opening keyword before inner) =
              offset + byteLength keyword + byteLength before + byteLength ['('] +
                byteLength inner := by
            simp only [opening, extent_token, extent_gap, extent_nil]
            omega
          rw [hstart] at hitems
          obtain ⟨first, others, next, updated, rfl, hfirst, hlength, hothers⟩ :=
            items_read hitems hlevels hafter rest frontier
          obtain ⟨final, hmembers⟩ := members_read hfirst hlength hothers
          have hblank := beginsWith_isBlank_of_isNameCharacter
            (hitems.beginsWith_isNameCharacter (after ++ (')' :: rest)))
          have hgroup := group_read hkeyword hbefore (body_read hinner hblank hafter hmembers)
          have hfinish : offset + byteLength keyword + byteLength before + byteLength ['('] +
              byteLength inner + extent pieces + extent (closing after) =
              offset + extent (opening keyword before inner ++ pieces ++ closing after) := by
            simp only [extent_append]
            omega
          refine ⟨final, ?_⟩
          rw [htext, item]
          simp only [otherwise, hgroup, hfinish]

/-- The first of several written nodes is read, and then the others, with any number of attempts
that is greater than theirs. -/
theorem items_read {offset : Nat} {nodes : List Node} {pieces : List Piece}
    (h : Layouts offset nodes pieces) {levels : Nat} (hdepth : Node.depthAll nodes ≤ levels)
    {after : List Char} (hafter : IsGap after) (rest : List Char) (frontier : Frontier) :
    ∃ first others next updated, nodes = first :: others ∧
      item levels ⟨offset, written pieces ++ (after ++ (')' :: rest))⟩ frontier =
        (.matched first next, updated) ∧
      others.length ≤ next.rest.length ∧
      ∀ limit, others.length < limit → ∃ final,
        repeated (furtherItem (item levels)) limit next updated =
          (.matched others ⟨offset + extent pieces, after ++ (')' :: rest)⟩, final) := by
  have hends : beginsWith Token.isWordCharacter (after ++ (')' :: rest)) = false :=
    beginsWith_run_append hafter Token.isWordCharacter_of_isBlank rfl
  cases h with
  | last _ node pieces hnode =>
      have hnodeDepth : node.depth ≤ levels := by simpa [Node.depthAll] using hdepth
      obtain ⟨updated, hread⟩ := item_read hnode hnodeDepth hends frontier
      -- one attempt more finds the closing parenthesis in place of a comma
      refine ⟨node, [], _, updated, rfl, hread, Nat.zero_le _, ?_⟩
      intro limit hlimit
      obtain ⟨limit, rfl⟩ : ∃ further, limit = further + 1 := ⟨limit - 1, by omega⟩
      have hcomma : Token.character ',' (')' :: rest) = none := by simp [Token.character]
      have hfailed := furtherItem_failed hafter (show beginsWith isBlank (')' :: rest) = false
        from rfl) hcomma (item levels) (offset + extent pieces) updated
      refine ⟨updated.note .comma (offset + extent pieces + byteLength after), ?_⟩
      simp only [repeated, otherwise, andThen, hfailed, succeed]
  | more _ node first before beyond nodes pieces hnode hbefore hbeyond hnodes =>
      have hnodeDepth : node.depth ≤ levels ∧ Node.depthAll nodes ≤ levels := by
        rw [Node.depthAll] at hdepth
        exact Nat.max_le.mp hdepth
      have htext : written (first ++ separator before beyond ++ pieces) ++
          (after ++ (')' :: rest)) = written first ++ (before ++ (',' :: (beyond ++
            (written pieces ++ (after ++ (')' :: rest)))))) := by
        simp [separator]
      have hcomma : beginsWith Token.isWordCharacter (before ++ (',' :: (beyond ++
          (written pieces ++ (after ++ (')' :: rest)))))) = false :=
        beginsWith_run_append hbefore Token.isWordCharacter_of_isBlank rfl
      have hblank := beginsWith_isBlank_of_isNameCharacter
        (hnodes.beginsWith_isNameCharacter (after ++ (')' :: rest)))
      obtain ⟨updated, hread⟩ := item_read hnode hnodeDepth.1 hcomma frontier
      -- there are fewer members than characters, so the attempts do not run out
      have hlength := hnodes.length_le
      rw [extent_append, ← Nat.add_assoc] at hnodes
      obtain ⟨second, others, next, further, rfl, hsecond, -, hothers⟩ :=
        items_read hnodes hnodeDepth.2 hafter rest updated
      refine ⟨node, second :: others, _, updated, rfl, by rw [htext]; exact hread, ?_, ?_⟩
      · simp only [List.length_append, List.length_cons] at hlength ⊢
        omega
      · intro limit hlimit
        obtain ⟨limit, rfl⟩ : ∃ attempts, limit = attempts + 1 := ⟨limit - 1, by omega⟩
        obtain ⟨final, hfinal⟩ := hothers limit (by simp only [List.length_cons] at hlimit; omega)
        have hfinish : offset + extent first + extent (separator before beyond) + extent pieces =
            offset + extent (first ++ separator before beyond ++ pieces) := by
          simp only [extent_append]
          omega
        refine ⟨final, ?_⟩
        simp only [repeated, otherwise, andThen,
          furtherItem_comma hbefore hbeyond hblank (item levels), hsecond, hfinal, succeed, hfinish]

end

end ModelQuery.Grammar
