import ModelQuery.Proofs.Expression.Outcome

/-!
# Outcomes of matching the members of a group

What the matchers of members and bodies can return, given that the matcher of an item behaves as
`ItemOutcome` says. The attempts to read a further member are counted, and the main step,
`further_outcome`, is an induction on their number.

The record of refusals stands behind the reader whenever an item is begun, so whatever is refused
next begins a new record. A failed attempt to read a further member is what breaks this: the record
then stands at the comma that is missing or at a refusal further on, and `Ending` says which.
-/

namespace ModelQuery.Grammar

open Matcher Expression Text

variable {limit levels level : Nat} {text : List Char} {before : List Piece} {rest : List Char}

/-- How the reading of members can end behind the pieces: with no further comma, or with a refusal
behind one. -/
inductive Ending (limit level : Nat) (text : List Char) (done : List Piece) (rest : List Char) :
    Frontier → Prop where
  | noComma (before : List Piece) (node : Node) (pieces : List Piece) (gap following : List Char) :
      Place limit (level + 1) before → Layout (extent before) node pieces →
      done = before ++ pieces →
      IsGap gap → rest = gap ++ following → beginsWith isBlank following = false →
      ¬ Construct.comma.StandsAt following →
      Ending limit level text done rest ⟨extent done + byteLength gap, [.comma]⟩
  | refused (gap following : List Char) (frontier : Frontier) :
      IsGap gap → rest = gap ++ (',' :: following) →
      extent done + byteLength gap < frontier.offset → RefusedAt limit text frontier →
      Ending limit level text done rest frontier

/-- What the attempts to read further members can return behind the first of them. -/
inductive FurtherOutcome (limit levels level : Nat) (text : List Char) (before : List Piece)
    (node : Node) (pieces : List Piece) (rest : List Char) :
    Outcome (List Node) × Frontier → Prop where
  | matched (nodes : List Node) (more : List Piece) (following : List Char)
      (frontier : Frontier) :
      Layouts (extent before) (node :: nodes) (pieces ++ more) → Node.depthAll nodes ≤ levels →
      rest = written more ++ following →
      Ending limit level text (before ++ (pieces ++ more)) following frontier →
      FurtherOutcome limit levels level text before node pieces rest
        (.matched nodes ⟨extent (before ++ (pieces ++ more)), following⟩, frontier)
  | tooDeep (offset : Nat) (frontier : Frontier) :
      Depth.excessFrom? limit .start 0 text = some offset →
      FurtherOutcome limit levels level text before node pieces rest (.tooDeep offset, frontier)

/-- The matcher of an item behaves at every place as `ItemOutcome` says. -/
def ItemSpec (limit levels level : Nat) (text : List Char) (part : Matcher Node) : Prop :=
  ∀ (before : List Piece) (rest : List Char) (frontier : Frontier),
    Place limit level before → text = written before ++ rest →
    frontier.offset < extent before →
    ItemOutcome limit levels text before rest (part ⟨extent before, rest⟩ frontier)

/-- What one attempt to read a further member behind the pieces can return. -/
inductive AttemptOutcome (limit levels level : Nat) (text : List Char) (done : List Piece)
    (rest : List Char) : Outcome Node × Frontier → Prop where
  | matched (gap after : List Char) (node : Node) (pieces : List Piece) (following : List Char)
      (frontier : Frontier) :
      IsGap gap → IsGap after →
      Layout (extent (done ++ separator gap after)) node pieces → node.depth ≤ levels →
      rest = written (separator gap after ++ pieces) ++ following →
      frontier.offset < extent (done ++ separator gap after ++ pieces) →
      AttemptOutcome limit levels level text done rest
        (.matched node ⟨extent (done ++ separator gap after ++ pieces), following⟩, frontier)
  | failed (frontier : Frontier) :
      Ending limit level text done rest frontier →
      AttemptOutcome limit levels level text done rest (.failed, frontier)
  | tooDeep (offset : Nat) (frontier : Frontier) :
      Depth.excessFrom? limit .start 0 text = some offset →
      AttemptOutcome limit levels level text done rest (.tooDeep offset, frontier)

/-- Behind a comma stands a place for items, so there the matcher of an item decides. -/
theorem attempt_outcome {part : Matcher Node} (hpart : ItemSpec limit levels (level + 1) text part)
    (hlimit : level + 1 + levels = limit) {node : Node} {pieces : List Piece} {frontier : Frontier}
    (hplace : Place limit (level + 1) before) (hnode : Layout (extent before) node pieces)
    (hdepth : node.depth ≤ levels) (htext : text = written (before ++ pieces) ++ rest)
    (hfrontier : frontier.offset < extent (before ++ pieces)) :
    AttemptOutcome limit levels level text (before ++ pieces) rest
      (furtherItem part ⟨extent (before ++ pieces), rest⟩ frontier) := by
  obtain ⟨gap, behind, rfl, hgap, hblank⟩ := exists_gap rest
  cases hcomma : Token.character ',' behind with
  | none =>
      have hlt : frontier.offset < extent (before ++ pieces) + byteLength gap := by omega
      rw [furtherItem_failed hgap hblank hcomma, Frontier.note_of_lt _ hlt]
      exact .failed _ (.noComma before node pieces gap behind hplace hnode rfl hgap rfl hblank
        (Construct.scanner_none .comma hcomma))
  | some result =>
      obtain ⟨mark, beyond⟩ := result
      obtain ⟨rfl, -⟩ := eq_of_character hcomma
      obtain ⟨after, inside, rfl, hafter, hblank'⟩ := exists_gap beyond
      have hplace' : Place limit (level + 1) (before ++ pieces ++ separator gap after) :=
        .further level before node pieces gap after hplace hnode (by omega) hgap hafter
      have htext' : text = written (before ++ pieces ++ separator gap after) ++ inside := by
        simp [htext, separator]
      have hpos : byteLength gap < extent (separator gap after) := by
        have : 0 < byteLength [','] := byteLength_pos (List.cons_ne_nil _ _)
        simp only [separator, extent_token, extent_gap, extent_nil]
        omega
      have hat := extent_append (before ++ pieces) (separator gap after)
      have hitem := hpart _ inside frontier hplace' htext' (by omega)
      rw [furtherItem_comma hgap hafter hblank', ← hat]
      generalize part _ frontier = outcome at hitem ⊢
      -- what is refused behind the comma lies further on than the comma itself
      cases hitem with
      | matched second read following updated hsecond hsecondDepth hinside hupdated =>
          rw [← extent_append] at hupdated ⊢
          refine .matched gap after second read following updated hgap hafter hsecond hsecondDepth
            ?_ hupdated
          simp [hinside, separator]
      | noItem hnone =>
          refine .failed _ (.refused gap _ _ hgap rfl ?_
            ⟨_, _, htext', rfl, .item (level + 1) _ _ _ hplace' hnone rfl⟩)
          show _ < extent (before ++ pieces ++ separator gap after)
          omega
      | refused updated hlt hrefused =>
          exact .failed _ (.refused gap _ _ hgap rfl (by omega) hrefused)
      | tooDeep offset updated hdeep => exact .tooDeep offset updated hdeep

/-- The attempts to read further members go as far as there are members, if there is an attempt for
every character that is left and one more. -/
theorem further_outcome {part : Matcher Node}
    (hpart : ItemSpec limit levels (level + 1) text part) (hlimit : level + 1 + levels = limit)
    (attempts : Nat) {node : Node} {pieces : List Piece} {frontier : Frontier}
    (hplace : Place limit (level + 1) before) (hnode : Layout (extent before) node pieces)
    (hdepth : node.depth ≤ levels) (htext : text = written (before ++ pieces) ++ rest)
    (hfrontier : frontier.offset < extent (before ++ pieces))
    (hattempts : rest.length < attempts) :
    FurtherOutcome limit levels level text before node pieces rest
      (repeated (furtherItem part) attempts ⟨extent (before ++ pieces), rest⟩ frontier) := by
  induction attempts generalizing before node pieces rest frontier with
  | zero => exact absurd hattempts (Nat.not_lt_zero _)
  | succ attempts ih =>
      have hattempt := attempt_outcome hpart hlimit hplace hnode hdepth htext hfrontier
      simp only [repeated, otherwise, andThen]
      generalize furtherItem part _ frontier = outcome at hattempt ⊢
      cases hattempt with
      | failed updated hending =>
          have hlast : FurtherOutcome limit levels level text before node pieces rest
              (.matched [] ⟨extent (before ++ (pieces ++ [])), rest⟩, updated) :=
            .matched [] [] rest updated (by simpa using Layouts.last _ _ _ hnode) (Nat.zero_le _)
              rfl (by simpa using hending)
          simpa [succeed] using hlast
      | tooDeep offset updated hdeep => exact .tooDeep offset updated hdeep
      | matched gap after second read following updated hgap hafter hsecond hsecondDepth hrest
          hupdated =>
          have hplace' : Place limit (level + 1) (before ++ pieces ++ separator gap after) :=
            .further level before node pieces gap after hplace hnode (by omega) hgap hafter
          have htext' : text =
              written (before ++ pieces ++ separator gap after ++ read) ++ following := by
            simp [htext, hrest]
          -- every further member takes a comma at least
          have hlength : following.length < attempts := by
            have hlengths := congrArg List.length hrest
            simp only [separator, written_append, written_token, written_gap, List.length_append,
              List.length_cons] at hlengths
            omega
          have hnext := ih hplace' hsecond hsecondDepth htext' hupdated hlength
          simp only
          generalize repeated (furtherItem part) attempts _ updated = result at hnext ⊢
          cases hnext with
          | tooDeep offset last hdeep => exact .tooDeep offset last hdeep
          | matched nodes more final last hnodes hnodesDepth hfollowing hending =>
              have hmore : before ++ pieces ++ separator gap after ++ (read ++ more) =
                  before ++ (pieces ++ (separator gap after ++ (read ++ more))) := by
                simp only [List.append_assoc]
              have hall : Layouts (extent before) (node :: second :: nodes)
                  (pieces ++ (separator gap after ++ (read ++ more))) := by
                rw [← List.append_assoc]
                refine .more _ node pieces gap after _ _ hnode hgap hafter ?_
                rw [← extent_append, ← List.append_assoc]
                exact hnodes
              rw [hmore] at hending
              simp only [succeed, hmore]
              refine .matched (second :: nodes) _ final last hall ?_ ?_ hending
              · rw [Node.depthAll]
                exact Nat.max_le.mpr ⟨hsecondDepth, hnodesDepth⟩
              · simp [hrest, hfollowing]

/-- What the matcher of the members of a group can return at a place. -/
inductive MembersOutcome (limit levels level : Nat) (text : List Char) (before : List Piece)
    (rest : List Char) : Outcome (List Node) × Frontier → Prop where
  | matched (items : List Node) (pieces : List Piece) (following : List Char)
      (frontier : Frontier) :
      Layouts (extent before) items pieces → Node.depthAll items ≤ levels →
      rest = written pieces ++ following →
      Ending limit level text (before ++ pieces) following frontier →
      MembersOutcome limit levels level text before rest
        (.matched items ⟨extent (before ++ pieces), following⟩, frontier)
  | refused (frontier : Frontier) :
      extent before ≤ frontier.offset → RefusedAt limit text frontier →
      MembersOutcome limit levels level text before rest (.failed, frontier)
  | tooDeep (offset : Nat) (frontier : Frontier) :
      Depth.excessFrom? limit .start 0 text = some offset →
      MembersOutcome limit levels level text before rest (.tooDeep offset, frontier)

/-- Where no first member begins, the members are refused as a whole. -/
theorem members_outcome {part : Matcher Node}
    (hpart : ItemSpec limit levels (level + 1) text part) (hlimit : level + 1 + levels = limit)
    {frontier : Frontier} (hplace : Place limit (level + 1) before)
    (htext : text = written before ++ rest) (hfrontier : frontier.offset < extent before) :
    MembersOutcome limit levels level text before rest
      (members part ⟨extent before, rest⟩ frontier) := by
  have hitem := hpart before rest frontier hplace htext hfrontier
  unfold members
  simp only [named, bind_apply, andThen, many]
  generalize part _ frontier = outcome at hitem ⊢
  cases hitem with
  | noItem hnone =>
      -- two new entries, of a keyword and a name, give way to the members as a whole
      have hcount : frontier.countAt (extent before) = 0 := by
        simp [Frontier.countAt, Nat.ne_of_gt hfrontier]
      simp only [hcount]
      refine .refused _ ?_ ⟨before, rest, htext, ?_, ?_⟩
      · simp [Frontier.refuse, Frontier.countAt]
      · simp [Frontier.refuse, Frontier.countAt]
      · refine .item (level + 1) before rest _ hplace hnone ?_
        simp [Frontier.refuse, Frontier.countAt, tokens]
  | refused updated hlt hrefused =>
      simp only [Frontier.refuse_of_gt _ _ hlt]
      exact .refused updated (Nat.le_of_lt hlt) hrefused
  | tooDeep offset updated hdeep => exact .tooDeep offset updated hdeep
  | matched first pieces following updated hfirst hfirstDepth hrest hupdated =>
      rw [← extent_append] at hupdated ⊢
      have hfurther := further_outcome hpart hlimit (following.length + 1) hplace hfirst
        hfirstDepth (by simp [htext, hrest]) hupdated (Nat.lt_succ_self _)
      simp only
      generalize repeated (furtherItem part) _ _ updated = result at hfurther ⊢
      cases hfurther with
      | tooDeep offset last hdeep => exact .tooDeep offset last hdeep
      | matched nodes more final last hnodes hnodesDepth hfollowing hending =>
          simp only [pure_apply]
          refine .matched (first :: nodes) _ final last hnodes ?_ ?_ hending
          · rw [Node.depthAll]
            exact Nat.max_le.mpr ⟨hfirstDepth, hnodesDepth⟩
          · simp [hrest, hfollowing]

/-- The matcher of what closes a group behind its members. -/
def close (items : List Node) : Matcher (List Node) := do
  blanks
  let _ ← token .closeParenthesis (Token.character ')')
  pure items

/-- A body is a gap, the members of the group, and what closes it. -/
theorem body_eq (part : Matcher Node) :
    body part = blanks >>= fun _ ↦ members part >>= close :=
  rfl

/-- What the matcher of the end of a group can return behind the pieces. -/
inductive CloseOutcome (limit : Nat) (text : List Char) (done : List Piece) (items : List Node)
    (rest : List Char) : Outcome (List Node) × Frontier → Prop where
  | matched (after following : List Char) (frontier : Frontier) :
      IsGap after → rest = after ++ (')' :: following) →
      frontier.offset < extent (done ++ closing after) →
      CloseOutcome limit text done items rest
        (.matched items ⟨extent (done ++ closing after), following⟩, frontier)
  | refused (frontier : Frontier) :
      extent done ≤ frontier.offset → RefusedAt limit text frontier →
      CloseOutcome limit text done items rest (.failed, frontier)

/-- Where neither a comma nor a closing parenthesis stands behind a member, both are expected;
where the last comma has no member behind it, the refusal there stays. -/
theorem close_outcome {done : List Piece} {frontier : Frontier}
    (hending : Ending limit level text done rest frontier) (htext : text = written done ++ rest)
    (items : List Node) :
    CloseOutcome limit text done items rest (close items ⟨extent done, rest⟩ frontier) := by
  unfold close
  simp only [bind_apply, andThen]
  cases hending with
  | noComma last node pieces after beyond hlast hnode hdone hafter hrest hblank hcomma =>
      rw [hrest, blanks_gap hafter hblank]
      cases hclose : Token.character ')' beyond with
      | none =>
          -- the comma was refused at the same offset just before
          simp only [token_failed hclose, Frontier.note_here]
          refine .refused _ (Nat.le_add_right _ _) ⟨done ++ [.gap after], beyond, ?_, ?_, ?_⟩
          · simp [htext, hrest]
          · simp
          · rw [hdone]
            exact .delimiter level last node pieces after beyond hlast hnode hafter hcomma
              (Construct.scanner_none .closeParenthesis hclose)
      | some result =>
          obtain ⟨mark, following⟩ := result
          obtain ⟨rfl, rfl⟩ := eq_of_character hclose
          have hpos : 0 < byteLength [')'] := byteLength_pos (List.cons_ne_nil _ _)
          have hfinish : extent done + byteLength after + byteLength [')'] =
              extent (done ++ closing after) := by
            simp [closing, Nat.add_assoc]
          simp only [token_matched hclose, pure_apply, hfinish]
          refine .matched after following _ hafter rfl ?_
          show extent done + byteLength after < _
          omega
  | refused after beyond _ hafter hrest hlt hrefused =>
      have hclose : Token.character ')' (',' :: beyond) = none := by simp [Token.character]
      rw [hrest, blanks_gap hafter rfl]
      simp only [token_failed hclose, Frontier.note_of_gt _ hlt]
      exact .refused frontier (by omega) hrefused

/-- What the matcher of the body of a group can return behind the opening parenthesis. -/
inductive BodyOutcome (limit levels : Nat) (text : List Char) (before : List Piece)
    (keyword gap rest : List Char) : Outcome (List Node) × Frontier → Prop where
  | matched (inner : List Char) (items : List Node) (pieces : List Piece)
      (after following : List Char) (frontier : Frontier) :
      IsGap inner → Layouts (extent (before ++ opening keyword gap inner)) items pieces →
      Node.depthAll items ≤ levels → IsGap after →
      rest = inner ++ (written pieces ++ (after ++ (')' :: following))) →
      frontier.offset <
        extent before + extent (opening keyword gap inner ++ pieces ++ closing after) →
      BodyOutcome limit levels text before keyword gap rest
        (.matched items
          ⟨extent before + extent (opening keyword gap inner ++ pieces ++ closing after),
            following⟩,
          frontier)
  | refused (frontier : Frontier) :
      extent before + byteLength (keyword ++ gap) < frontier.offset →
      RefusedAt limit text frontier →
      BodyOutcome limit levels text before keyword gap rest (.failed, frontier)
  | tooDeep (offset : Nat) (frontier : Frontier) :
      Depth.excessFrom? limit .start 0 text = some offset →
      BodyOutcome limit levels text before keyword gap rest (.tooDeep offset, frontier)

/-- Behind the opening parenthesis of a group stands a place for its members. -/
theorem body_outcome {part : Matcher Node}
    (hpart : ItemSpec limit levels (level + 1) text part) (hlimit : level + 1 + levels = limit)
    {frontier : Frontier} (hplace : Place limit level before) {keyword gap following : List Char}
    (hkeyword : IsKeyword keyword) (hgap : IsGap gap)
    (htext : text = written before ++ (keyword ++ gap ++ ('(' :: following)))
    (hfrontier : frontier.offset ≤ extent before) :
    BodyOutcome limit levels text before keyword gap following
      (body part ⟨extent before + byteLength (keyword ++ gap) + byteLength ['('], following⟩
        frontier) := by
  obtain ⟨inner, inside, rfl, hinner, hblank⟩ := exists_gap following
  have hpos : 0 < byteLength ['('] := byteLength_pos (List.cons_ne_nil _ _)
  have hat : extent before + byteLength (keyword ++ gap) + byteLength ['('] + byteLength inner =
      extent (before ++ opening keyword gap inner) := by
    simp [opening, byteLength_append, Nat.add_assoc]
  have hplace' : Place limit (level + 1) (before ++ opening keyword gap inner) :=
    .inside level before keyword gap inner hplace (by omega) hkeyword hgap hinner
  have htext' : text = written (before ++ opening keyword gap inner) ++ inside := by
    simp [htext, opening]
  have hclear : frontier.offset < extent (before ++ opening keyword gap inner) := by omega
  have hmembers := members_outcome hpart hlimit hplace' htext' hclear
  rw [body_eq]
  simp only [bind_apply, andThen]
  rw [blanks_gap hinner hblank, hat]
  simp only
  generalize members part _ frontier = outcome at hmembers ⊢
  cases hmembers with
  | tooDeep offset updated hdeep => exact .tooDeep offset updated hdeep
  | refused updated hle hrefused => exact .refused updated (by omega) hrefused
  | matched items pieces behind updated hitems hdepth hinside hending =>
      have hclose := close_outcome hending (by simp [htext', hinside]) items
      simp only
      generalize close items _ updated = outcome at hclose ⊢
      cases hclose with
      | refused final hle hrefused =>
          refine .refused final ?_ hrefused
          rw [extent_append] at hle
          omega
      | matched after following final hafter hbehind hlt =>
          have hfinish : extent (before ++ opening keyword gap inner ++ pieces ++ closing after) =
              extent before + extent (opening keyword gap inner ++ pieces ++ closing after) := by
            simp only [extent_append, Nat.add_assoc]
          rw [hfinish] at hlt ⊢
          exact .matched inner items pieces after following final hinner hitems hdepth hafter
            (by rw [hinside, hbehind]) hlt

end ModelQuery.Grammar
