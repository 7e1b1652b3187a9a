import ModelQuery.Expression.Parse
import ModelQuery.Proofs.Expression.Members

/-!
# Outcomes of matching a whole text

The matcher of an item behaves at every place as `ItemOutcome` says. This is `item_outcome`, an
induction on the number of groups that may still be opened. For a whole text it follows that the
matcher reads it as a layout, or refuses it where `Refused` says, or meets the parenthesis that the
depth scan reports.
-/

namespace ModelQuery.Grammar

open Matcher Expression Text

variable {limit levels level : Nat} {text : List Char} {before : List Piece} {rest : List Char}

/-- Nothing has been refused where the reader stands, nor further on. -/
def Clear (offset : Nat) (frontier : Frontier) : Prop :=
  frontier.offset < offset ∨ frontier = ⟨offset, []⟩

/-- With a clear record, a token that is missing where the reader stands is entered alone, and a
construct that fails for want of it leaves the entry. -/
theorem Clear.refuse_note {offset : Nat} {frontier : Frontier} (h : Clear offset frontier)
    (kind construct : Construct) :
    (frontier.note kind offset).refuse construct offset (frontier.countAt offset) =
      ⟨offset, [kind]⟩ := by
  rcases h with h | rfl
  · have hcount : frontier.countAt offset = 0 := by
      simp [Frontier.countAt, Nat.ne_of_gt h]
    rw [Frontier.note_of_lt kind h, hcount]
    exact Frontier.refuse_single construct offset [] kind
  · have hcount : Frontier.countAt ⟨offset, []⟩ offset = 0 := by
      simp [Frontier.countAt]
    rw [Frontier.note_here, hcount]
    exact Frontier.refuse_single construct offset [] kind

/-- A clear record stands no further on than the reader. -/
theorem Clear.offset_le {offset : Nat} {frontier : Frontier} (h : Clear offset frontier) :
    frontier.offset ≤ offset := by
  rcases h with h | rfl
  · exact Nat.le_of_lt h
  · exact Nat.le_refl _

/-- An item is a group if one is opened, and else a condition. Where no further group may be opened,
the depth scan reports the parenthesis of the group. -/
theorem group_or_condition_outcome {item? : Option (Matcher Node)} (hlimit : level + levels = limit)
    (hnone : item? = none → levels = 0)
    (hsome : ∀ part, item? = some part →
      ∃ fewer, levels = fewer + 1 ∧ ItemSpec limit fewer (level + 1) text part)
    {frontier : Frontier} (hplace : Place limit level before)
    (htext : text = written before ++ rest) (hclear : Clear (extent before) frontier) :
    ItemOutcome limit levels text before rest
      (otherwise (group item?) condition ⟨extent before, rest⟩ frontier) := by
  have hle := hclear.offset_le
  have hrun := group_run item? (extent before) rest frontier
  unfold otherwise
  generalize group item? _ frontier = outcome at hrun ⊢
  cases hrun with
  | noKeyword hkeyword =>
      simp only [hclear.refuse_note]
      exact condition_outcome hplace htext (.noKeyword hkeyword)
  | noParenthesis keyword gap following hsplit hopen =>
      have hpos : 0 < byteLength keyword := byteLength_pos (isName_of_isKeyword hsplit.isToken).1
      have hlt : frontier.offset < extent before + byteLength (keyword ++ gap) := by
        rw [byteLength_append]
        omega
      simp only [Frontier.note_of_lt _ hlt]
      exact condition_outcome hplace htext (.noParenthesis keyword gap following hsplit hopen)
  | tooDeep keyword gap following hitem hsplit =>
      -- as many groups are open as may be, and the scan has counted the same ones
      obtain rfl := hnone hitem
      obtain rfl : level = limit := hlimit
      refine .tooDeep _ _ ?_
      rw [htext, hsplit.text_eq]
      exact hplace.excess_of_full hsplit.isToken hsplit.isGap following
  | matched part keyword gap following items next updated hitem hsplit hbody =>
      obtain ⟨fewer, rfl, hpart⟩ := hsome part hitem
      have houtcome := body_outcome hpart (by omega) hplace hsplit.isToken hsplit.isGap
        (hsplit.text_eq ▸ htext) hle
      rw [hbody] at houtcome
      cases houtcome with
      | matched inner _ pieces after behind _ hinner hitems hdepth hafter hfollowing hupdated =>
          rw [extent_append] at hitems
          refine .matched _ _ _ _ (.group _ keyword gap inner items pieces after hsplit.isToken
            hsplit.isGap hinner hitems hafter) ?_ ?_ hupdated
          · rw [Node.depth]
            omega
          · simp [hsplit.text_eq, hfollowing, opening, closing]
  | bodyFailed part keyword gap following updated hitem hsplit hbody =>
      obtain ⟨fewer, rfl, hpart⟩ := hsome part hitem
      have houtcome := body_outcome hpart (by omega) hplace hsplit.isToken hsplit.isGap
        (hsplit.text_eq ▸ htext) hle
      rw [hbody] at houtcome
      cases houtcome with
      | refused _ hlt hrefused =>
          -- the condition at the same place gets no further than the parenthesis
          have hlt' : extent before < updated.offset := by omega
          simp only [Frontier.refuse_of_gt _ _ hlt', condition_failed_after_group hsplit hlt]
          exact .refused updated hlt' hrefused
  | bodyTooDeep part keyword gap following offset updated hitem hsplit hbody =>
      obtain ⟨fewer, rfl, hpart⟩ := hsome part hitem
      have houtcome := body_outcome hpart (by omega) hplace hsplit.isToken hsplit.isGap
        (hsplit.text_eq ▸ htext) hle
      rw [hbody] at houtcome
      cases houtcome with
      | tooDeep _ _ hdeep => exact .tooDeep offset updated hdeep

/-- The matcher of an item, begun at a place for items with a clear record, returns one of the
listed outcomes. -/
theorem item_outcome (hlimit : level + levels = limit) {frontier : Frontier}
    (hplace : Place limit level before) (htext : text = written before ++ rest)
    (hclear : Clear (extent before) frontier) :
    ItemOutcome limit levels text before rest (item levels ⟨extent before, rest⟩ frontier) := by
  induction levels generalizing level before rest frontier with
  | zero =>
      rw [item]
      refine group_or_condition_outcome hlimit (fun _ ↦ rfl) ?_ hplace htext hclear
      intro part hpart
      exact absurd hpart (Option.some_ne_none part).symm
  | succ levels ih =>
      rw [item]
      refine group_or_condition_outcome hlimit ?_ ?_ hplace htext hclear
      · intro hnone
        exact absurd hnone (Option.some_ne_none _)
      intro part hpart
      obtain rfl := Option.some.inj hpart
      refine ⟨levels, rfl, ?_⟩
      intro inside following updated hinside hfollowing hupdated
      exact ih (by omega) hinside hfollowing (Or.inl hupdated)

/-- What the matcher of a whole text can return. -/
inductive TextOutcome (limit : Nat) (text : List Char) : Outcome Node × Frontier → Prop where
  | matched (root : Node) (pieces : List Piece) (next : Cursor) (frontier : Frontier) :
      Layout 0 root pieces → root.depth ≤ limit → text = written pieces →
      TextOutcome limit text (.matched root next, frontier)
  | refused (frontier : Frontier) :
      RefusedAt limit text frontier → TextOutcome limit text (.failed, frontier)
  | tooDeep (offset : Nat) (frontier : Frontier) :
      Depth.excessFrom? limit .start 0 text = some offset →
      TextOutcome limit text (.tooDeep offset, frontier)

/-- A whole text is a layout, or refused, or nests too deeply. -/
theorem matchText_outcome (limit : Nat) (text : List Char) :
    TextOutcome limit text (matchText limit text) := by
  have hclear : Clear (extent []) .start := Or.inr rfl
  have hplace : Place limit 0 [] := .start
  have htext : text = written [] ++ text := rfl
  have hitem := item_outcome (Nat.zero_add limit) hplace htext hclear
  rw [extent_nil] at hitem
  unfold matchText Grammar.expression
  simp only [named, bind_apply, andThen]
  generalize item limit _ _ = outcome at hitem ⊢
  cases hitem with
  | noItem hnone =>
      exact .refused _ ⟨[], text, rfl, rfl, .item 0 [] text _ .start hnone rfl⟩
  | refused frontier hlt hrefused =>
      rw [extent_nil] at hlt
      simp only [Frontier.refuse_of_gt _ _ hlt]
      exact .refused frontier hrefused
  | tooDeep offset frontier hdeep => exact .tooDeep offset frontier hdeep
  | matched root pieces following frontier hroot hdepth htext hlt =>
      rw [extent_nil, Nat.zero_add] at hlt
      cases following with
      | nil => exact .matched root pieces _ _ hroot hdepth (by simpa using htext)
      | cons c following =>
          have hend : Token.endOfText (c :: following) = none := rfl
          have hpos : 0 < extent pieces := byteLength_pos hroot.written_ne_nil
          simp only [extent_nil, Nat.zero_add, token_failed hend, Frontier.note_of_lt _ hlt]
          rw [Frontier.refuse_of_gt _ _ (by exact hpos)]
          exact .refused _ ⟨pieces, c :: following, htext, rfl,
            .finish root pieces _ hroot (List.cons_ne_nil _ _)⟩

end ModelQuery.Grammar
