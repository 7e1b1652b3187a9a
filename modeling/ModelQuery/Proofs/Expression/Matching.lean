import ModelQuery.Expression.Grammar
import ModelQuery.Proofs.Expression.Scanning

/-!
# Runs of matchers

What the matchers of the grammar do at a cursor, part by part: which cursor a token or a gap leads
to, and what becomes of the record of refusals. A token that is refused is entered behind the others
if it stands where the record stands, begins a new record if it stands further on, and is forgotten
if it stands further back (`Frontier.note`). A refusal further on is never touched by the construct
that failed because of it (`Frontier.refuse_of_gt`).
-/

namespace ModelQuery

namespace Frontier

/-- The record after a token of the kind was refused at the offset. -/
def note (kind : Construct) (offset : Nat) (frontier : Frontier) : Frontier :=
  frontier.refuse kind offset (frontier.countAt offset)

/-- A refusal further on than the record begins a new one. -/
theorem note_of_lt {frontier : Frontier} {offset : Nat} (kind : Construct)
    (h : frontier.offset < offset) : frontier.note kind offset = ⟨offset, [kind]⟩ := by
  have hne : offset ≠ frontier.offset := Nat.ne_of_gt h
  simp [note, refuse, countAt, hne, h]

/-- A refusal where the record stands is entered behind the others. -/
theorem note_here (kind : Construct) (offset : Nat) (refused : List Construct) :
    note kind offset ⟨offset, refused⟩ = ⟨offset, refused ++ [kind]⟩ := by
  simp [note, refuse, countAt]

/-- A refusal further back than the record is forgotten. -/
theorem note_of_gt {frontier : Frontier} {offset : Nat} (kind : Construct)
    (h : offset < frontier.offset) : frontier.note kind offset = frontier := by
  have hne : offset ≠ frontier.offset := Nat.ne_of_lt h
  have hnot : ¬ frontier.offset < offset := Nat.not_lt_of_gt h
  simp [note, refuse, countAt, hne, hnot]

/-- The record stands at the furthest refusal. -/
theorem offset_note (kind : Construct) (offset : Nat) (frontier : Frontier) :
    (frontier.note kind offset).offset = max frontier.offset offset := by
  rcases Nat.lt_trichotomy frontier.offset offset with h | h | h
  · rw [note_of_lt kind h]
    exact (Nat.max_eq_right (Nat.le_of_lt h)).symm
  · subst h
    show (note kind frontier.offset ⟨frontier.offset, frontier.refused⟩).offset = _
    rw [note_here, Nat.max_self]
  · rw [note_of_gt kind h]
    exact (Nat.max_eq_left (Nat.le_of_lt h)).symm

/-- A construct that failed leaves a refusal further on alone. -/
theorem refuse_of_gt {frontier : Frontier} {offset : Nat} (kind : Construct) (before : Nat)
    (h : offset < frontier.offset) : frontier.refuse kind offset before = frontier := by
  have hne : offset ≠ frontier.offset := Nat.ne_of_lt h
  have hnot : ¬ frontier.offset < offset := Nat.not_lt_of_gt h
  simp [refuse, countAt, hne, hnot]

/-- A construct that failed with one new entry where it was begun leaves that entry alone. -/
theorem refuse_single (kind : Construct) (offset : Nat) (refused : List Construct)
    (entry : Construct) :
    refuse kind offset refused.length ⟨offset, refused ++ [entry]⟩ =
      ⟨offset, refused ++ [entry]⟩ := by
  simp [refuse, countAt]

end Frontier

namespace Matcher

variable {α β : Type}

theorem bind_apply (first : Matcher α) (second : α → Matcher β) (cursor : Cursor)
    (frontier : Frontier) :
    (first >>= second) cursor frontier = andThen first second cursor frontier :=
  rfl

theorem pure_apply (value : α) (cursor : Cursor) (frontier : Frontier) :
    (pure value : Matcher α) cursor frontier = (.matched value cursor, frontier) :=
  rfl

theorem map_apply (f : α → β) (matcher : Matcher α) (cursor : Cursor) (frontier : Frontier) :
    (f <$> matcher) cursor frontier =
      andThen matcher (fun value ↦ succeed (f value)) cursor frontier :=
  rfl

/-- A token that is read is matched, and nothing is refused. -/
theorem token_matched {scan : Token.Scanner} {text read rest : List Char}
    (h : scan text = some (read, rest)) (kind : Construct) (offset : Nat) (frontier : Frontier) :
    token kind scan ⟨offset, text⟩ frontier =
      (.matched (String.ofList read) ⟨offset + Text.byteLength read, rest⟩, frontier) := by
  simp [token, named, scanned, h, Cursor.after]

/-- A token that is not read is refused. -/
theorem token_failed {scan : Token.Scanner} {text : List Char} (h : scan text = none)
    (kind : Construct) (offset : Nat) (frontier : Frontier) :
    token kind scan ⟨offset, text⟩ frontier = (.failed, frontier.note kind offset) := by
  simp [token, named, scanned, h, Frontier.note]

/-- A gap is skipped to its end. -/
theorem blanks_apply (offset : Nat) (text : List Char) (frontier : Frontier) :
    blanks ⟨offset, text⟩ frontier =
      (.matched () ⟨offset + Text.byteLength (text.takeWhile Text.isBlank),
        text.dropWhile Text.isBlank⟩, frontier) :=
  rfl

theorem position_apply (cursor : Cursor) (frontier : Frontier) :
    position cursor frontier = (.matched cursor.offset cursor, frontier) :=
  rfl

/-- The gap that is skipped is the one that stands before a text that begins with no blank. -/
theorem blanks_gap {gap rest : List Char} (hgap : IsGap gap)
    (hrest : Text.beginsWith Text.isBlank rest = false) (offset : Nat) (frontier : Frontier) :
    blanks ⟨offset, gap ++ rest⟩ frontier =
      (.matched () ⟨offset + Text.byteLength gap, rest⟩, frontier) := by
  rw [blanks_apply, Text.takeWhile_run hgap hrest, Text.dropWhile_run hgap hrest]

end Matcher

end ModelQuery
