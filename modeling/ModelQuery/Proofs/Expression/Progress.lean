import ModelQuery.Proofs.Expression.Place

/-!
# What may follow the beginning of an expression

A reader of an expression, character by character, that never goes back: `Progress.step`. After any
beginning of an expression it knows how many groups are open and which part comes next, and so which
kinds of tokens may begin there (`Progress.expected`). It refuses nothing and stands somewhere after
any text at all; what matters is that every layout leads it from token to token as it expects them
(`Layout.leads`). Since it has one state only after a text, the tokens that may follow the text in
any layout are among those that it expects.
-/

namespace ModelQuery.Expression

open Text

/-- Which part of an expression a reader is in: before an item, in or behind a name with the given
letters, in or behind a symbol, in a quoted value, or in a bare value or behind an item. -/
inductive Stage where
  | item
  | name (letters : List Char)
  | symbol
  | quoted (quote : Char)
  | ended
  deriving DecidableEq

/-- Where a reader stands: how many groups are open, and the part that it is in. -/
structure Progress where
  level : Nat
  stage : Stage
  deriving DecidableEq

namespace Progress

/-- The reader stands before the expression. -/
def start : Progress :=
  ⟨0, .item⟩

/-- Where the reader stands after one more character. Blank space leaves it in the same part, as
does every character that cannot stand there. -/
def step (progress : Progress) (c : Char) : Progress :=
  match progress.stage with
  | .item => if Token.isNameCharacter c then ⟨progress.level, .name [c]⟩ else progress
  | .name letters =>
      if Token.isNameCharacter c then ⟨progress.level, .name (letters ++ [c])⟩
      else if c = '(' then ⟨progress.level + 1, .item⟩
      else if isBlank c then progress
      else ⟨progress.level, .symbol⟩
  | .symbol =>
      if c = '\'' ∨ c = '"' then ⟨progress.level, .quoted c⟩
      else if Token.isWordCharacter c then ⟨progress.level, .ended⟩
      else progress
  | .quoted quote => if c = quote then ⟨progress.level, .ended⟩ else progress
  | .ended =>
      if c = ',' then ⟨progress.level, .item⟩
      else if c = ')' then ⟨progress.level - 1, .ended⟩
      else progress

/-- Where the reader stands after some more characters. -/
def feed (progress : Progress) (text : List Char) : Progress :=
  text.foldl step progress

/-- The kinds of tokens that may begin where the reader stands. -/
def expected (progress : Progress) : List Construct :=
  match progress.stage with
  | .item => [.keyword, .attributeName]
  | .name letters => if IsKeyword letters then [.openParenthesis, .operator] else [.operator]
  | .symbol => [.singleQuoted, .doubleQuoted, .bareWord]
  | .quoted _ => []
  | .ended => if progress.level = 0 then [.endOfText] else [.comma, .closeParenthesis]

theorem feed_append (progress : Progress) (left right : List Char) :
    progress.feed (left ++ right) = (progress.feed left).feed right :=
  List.foldl_append

theorem feed_cons (progress : Progress) (c : Char) (text : List Char) :
    progress.feed (c :: text) = (progress.step c).feed text :=
  rfl

/-- Where no character of a text takes the reader any further, it stays. -/
theorem feed_eq_self {progress : Progress} {text : List Char}
    (h : ∀ c ∈ text, progress.step c = progress) : progress.feed text = progress := by
  induction text with
  | nil => rfl
  | cons c text ih =>
      obtain ⟨hc, htail⟩ := List.forall_mem_cons.mp h
      rw [feed_cons, hc]
      exact ih htail

variable {level : Nat}

/-- Outside of quotes a gap is passed over. -/
theorem feed_gap {stage : Stage} {text : List Char} (h : IsGap text)
    (hstage : ∀ quote, stage ≠ .quoted quote) : feed ⟨level, stage⟩ text = ⟨level, stage⟩ := by
  refine feed_eq_self ?_
  intro c hc
  have hblank := h c hc
  have hname := Token.isNameCharacter_of_isBlank c hblank
  have hword := Token.isWordCharacter_of_isBlank c hblank
  have hmark : ∀ mark, isBlank mark = false → c ≠ mark := by
    rintro _ hmark rfl
    rw [hmark] at hblank
    cases hblank
  cases stage with
  | item => simp [step, hname]
  | name letters => simp [step, hname, hblank, hmark '(' (by decide)]
  | symbol => simp [step, hword, hmark '\'' (by decide), hmark '"' (by decide)]
  | quoted quote => exact absurd rfl (hstage quote)
  | ended => simp [step, hmark ',' (by decide), hmark ')' (by decide)]

/-- The letters of a name are collected. -/
theorem feed_letters (letters : List Char) {text : List Char}
    (h : ∀ c ∈ text, Token.isNameCharacter c = true) :
    feed ⟨level, .name letters⟩ text = ⟨level, .name (letters ++ text)⟩ := by
  induction text generalizing letters with
  | nil => simp [feed]
  | cons c text ih =>
      obtain ⟨hc, htail⟩ := List.forall_mem_cons.mp h
      have hstep : step ⟨level, .name letters⟩ c = ⟨level, .name (letters ++ [c])⟩ := by
        simp [step, hc]
      rw [feed_cons, hstep, ih _ htail, List.append_assoc]
      rfl

/-- A name begins an item. -/
theorem feed_name {text : List Char} (h : IsName text) :
    feed ⟨level, .item⟩ text = ⟨level, .name text⟩ := by
  obtain ⟨hne, hall⟩ := h
  cases text with
  | nil => exact absurd rfl hne
  | cons c text =>
      obtain ⟨hc, htail⟩ := List.forall_mem_cons.mp hall
      have hstep : step ⟨level, .item⟩ c = ⟨level, .name [c]⟩ := by simp [step, hc]
      rw [feed_cons, hstep, feed_letters [c] htail]
      rfl

/-- A symbol follows a name. -/
theorem feed_symbol {letters text : List Char} (h : IsSymbol text) :
    feed ⟨level, .name letters⟩ text = ⟨level, .symbol⟩ := by
  obtain ⟨operator, -, rfl⟩ := h
  cases operator <;> rfl

/-- A quoted value ends with its closing quote. -/
theorem feed_quoted {quote : Char} (hquote : quote = '\'' ∨ quote = '"') {text : List Char}
    (h : IsQuoted quote text) : feed ⟨level, .symbol⟩ text = ⟨level, .ended⟩ := by
  obtain ⟨body, hbody, rfl⟩ := h
  have hopen : step ⟨level, .symbol⟩ quote = ⟨level, .quoted quote⟩ := by simp [step, hquote]
  have hinside : feed ⟨level, .quoted quote⟩ body = ⟨level, .quoted quote⟩ := by
    refine feed_eq_self ?_
    intro c hc
    have hne : c ≠ quote := fun heq ↦ hbody (heq ▸ hc)
    simp [step, hne]
  have hclose : step ⟨level, .quoted quote⟩ quote = ⟨level, .ended⟩ := by simp [step]
  rw [feed_cons, hopen, feed_append, hinside, feed_cons, hclose]
  rfl

/-- A bare value follows a symbol, and its further characters change nothing. -/
theorem feed_word {text : List Char} (h : IsWord text) :
    feed ⟨level, .symbol⟩ text = ⟨level, .ended⟩ := by
  obtain ⟨hne, hall⟩ := h
  have hmark : ∀ c ∈ text, ∀ mark, Token.isWordCharacter mark = false → c ≠ mark := by
    rintro _ hc mark hmark rfl
    rw [hall _ hc] at hmark
    cases hmark
  cases text with
  | nil => exact absurd rfl hne
  | cons c text =>
      obtain ⟨hc, htail⟩ := List.forall_mem_cons.mp hmark
      have hstep : step ⟨level, .symbol⟩ c = ⟨level, .ended⟩ := by
        simp [step, hall c List.mem_cons_self, hc '\'' (by decide), hc '"' (by decide)]
      rw [feed_cons, hstep]
      refine feed_eq_self ?_
      intro d hd
      have hd := htail d hd
      simp [step, hd ',' (by decide), hd ')' (by decide)]

/-- A value ends an item. -/
theorem feed_value {quote : Quote} {text : List Char} (h : quote.construct.IsToken text) :
    feed ⟨level, .symbol⟩ text = ⟨level, .ended⟩ := by
  cases quote with
  | bare => exact feed_word h
  | single => exact feed_quoted (Or.inl rfl) h
  | double => exact feed_quoted (Or.inr rfl) h

/-- A value in any form is expected behind a symbol. -/
theorem value_mem_expected (quote : Quote) : quote.construct ∈ expected ⟨level, .symbol⟩ := by
  cases quote <;> simp [expected, Quote.construct]

/-- A symbol is expected behind every name. -/
theorem operator_mem_expected (letters : List Char) :
    .operator ∈ expected ⟨level, .name letters⟩ := by
  by_cases h : IsKeyword letters
  · simp [expected, h]
  · simp [expected, h]

end Progress

/-- `Leads progress pieces next` says that the pieces take the reader from the one place to the
other, and that every token among them is expected where it begins. -/
inductive Leads : Progress → List Piece → Progress → Prop where
  | nil (progress : Progress) : Leads progress [] progress
  | token (progress next : Progress) (kind : Construct) (text : List Char) (pieces : List Piece) :
      kind ∈ progress.expected → Leads (progress.feed text) pieces next →
      Leads progress (.token kind text :: pieces) next
  | gap (progress next : Progress) (text : List Char) (pieces : List Piece) :
      Leads (progress.feed text) pieces next → Leads progress (.gap text :: pieces) next

/-- Pieces that lead somewhere can be followed by others that lead on from there. -/
theorem Leads.append {progress middle next : Progress} {left right : List Piece}
    (hleft : Leads progress left middle) (hright : Leads middle right next) :
    Leads progress (left ++ right) next := by
  induction hleft with
  | nil => exact hright
  | token progress _ kind text pieces hkind _ ih => exact .token _ _ kind text _ hkind (ih hright)
  | gap progress _ text pieces _ ih => exact .gap _ _ text _ (ih hright)

/-- Pieces lead to where their characters take the reader. -/
theorem Leads.feed {progress next : Progress} {pieces : List Piece}
    (h : Leads progress pieces next) : progress.feed (written pieces) = next := by
  induction h with
  | nil => rfl
  | token progress _ kind text pieces _ _ ih => rw [written_token, Progress.feed_append, ih]
  | gap progress _ text pieces _ ih => rw [written_gap, Progress.feed_append, ih]

/-- Every token is expected where it begins. -/
theorem Leads.mem_expected {progress next : Progress} {before after : List Piece}
    {kind : Construct} {text : List Char}
    (h : Leads progress (before ++ .token kind text :: after) next) :
    kind ∈ (progress.feed (written before)).expected := by
  induction before generalizing progress with
  | nil => cases h with | token _ _ _ _ _ hkind => exact hkind
  | cons piece before ih =>
      cases h with
      | token _ _ _ read _ _ hrest =>
          rw [written_token, Progress.feed_append]
          exact ih hrest
      | gap _ _ read _ hrest =>
          rw [written_gap, Progress.feed_append]
          exact ih hrest

variable {level : Nat}

/-- A condition is read as expected. -/
theorem leads_comparison {name before symbol after raw : List Char} {quote : Quote}
    (hname : IsName name) (hbefore : IsGap before) (hsymbol : IsSymbol symbol)
    (hafter : IsGap after) (hraw : quote.construct.IsToken raw) :
    Leads ⟨level, .item⟩ (comparison name before symbol after quote raw) ⟨level, .ended⟩ := by
  refine .token _ _ _ _ _ (by simp [Progress.expected]) ?_
  rw [Progress.feed_name hname]
  refine .gap _ _ _ _ ?_
  rw [Progress.feed_gap hbefore (by simp)]
  refine .token _ _ _ _ _ (Progress.operator_mem_expected name) ?_
  rw [Progress.feed_symbol hsymbol]
  refine .gap _ _ _ _ ?_
  rw [Progress.feed_gap hafter (by simp)]
  refine .token _ _ _ _ _ (Progress.value_mem_expected quote) ?_
  rw [Progress.feed_value hraw]
  exact .nil _

/-- What opens a group is read as expected. -/
theorem leads_opening {keyword before inner : List Char} (hkeyword : IsKeyword keyword)
    (hbefore : IsGap before) (hinner : IsGap inner) :
    Leads ⟨level, .item⟩ (opening keyword before inner) ⟨level + 1, .item⟩ := by
  refine .token _ _ _ _ _ (by simp [Progress.expected]) ?_
  rw [Progress.feed_name (isName_of_isKeyword hkeyword)]
  refine .gap _ _ _ _ ?_
  rw [Progress.feed_gap hbefore (by simp)]
  refine .token _ _ _ _ _ (by simp [Progress.expected, hkeyword]) ?_
  show Leads ⟨level + 1, .item⟩ [.gap inner] _
  refine .gap _ _ _ _ ?_
  rw [Progress.feed_gap hinner (by simp)]
  exact .nil _

/-- What separates two members is read as expected. -/
theorem leads_separator {before after : List Char} (hbefore : IsGap before) (hafter : IsGap after) :
    Leads ⟨level + 1, .ended⟩ (separator before after) ⟨level + 1, .item⟩ := by
  refine .gap _ _ _ _ ?_
  rw [Progress.feed_gap hbefore (by simp)]
  refine .token _ _ _ _ _ (by simp [Progress.expected]) ?_
  show Leads ⟨level + 1, .item⟩ [.gap after] _
  refine .gap _ _ _ _ ?_
  rw [Progress.feed_gap hafter (by simp)]
  exact .nil _

/-- What closes a group is read as expected. -/
theorem leads_closing {before : List Char} (hbefore : IsGap before) :
    Leads ⟨level + 1, .ended⟩ (closing before) ⟨level, .ended⟩ := by
  refine .gap _ _ _ _ ?_
  rw [Progress.feed_gap hbefore (by simp)]
  refine .token _ _ _ _ _ (by simp [Progress.expected]) ?_
  exact .nil _

mutual

/-- A written node is read as expected, and as many groups are open behind it as before. -/
theorem Layout.leads {offset : Nat} {node : Node} {pieces : List Piece}
    (h : Layout offset node pieces) {level : Nat} :
    Leads ⟨level, .item⟩ pieces ⟨level, .ended⟩ := by
  cases h with
  | condition _ name before symbol after quote raw hname hbefore hsymbol hafter hraw =>
      exact leads_comparison hname hbefore hsymbol hafter hraw
  | group _ keyword before inner items pieces after hkeyword hbefore hinner hitems hafter =>
      exact ((leads_opening hkeyword hbefore hinner).append hitems.leads).append
        (leads_closing hafter)

/-- Written members are read as expected inside of a group. -/
theorem Layouts.leads {offset : Nat} {nodes : List Node} {pieces : List Piece}
    (h : Layouts offset nodes pieces) {level : Nat} :
    Leads ⟨level + 1, .item⟩ pieces ⟨level + 1, .ended⟩ := by
  cases h with
  | last _ node pieces hnode => exact hnode.leads
  | more _ node first before after nodes pieces hnode hbefore hafter hnodes =>
      exact (hnode.leads.append (leads_separator hbefore hafter)).append hnodes.leads

end

/-- The beginning of an expression up to a place for items leads before an item, inside as many
groups as are open there. -/
theorem Place.leads {limit level : Nat} {before : List Piece} (h : Place limit level before) :
    Leads .start before ⟨level, .item⟩ := by
  induction h with
  | start => exact .nil _
  | inside level before keyword gap inner _ _ hkeyword hgap hinner ih =>
      exact ih.append (leads_opening hkeyword hgap hinner)
  | further level before node pieces gap after _ hnode _ hgap hafter ih =>
      exact (ih.append hnode.leads).append (leads_separator hgap hafter)

end ModelQuery.Expression
