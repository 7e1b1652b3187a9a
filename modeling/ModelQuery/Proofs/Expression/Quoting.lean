import ModelQuery.Proofs.Expression.Nesting
import ModelQuery.Proofs.Expression.Normal

/-!
# Open quotes

Whether a quote is open behind a text depends on the quotes in it only, and not on its parentheses.
`ClosesQuotes` says that none is, which is what the depth scan goes by. A stretch from a quote to
the next one of its kind that begins behind such a text cannot begin inside of a token without
quotes (`exists_behind_unquoted`), and if it begins at a quoted token, it is that token
(`quoted_cases`).
-/

namespace ModelQuery

namespace Depth

/-- Where the depth scan stands behind a text, whether or not it has found anything. -/
def scan (state : State) (text : List Char) : State :=
  text.foldl State.step state

@[simp] theorem scan_cons (state : State) (c : Char) (text : List Char) :
    scan state (c :: text) = scan (state.step c) text :=
  rfl

@[simp] theorem scan_append (state : State) (left right : List Char) :
    scan state (left ++ right) = scan (scan state left) right :=
  List.foldl_append

/-- Which quote is open does not depend on how many parentheses are. -/
theorem quote_step {left right : State} (h : left.quote = right.quote) (c : Char) :
    (left.step c).quote = (right.step c).quote := by
  unfold State.step
  rw [h]
  cases right.quote with
  | some quote => by_cases hc : c = quote <;> simp [hc, h]
  | none =>
      by_cases hmark : c = '\'' ∨ c = '"'
      · simp only [if_pos hmark]
      · by_cases hopen : c = '('
        · simp [hopen]
        · by_cases hclose : c = ')' <;> simp [hmark, hopen, hclose, h]

/-- Which quote is open behind a text does not depend on how many parentheses were before it. -/
theorem quote_scan {left right : State} (h : left.quote = right.quote) (text : List Char) :
    (scan left text).quote = (scan right text).quote := by
  induction text generalizing left right with
  | nil => exact h
  | cons c text ih => exact ih (quote_step h c)

end Depth

namespace Expression

open Depth

/-- No quote is open behind the text. -/
def ClosesQuotes (text : List Char) : Prop :=
  (Depth.scan .start text).quote = none

instance (text : List Char) : Decidable (ClosesQuotes text) :=
  inferInstanceAs (Decidable (_ = _))

/-- There is no quote in the text. -/
structure IsUnquoted (text : List Char) : Prop where
  no_single : '\'' ∉ text
  no_double : '"' ∉ text

variable {quote : Char}

/-! ## Texts without quotes and quoted texts -/

/-- There is no quote in a plain text. -/
theorem IsPlain.isUnquoted {text : List Char} (h : IsPlain text) : IsUnquoted text where
  no_single hc := h _ hc (by decide)
  no_double hc := h _ hc (by decide)

/-- There is no quote in two texts without one. -/
theorem IsUnquoted.append {left right : List Char} (hleft : IsUnquoted left)
    (hright : IsUnquoted right) : IsUnquoted (left ++ right) where
  no_single := by simpa using ⟨hleft.no_single, hright.no_single⟩
  no_double := by simpa using ⟨hleft.no_double, hright.no_double⟩

/-- Another character before a text without quotes makes no quote of it. -/
theorem IsUnquoted.cons {c : Char} {text : List Char} (hc : c ≠ '\'' ∧ c ≠ '"')
    (h : IsUnquoted text) : IsUnquoted (c :: text) where
  no_single := by simpa using ⟨hc.1.symm, h.no_single⟩
  no_double := by simpa using ⟨hc.2.symm, h.no_double⟩

/-- The first character of a text without quotes is none, and behind it there are none. -/
theorem IsUnquoted.of_cons {c : Char} {text : List Char} (h : IsUnquoted (c :: text)) :
    (c ≠ '\'' ∧ c ≠ '"') ∧ IsUnquoted text :=
  ⟨⟨fun hc ↦ h.no_single (hc ▸ List.mem_cons_self), fun hc ↦ h.no_double (hc ▸ List.mem_cons_self)⟩,
    ⟨fun hmem ↦ h.no_single (List.mem_cons_of_mem c hmem),
      fun hmem ↦ h.no_double (List.mem_cons_of_mem c hmem)⟩⟩

/-- Either quote is no character of a text without quotes. -/
theorem IsUnquoted.notMem {text : List Char} (h : IsUnquoted text)
    (hquote : quote = '\'' ∨ quote = '"') : quote ∉ text := by
  rcases hquote with rfl | rfl
  · exact h.no_single
  · exact h.no_double

/-- Behind a text with no quote open, another text leaves one open if it does so on its own. -/
theorem closesQuotes_append_iff {left right : List Char} (h : ClosesQuotes left) :
    ClosesQuotes (left ++ right) ↔ ClosesQuotes right := by
  have hquote : (scan .start left).quote = State.start.quote := h
  rw [ClosesQuotes, ClosesQuotes, scan_append, quote_scan hquote]

/-- A text without quotes leaves none open. -/
theorem IsUnquoted.closesQuotes {text : List Char} (h : IsUnquoted text) : ClosesQuotes text := by
  induction text with
  | nil => rfl
  | cons c text ih =>
      obtain ⟨hc, hunquoted⟩ := h.of_cons
      have htail : ClosesQuotes text := ih hunquoted
      have hstep : (State.start.step c).quote = State.start.quote := by
        by_cases hopen : c = '('
        · simp [State.step, State.start, hopen]
        · by_cases hclose : c = ')' <;> simp [State.step, State.start, hc, hopen, hclose]
      show (scan (State.start.step c) text).quote = none
      rw [quote_scan hstep]
      exact htail

/-- An open quote stays open as long as none of its kind follows. -/
theorem scan_body {body : List Char} (h : quote ∉ body) (level : Nat) :
    scan ⟨level, some quote⟩ body = ⟨level, some quote⟩ := by
  induction body with
  | nil => rfl
  | cons c body ih =>
      obtain ⟨hc, hbody⟩ : quote ≠ c ∧ quote ∉ body := by simpa using h
      have hstep : State.step ⟨level, some quote⟩ c = ⟨level, some quote⟩ := by
        simp [State.step, Ne.symm hc]
      rw [scan_cons, hstep, ih hbody]

/-- A quote opens. -/
theorem step_quote (hquote : quote = '\'' ∨ quote = '"') (level : Nat) :
    State.step ⟨level, none⟩ quote = ⟨level, some quote⟩ := by
  simp [State.step, hquote]

/-- Behind a quote and a text without that quote, it is open. -/
theorem not_closesQuotes_of_notMem (hquote : quote = '\'' ∨ quote = '"') {body : List Char}
    (h : quote ∉ body) : ¬ ClosesQuotes (quote :: body) := by
  unfold ClosesQuotes State.start
  rw [scan_cons, step_quote hquote, scan_body h]
  exact Option.some_ne_none quote

/-- A quoted text leaves no quote open. -/
theorem IsQuoted.closesQuotes (hquote : quote = '\'' ∨ quote = '"') {text : List Char}
    (h : IsQuoted quote text) : ClosesQuotes text := by
  obtain ⟨body, hbody, rfl⟩ := h
  unfold ClosesQuotes State.start
  rw [scan_cons, step_quote hquote, scan_append, scan_body hbody]
  simp [scan, State.step]

/-! ## Where a quoted stretch begins -/

/-- What begins with a quote, behind a text that leaves none open, begins behind every text without
quotes that stands first. -/
theorem exists_behind_unquoted (hquote : quote = '\'' ∨ quote = '"')
    {text rest before following : List Char} (h : IsUnquoted text)
    (hsplit : text ++ rest = before ++ quote :: following) (hclosed : ClosesQuotes before) :
    ∃ between, before = text ++ between ∧ rest = between ++ quote :: following ∧
      ClosesQuotes between := by
  rcases List.append_eq_append_iff.mp hsplit with ⟨between, rfl, rfl⟩ | ⟨more, rfl, hmore⟩
  · exact ⟨between, rfl, rfl, (closesQuotes_append_iff h.closesQuotes).mp hclosed⟩
  · cases more with
    | nil => exact ⟨[], by simp, hmore.symm, rfl⟩
    | cons c more =>
        obtain ⟨rfl, -⟩ := List.cons.inj hmore
        exact absurd (List.mem_append_right before List.mem_cons_self) (h.notMem hquote)

/-- A stretch from a quote to the next one of its kind, behind a text that leaves none open, is the
quoted text that stands first, or it begins behind that. -/
theorem quoted_cases (hquote : quote = '\'' ∨ quote = '"') {mark : Char}
    (hmark : mark = '\'' ∨ mark = '"') {value rest before body after : List Char}
    (hvalue : mark ∉ value) (hbody : quote ∉ body) (hclosed : ClosesQuotes before)
    (hsplit : mark :: (value ++ [mark]) ++ rest = before ++ quote :: (body ++ quote :: after)) :
    (before = [] ∧ mark = quote ∧ value = body ∧ rest = after) ∨
      ∃ between, before = mark :: (value ++ [mark]) ++ between ∧
        rest = between ++ quote :: (body ++ quote :: after) ∧ ClosesQuotes between := by
  have hwhole : ClosesQuotes (mark :: (value ++ [mark])) :=
    IsQuoted.closesQuotes hmark ⟨value, hvalue, rfl⟩
  cases before with
  | nil =>
      rw [List.nil_append, List.cons_append, List.append_assoc, List.singleton_append] at hsplit
      obtain ⟨rfl, htail⟩ := List.cons.inj hsplit
      -- both stretches end at the first quote of this kind
      have hstop : ∀ {text : List Char}, mark ∉ text → ∀ c ∈ text, (c != mark) = true := by
        intro text htext c hc
        simpa using fun h : c = mark ↦ htext (h ▸ hc)
      obtain ⟨rfl, hrest⟩ := Text.run_unique (hstop hvalue) (hstop hbody) (by simp) (by simp) htail
      exact Or.inl ⟨rfl, rfl, rfl, (List.cons.inj hrest).2⟩
  | cons c before =>
      rw [List.cons_append, List.cons_append, List.append_assoc, List.singleton_append] at hsplit
      obtain ⟨rfl, htail⟩ := List.cons.inj hsplit
      rcases List.append_eq_append_iff.mp htail with ⟨more, rfl, hmore⟩ | ⟨more, rfl, -⟩
      · cases more with
        | nil =>
            rw [List.append_nil] at hclosed
            exact absurd hclosed (not_closesQuotes_of_notMem hmark hvalue)
        | cons d more =>
            obtain ⟨rfl, rfl⟩ := List.cons.inj hmore
            refine Or.inr ⟨more, by simp, rfl, ?_⟩
            refine (closesQuotes_append_iff hwhole).mp ?_
            simpa using hclosed
      · exact absurd hclosed (not_closesQuotes_of_notMem hmark
          fun hmem ↦ hvalue (List.mem_append_left more hmem))

/-! ## What normalizing does to the text around -/

/-- No quote is open, or one of the two kinds. -/
def HoldsQuote (state : State) : Prop :=
  ∀ c, state.quote = some c → c = '\'' ∨ c = '"'

/-- After every character, no quote is open or one of the two kinds. -/
theorem HoldsQuote.step {state : State} (h : HoldsQuote state) (c : Char) :
    HoldsQuote (state.step c) := by
  unfold State.step
  cases hquote : state.quote with
  | some quote =>
      by_cases hc : c = quote
      · simp [hc, HoldsQuote]
      · simpa [hc] using h
  | none =>
      by_cases hmark : c = '\'' ∨ c = '"'
      · simp [hmark, HoldsQuote]
      · by_cases hopen : c = '('
        · simp [hopen, HoldsQuote]
        · by_cases hclose : c = ')' <;> simp [hmark, hopen, hclose, HoldsQuote, hquote]

/-- A blank is passed over, also in a quoted value. -/
theorem step_of_isBlank {state : State} (h : HoldsQuote state) {c : Char}
    (hc : Text.isBlank c = true) : state.step c = state := by
  have hmark : ∀ mark : Char, Text.isBlank mark = false → c ≠ mark := by
    rintro mark hmark rfl
    rw [hc] at hmark
    cases hmark
  unfold State.step
  cases hquote : state.quote with
  | some quote =>
      have hne : c ≠ quote := by
        rcases h quote hquote with rfl | rfl
        · exact hmark '\'' (by decide)
        · exact hmark '"' (by decide)
      simp [hne]
  | none =>
      simp [hmark '\'' (by decide), hmark '"' (by decide), hmark '(' (by decide),
        hmark ')' (by decide)]

/-- It makes no difference which of the blanks in a text are taken out. -/
theorem scan_filter {state : State} (h : HoldsQuote state) {keep : Char → Bool}
    (hkeep : ∀ c, keep c = false → Text.isBlank c = true) (text : List Char) :
    scan state (text.filter keep) = scan state text := by
  induction text generalizing state with
  | nil => rfl
  | cons c text ih =>
      cases hc : keep c with
      | true =>
          rw [List.filter_cons_of_pos hc, scan_cons, scan_cons, ih (h.step c)]
      | false =>
          rw [List.filter_cons_of_neg (by simp [hc]), scan_cons,
            step_of_isBlank h (hkeep c hc), ih h]

/-- It makes no difference whether the blanks at the beginning are taken off. -/
theorem scan_trimStart {state : State} (h : HoldsQuote state) (text : List Char) :
    scan state (Text.trimStart text) = scan state text := by
  unfold Text.trimStart
  induction text with
  | nil => rfl
  | cons c text ih =>
      rw [List.dropWhile_cons, scan_cons]
      split
      next hc => rw [step_of_isBlank h hc, ih]
      next => rfl

end Expression

end ModelQuery
