import ModelQuery.Proofs.Expression.Quoting
import ModelQuery.Proofs.Expression.Survey

/-!
# Commas between conditions

A text tells how many conditions it has without being matched with the grammar: there is one more of
them than there are commas outside of quotes (`length_conditions_of_parse`). What is written for a
node with so many conditions has one comma less, and each separator in a group adds the one that is
missing (`Layout.outerCommas_append`). Normalizing takes out blanks only, which are neither commas
nor quotes (`outerCommas_normalize`).
-/

namespace ModelQuery.Expression

/-- The number of commas outside of quotes in a text, at the beginning of which the given quote is
open, if one is. An open quote is closed by the same character only. -/
def outerCommas : Option Char → List Char → Nat
  | _, [] => 0
  | some quote, c :: rest => outerCommas (if c = quote then none else some quote) rest
  | none, c :: rest =>
      if c = '\'' ∨ c = '"' then outerCommas (some c) rest
      else if c = ',' then outerCommas none rest + 1
      else outerCommas none rest

/-- A text without quotes and commas has no part in the number. -/
theorem outerCommas_unquoted {text : List Char} (h : IsUnquoted text) (hcomma : ',' ∉ text)
    (rest : List Char) : outerCommas none (text ++ rest) = outerCommas none rest := by
  induction text with
  | nil => rfl
  | cons c text ih =>
      obtain ⟨hmark, htail⟩ := h.of_cons
      obtain ⟨hc, hrest⟩ : ',' ≠ c ∧ ',' ∉ text := by simpa using hcomma
      rw [List.cons_append, outerCommas, if_neg (by simp [hmark]), if_neg hc.symm]
      exact ih htail hrest

/-- An open quote stays open as long as none of its kind follows. -/
theorem outerCommas_body {quote : Char} {body : List Char} (h : quote ∉ body) (rest : List Char) :
    outerCommas (some quote) (body ++ rest) = outerCommas (some quote) rest := by
  induction body with
  | nil => rfl
  | cons c body ih =>
      obtain ⟨hc, hbody⟩ : quote ≠ c ∧ quote ∉ body := by simpa using h
      rw [List.cons_append, outerCommas, if_neg hc.symm]
      exact ih hbody

/-- A quoted value has no part in the number, whatever stands in it. -/
theorem outerCommas_quoted {quote : Char} {text : List Char} (hquote : quote = '\'' ∨ quote = '"')
    (h : IsQuoted quote text) (rest : List Char) :
    outerCommas none (text ++ rest) = outerCommas none rest := by
  obtain ⟨body, hbody, rfl⟩ := h
  rw [List.cons_append, outerCommas, if_pos hquote, List.append_assoc, outerCommas_body hbody,
    List.singleton_append, outerCommas, if_pos rfl]

/-- A gap has no part in the number. -/
theorem outerCommas_gap {text : List Char} (h : IsGap text) (rest : List Char) :
    outerCommas none (text ++ rest) = outerCommas none rest :=
  outerCommas_unquoted (isPlain_of_isGap h).isUnquoted
    (fun hcomma ↦ absurd (h _ hcomma) (by decide)) rest

/-- A bare value has no part in the number, and neither have names and keywords. -/
theorem outerCommas_word {text : List Char} (h : IsWord text) (rest : List Char) :
    outerCommas none (text ++ rest) = outerCommas none rest :=
  outerCommas_unquoted (isPlain_of_isWord h).isUnquoted
    (fun hcomma ↦ absurd (h.2 _ hcomma) (by decide)) rest

/-- No token but a comma has a part in the number. -/
theorem outerCommas_token (kind : Construct) {token : List Char} (h : kind.IsToken token)
    (hkind : kind ≠ .comma) (rest : List Char) :
    outerCommas none (token ++ rest) = outerCommas none rest := by
  cases kind with
  | attributeName => exact outerCommas_word (isWord_of_isName h) rest
  | keyword => exact outerCommas_word (isWord_of_isName (isName_of_isKeyword h)) rest
  | bareWord => exact outerCommas_word h rest
  | operator =>
      have hcomma : ',' ∉ token := by
        obtain ⟨operator, -, rfl⟩ := h
        cases operator <;> decide
      exact outerCommas_unquoted (isPlain_of_isSymbol h).isUnquoted hcomma rest
  | openParenthesis | closeParenthesis | endOfText =>
      obtain rfl := h
      exact outerCommas_unquoted ⟨by decide, by decide⟩ (by decide) rest
  | singleQuoted => exact outerCommas_quoted (Or.inl rfl) h rest
  | doubleQuoted => exact outerCommas_quoted (Or.inr rfl) h rest
  | comma => exact absurd rfl hkind
  | whole | group | members | condition => exact h.elim

/-- What separates two members of a group has one comma. -/
theorem outerCommas_separator {before after : List Char} (hbefore : IsGap before)
    (hafter : IsGap after) (rest : List Char) :
    outerCommas none (written (separator before after) ++ rest) = outerCommas none rest + 1 := by
  have hcomma : ∀ behind, outerCommas none (',' :: behind) = outerCommas none behind + 1 :=
    fun behind ↦ rfl
  simp only [separator, written_gap, written_token, written_nil, List.append_nil,
    List.append_assoc, List.singleton_append]
  rw [outerCommas_gap hbefore, List.cons_append, hcomma, outerCommas_gap hafter]

mutual

/-- In what is written for a node there is one comma less than there are conditions in the node. -/
theorem Layout.outerCommas_append {offset : Nat} {node : Node} {pieces : List Piece}
    (h : Layout offset node pieces) (rest : List Char) :
    outerCommas none (written pieces ++ rest) + 1 =
      (node.preorder.filter Node.isCondition).length + outerCommas none rest := by
  cases h with
  | condition _ name before symbol after quote raw hname hbefore hsymbol hafter hraw =>
      have hvalue : quote.construct ≠ .comma := by cases quote <;> decide
      simp only [comparison, written_token, written_gap, written_nil, List.append_nil,
        List.append_assoc]
      rw [outerCommas_token .attributeName hname (by decide), outerCommas_gap hbefore,
        outerCommas_token .operator hsymbol (by decide), outerCommas_gap hafter,
        outerCommas_token _ hraw hvalue, Nat.add_comm]
      rfl
  | group _ keyword before inner items pieces after hkeyword hbefore hinner hitems hafter =>
      have hinside := hitems.outerCommas_append (written (closing after) ++ rest)
      have hclosing : outerCommas none (written (closing after) ++ rest) =
          outerCommas none rest := by
        simp only [closing, written_token, written_gap, written_nil, List.append_nil,
          List.append_assoc]
        rw [outerCommas_gap hafter, outerCommas_token .closeParenthesis rfl (by decide)]
      rw [hclosing] at hinside
      simp only [opening, written_append, written_token, written_gap, written_nil,
        List.append_nil, List.append_assoc]
      rw [outerCommas_token .keyword hkeyword (by decide), outerCommas_gap hbefore,
        outerCommas_token .openParenthesis rfl (by decide), outerCommas_gap hinner, hinside]
      rfl

/-- In what is written for several nodes there is one comma less than there are conditions in
them. -/
theorem Layouts.outerCommas_append {offset : Nat} {nodes : List Node} {pieces : List Piece}
    (h : Layouts offset nodes pieces) (rest : List Char) :
    outerCommas none (written pieces ++ rest) + 1 =
      ((Node.preorderAll nodes).filter Node.isCondition).length + outerCommas none rest := by
  cases h with
  | last _ node pieces hnode =>
      rw [Node.preorderAll, Node.preorderAll, List.append_nil]
      exact hnode.outerCommas_append rest
  | more _ node first before after nodes pieces hnode hbefore hafter hnodes =>
      have hfirst := hnode.outerCommas_append
        (written (separator before after) ++ (written pieces ++ rest))
      have hlater := hnodes.outerCommas_append rest
      rw [outerCommas_separator hbefore hafter] at hfirst
      rw [written_append, written_append, List.append_assoc, List.append_assoc,
        Node.preorderAll, List.filter_append, List.length_append]
      omega

end

/-! ## Blanks -/

/-- A quote is not blank. -/
theorem isBlank_quote {quote : Char} (h : quote = '\'' ∨ quote = '"') :
    Text.isBlank quote = false := by
  rcases h with rfl | rfl <;> decide

/-- A blank at the beginning of a text makes no difference, also in a quoted value. -/
theorem outerCommas_blank {quote? : Option Char}
    (hquote : ∀ quote ∈ quote?, Text.isBlank quote = false) {c : Char}
    (hc : Text.isBlank c = true) (rest : List Char) :
    outerCommas quote? (c :: rest) = outerCommas quote? rest := by
  have hne : ∀ mark : Char, Text.isBlank mark = false → c ≠ mark := by
    rintro mark hmark rfl
    rw [hc] at hmark
    cases hmark
  cases quote? with
  | some quote => rw [outerCommas, if_neg (hne quote (hquote quote rfl))]
  | none =>
      have hmark : ¬ (c = '\'' ∨ c = '"') := by
        rintro (h | h)
        · exact hne '\'' (by decide) h
        · exact hne '"' (by decide) h
      rw [outerCommas, if_neg hmark, if_neg (hne ',' (by decide))]

/-- It makes no difference which of the blanks in a text are taken out. -/
theorem outerCommas_filter {keep : Char → Bool}
    (hkeep : ∀ c, keep c = false → Text.isBlank c = true) {quote? : Option Char}
    (hquote : ∀ quote ∈ quote?, Text.isBlank quote = false) (text : List Char) :
    outerCommas quote? (text.filter keep) = outerCommas quote? text := by
  induction text generalizing quote? with
  | nil => rfl
  | cons c text ih =>
      cases hc : keep c with
      | false =>
          rw [List.filter_cons_of_neg (by simp [hc]), outerCommas_blank hquote (hkeep c hc),
            ih hquote]
      | true =>
          rw [List.filter_cons_of_pos hc]
          cases quote? with
          | some quote =>
              rw [outerCommas, outerCommas, ih]
              intro opened hopened
              split at hopened
              next => cases hopened
              next => exact hquote opened hopened
          | none =>
              have hnone : outerCommas none (text.filter keep) = outerCommas none text :=
                ih fun _ h ↦ by cases h
              rw [outerCommas, outerCommas, hnone]
              by_cases hmark : c = '\'' ∨ c = '"'
              · rw [if_pos hmark, if_pos hmark, ih]
                rintro _ ⟨⟩
                exact isBlank_quote hmark
              · rw [if_neg hmark, if_neg hmark]

/-- A text that is normalized keeps its commas outside of quotes and gets no others. -/
theorem outerCommas_normalize (given : String) :
    outerCommas none (normalize given).toList = outerCommas none given.toList := by
  have hblanks : ∀ text : List Char,
      outerCommas none (text.filter (!Text.isBlank ·)) = outerCommas none text :=
    outerCommas_filter (by simp) (by simp)
  rw [← hblanks, filter_normalize, hblanks]

/-- An expression that is read has one more condition than its text has commas outside of quotes. -/
theorem length_conditions_of_parse {given : String} {tree : Expression}
    (h : parse given = .ok tree) :
    (tree.root.preorder.filter Node.isCondition).length = outerCommas none given.toList + 1 := by
  obtain ⟨-, -, pieces, hlayout, hwritten⟩ := layout_of_parse h
  have hcount := hlayout.outerCommas_append []
  rw [List.append_nil, hwritten, outerCommas_normalize] at hcount
  exact hcount.symm

end ModelQuery.Expression
