import ModelQuery.Expression.Depth
import ModelQuery.Proofs.Expression.Place

/-!
# The depth scan on written expressions

The scan for parentheses that open one group too many knows only quotes and parentheses. On what is
written for a node it passes to the end and counts as many open groups as before, if the node nests
no deeper than the limit allows (`Layout.excessFrom?`). At a place for items it counts exactly the
groups around the place (`Place.excessFrom?`), so a parenthesis that opens one group too many there
is the one that the scan reports (`Place.excess_of_full`).
-/

namespace ModelQuery.Expression

open Depth (excessFrom? State)

/-- No character of the text is a quote or a parenthesis. -/
def IsPlain (text : List Char) : Prop :=
  ∀ c ∈ text, c ∉ ['\'', '"', '(', ')']

/-- A text whose characters belong to a class without quotes and parentheses is plain. -/
theorem isPlain_of_class {accepts : Char → Bool} {text : List Char}
    (hclass : ['\'', '"', '(', ')'].any accepts = false)
    (hall : ∀ c ∈ text, accepts c = true) : IsPlain text := by
  intro c hc hmark
  have hmarks := List.any_eq_false.mp hclass c hmark
  exact hmarks (hall c hc)

theorem isPlain_of_isGap {text : List Char} (h : IsGap text) : IsPlain text :=
  isPlain_of_class (by decide) h

theorem isPlain_of_isWord {text : List Char} (h : IsWord text) : IsPlain text :=
  isPlain_of_class (by decide) h.2

theorem isPlain_of_isSymbol {text : List Char} (h : IsSymbol text) : IsPlain text := by
  obtain ⟨operator, -, rfl⟩ := h
  cases operator <;> simp [IsPlain, Operator.symbol]

variable {limit level : Nat}

/-- The scan passes over plain text. -/
theorem excessFrom?_plain {text : List Char} (h : IsPlain text) (hlevel : level ≤ limit)
    (offset : Nat) (rest : List Char) :
    excessFrom? limit ⟨level, none⟩ offset (text ++ rest) =
      excessFrom? limit ⟨level, none⟩ (offset + Text.byteLength text) rest := by
  induction text generalizing offset with
  | nil => rfl
  | cons c text ih =>
      obtain ⟨hmark, htail⟩ := List.forall_mem_cons.mp h
      have hc : c ≠ '\'' ∧ c ≠ '"' ∧ c ≠ '(' ∧ c ≠ ')' := by
        simpa using hmark
      have hstep : State.step ⟨level, none⟩ c = ⟨level, none⟩ := by
        simp [State.step, hc]
      rw [List.cons_append, excessFrom?]
      simp only [hstep, if_neg (Nat.not_lt.mpr hlevel)]
      rw [ih htail, Text.byteLength, Nat.add_assoc]

/-- Inside a quote the scan looks for the closing quote only. -/
theorem excessFrom?_body {quote : Char} {body : List Char} (h : quote ∉ body)
    (hlevel : level ≤ limit) (offset : Nat) (rest : List Char) :
    excessFrom? limit ⟨level, some quote⟩ offset (body ++ rest) =
      excessFrom? limit ⟨level, some quote⟩ (offset + Text.byteLength body) rest := by
  induction body generalizing offset with
  | nil => rfl
  | cons c body ih =>
      obtain ⟨hc, hbody⟩ : quote ≠ c ∧ quote ∉ body := by simpa using h
      have hstep : State.step ⟨level, some quote⟩ c = ⟨level, some quote⟩ := by
        simp [State.step, Ne.symm hc]
      rw [List.cons_append, excessFrom?]
      simp only [hstep, if_neg (Nat.not_lt.mpr hlevel)]
      rw [ih hbody, Text.byteLength, Nat.add_assoc]

/-- The scan passes over a quoted value, whatever stands in it. -/
theorem excessFrom?_quoted {quote : Char} {text : List Char} (hquote : quote = '\'' ∨ quote = '"')
    (h : IsQuoted quote text) (hlevel : level ≤ limit) (offset : Nat) (rest : List Char) :
    excessFrom? limit ⟨level, none⟩ offset (text ++ rest) =
      excessFrom? limit ⟨level, none⟩ (offset + Text.byteLength text) rest := by
  obtain ⟨body, hbody, rfl⟩ := h
  have hopen : State.step ⟨level, none⟩ quote = ⟨level, some quote⟩ := by
    simp [State.step, hquote]
  have hclose : State.step ⟨level, some quote⟩ quote = ⟨level, none⟩ := by
    simp [State.step]
  rw [List.cons_append, excessFrom?]
  simp only [hopen, if_neg (Nat.not_lt.mpr hlevel)]
  rw [List.append_assoc, excessFrom?_body hbody hlevel, List.singleton_append, excessFrom?]
  simp only [hclose, if_neg (Nat.not_lt.mpr hlevel)]
  simp only [Text.byteLength, Text.byteLength_append]
  congr 1
  omega

/-- The scan passes over every token but a parenthesis. -/
theorem excessFrom?_token (kind : Construct) {token : List Char} (h : kind.IsToken token)
    (hopen : kind ≠ .openParenthesis) (hclose : kind ≠ .closeParenthesis)
    (hlevel : level ≤ limit) (offset : Nat) (rest : List Char) :
    excessFrom? limit ⟨level, none⟩ offset (token ++ rest) =
      excessFrom? limit ⟨level, none⟩ (offset + Text.byteLength token) rest := by
  cases kind with
  | attributeName => exact excessFrom?_plain (isPlain_of_isWord (isWord_of_isName h)) hlevel _ _
  | keyword =>
      exact excessFrom?_plain (isPlain_of_isWord (isWord_of_isName (isName_of_isKeyword h))) hlevel
        _ _
  | bareWord => exact excessFrom?_plain (isPlain_of_isWord h) hlevel _ _
  | operator => exact excessFrom?_plain (isPlain_of_isSymbol h) hlevel _ _
  | comma => exact excessFrom?_plain (by obtain rfl := h; simp [IsPlain]) hlevel _ _
  | endOfText => exact excessFrom?_plain (by obtain rfl := h; simp [IsPlain]) hlevel _ _
  | singleQuoted => exact excessFrom?_quoted (Or.inl rfl) h hlevel _ _
  | doubleQuoted => exact excessFrom?_quoted (Or.inr rfl) h hlevel _ _
  | openParenthesis => exact absurd rfl hopen
  | closeParenthesis => exact absurd rfl hclose
  | whole | group | members | condition => exact h.elim

/-- A parenthesis opens one more group, if there may be one. -/
theorem excessFrom?_open (hlevel : level < limit) (offset : Nat) (rest : List Char) :
    excessFrom? limit ⟨level, none⟩ offset ('(' :: rest) =
      excessFrom? limit ⟨level + 1, none⟩ (offset + Text.byteLength ['(']) rest := by
  have hstep : State.step ⟨level, none⟩ '(' = ⟨level + 1, none⟩ := by
    simp [State.step]
  rw [excessFrom?]
  simp only [hstep, if_neg (Nat.not_lt.mpr hlevel)]
  rfl

/-- A parenthesis closes the innermost group. -/
theorem excessFrom?_close (hlevel : level ≤ limit) (offset : Nat) (rest : List Char) :
    excessFrom? limit ⟨level + 1, none⟩ offset (')' :: rest) =
      excessFrom? limit ⟨level, none⟩ (offset + Text.byteLength [')']) rest := by
  have hstep : State.step ⟨level + 1, none⟩ ')' = ⟨level, none⟩ := by
    simp [State.step]
  rw [excessFrom?]
  simp only [hstep, if_neg (Nat.not_lt.mpr hlevel)]
  rfl

/-- The scan passes over what opens a group and counts it. -/
theorem excessFrom?_opening {keyword before inner : List Char} (hkeyword : IsKeyword keyword)
    (hbefore : IsGap before) (hinner : IsGap inner) (hlevel : level < limit) (offset : Nat)
    (rest : List Char) :
    excessFrom? limit ⟨level, none⟩ offset (written (opening keyword before inner) ++ rest) =
      excessFrom? limit ⟨level + 1, none⟩ (offset + extent (opening keyword before inner))
        rest := by
  have hle : level ≤ limit := Nat.le_of_lt hlevel
  simp only [opening, written_token, written_gap, written_nil, List.append_nil, List.append_assoc,
    extent_token, extent_gap, extent_nil]
  rw [excessFrom?_token .keyword hkeyword (by decide) (by decide) hle,
    excessFrom?_plain (isPlain_of_isGap hbefore) hle, List.singleton_append,
    excessFrom?_open hlevel, excessFrom?_plain (isPlain_of_isGap hinner) hlevel]
  congr 1
  omega

/-- The scan passes over what separates two members. -/
theorem excessFrom?_separator {before after : List Char} (hbefore : IsGap before)
    (hafter : IsGap after) (hlevel : level ≤ limit) (offset : Nat) (rest : List Char) :
    excessFrom? limit ⟨level, none⟩ offset (written (separator before after) ++ rest) =
      excessFrom? limit ⟨level, none⟩ (offset + extent (separator before after)) rest := by
  simp only [separator, written_token, written_gap, written_nil, List.append_nil, List.append_assoc,
    extent_token, extent_gap, extent_nil]
  rw [excessFrom?_plain (isPlain_of_isGap hbefore) hlevel,
    excessFrom?_token .comma rfl (by decide) (by decide) hlevel,
    excessFrom?_plain (isPlain_of_isGap hafter) hlevel]
  congr 1
  omega

/-- The scan passes over what closes a group. -/
theorem excessFrom?_closing {before : List Char} (hbefore : IsGap before) (hlevel : level < limit)
    (offset : Nat) (rest : List Char) :
    excessFrom? limit ⟨level + 1, none⟩ offset (written (closing before) ++ rest) =
      excessFrom? limit ⟨level, none⟩ (offset + extent (closing before)) rest := by
  simp only [closing, written_token, written_gap, written_nil, List.append_nil, List.append_assoc,
    extent_token, extent_gap, extent_nil]
  rw [excessFrom?_plain (isPlain_of_isGap hbefore) hlevel, List.singleton_append,
    excessFrom?_close (Nat.le_of_lt hlevel), Nat.add_zero, Nat.add_assoc]

mutual

/-- The scan passes over a written node that nests no deeper than it may. -/
theorem Layout.excessFrom? {offset : Nat} {node : Node} {pieces : List Piece}
    (h : Layout offset node pieces) {limit level : Nat} (hdepth : level + node.depth ≤ limit)
    (start : Nat) (rest : List Char) :
    Depth.excessFrom? limit ⟨level, none⟩ start (written pieces ++ rest) =
      Depth.excessFrom? limit ⟨level, none⟩ (start + extent pieces) rest := by
  cases h with
  | condition _ name before symbol after quote raw hname hbefore hsymbol hafter hraw =>
      have hlevel : level ≤ limit := by omega
      -- the values are the only tokens here that may hold a parenthesis, and they are quoted then
      have hopen : quote.construct ≠ .openParenthesis := by cases quote <;> decide
      have hclose : quote.construct ≠ .closeParenthesis := by cases quote <;> decide
      simp only [comparison, written_token, written_gap, written_nil, List.append_nil,
        List.append_assoc, extent_token, extent_gap, extent_nil]
      rw [excessFrom?_token .attributeName hname (by decide) (by decide) hlevel,
        excessFrom?_plain (isPlain_of_isGap hbefore) hlevel,
        excessFrom?_token .operator hsymbol (by decide) (by decide) hlevel,
        excessFrom?_plain (isPlain_of_isGap hafter) hlevel,
        excessFrom?_token _ hraw hopen hclose hlevel]
      congr 1
      omega
  | group _ keyword before inner items pieces after hkeyword hbefore hinner hitems hafter =>
      rw [Node.depth] at hdepth
      have hlevel : level < limit := by omega
      rw [written_append, written_append, List.append_assoc, List.append_assoc,
        excessFrom?_opening hkeyword hbefore hinner hlevel,
        hitems.excessFrom? (by omega), excessFrom?_closing hafter hlevel]
      simp only [extent_append, Nat.add_assoc]

/-- The scan passes over written nodes that nest no deeper than they may. -/
theorem Layouts.excessFrom? {offset : Nat} {nodes : List Node} {pieces : List Piece}
    (h : Layouts offset nodes pieces) {limit level : Nat}
    (hdepth : level + Node.depthAll nodes ≤ limit) (start : Nat) (rest : List Char) :
    Depth.excessFrom? limit ⟨level, none⟩ start (written pieces ++ rest) =
      Depth.excessFrom? limit ⟨level, none⟩ (start + extent pieces) rest := by
  cases h with
  | last _ node pieces hnode =>
      rw [Node.depthAll] at hdepth
      exact hnode.excessFrom? (by omega) start rest
  | more _ node first before after nodes pieces hnode hbefore hafter hnodes =>
      rw [Node.depthAll] at hdepth
      rw [written_append, written_append, List.append_assoc, List.append_assoc,
        hnode.excessFrom? (by omega), excessFrom?_separator hbefore hafter (by omega),
        hnodes.excessFrom? (by omega)]
      simp only [extent_append, Nat.add_assoc]

end

/-- At a place for items the scan has counted the groups around the place. -/
theorem Place.excessFrom? {before : List Piece} (h : Place limit level before)
    (rest : List Char) :
    Depth.excessFrom? limit .start 0 (written before ++ rest) =
      Depth.excessFrom? limit ⟨level, none⟩ (extent before) rest := by
  induction h generalizing rest with
  | start => rfl
  | inside level before keyword gap inner _ hlevel hkeyword hgap hinner ih =>
      rw [written_append, List.append_assoc, ih, excessFrom?_opening hkeyword hgap hinner hlevel,
        extent_append]
  | further level before node pieces gap after _ hnode hdepth hgap hafter ih =>
      rw [written_append, written_append, List.append_assoc, List.append_assoc, ih,
        hnode.excessFrom? hdepth, excessFrom?_separator hgap hafter (by omega), extent_append,
        extent_append]

/-- Where as many groups are open as may be, the scan reports the next parenthesis. -/
theorem Place.excess_of_full {before : List Piece} (h : Place limit limit before)
    {keyword gap : List Char} (hkeyword : IsKeyword keyword) (hgap : IsGap gap)
    (rest : List Char) :
    Depth.excessFrom? limit .start 0 (written before ++ (keyword ++ gap ++ ('(' :: rest))) =
      some (extent before + Text.byteLength (keyword ++ gap)) := by
  have hstep : State.step ⟨limit, none⟩ '(' = ⟨limit + 1, none⟩ := by
    simp [State.step]
  rw [h.excessFrom?, List.append_assoc,
    excessFrom?_token .keyword hkeyword (by decide) (by decide) (Nat.le_refl limit),
    excessFrom?_plain (isPlain_of_isGap hgap) (Nat.le_refl limit), Depth.excessFrom?]
  simp only [hstep, if_pos (Nat.lt_succ_self limit)]
  rw [Text.byteLength_append, Nat.add_assoc]

end ModelQuery.Expression
