import ModelQuery.Expression.Construct
import ModelQuery.Expression.Token
import ModelQuery.Expression.Value
import ModelQuery.Proofs.Text.Run

/-!
# Layouts of expressions

How a tree may be written. `Layout offset node pieces` says that the node, whose text begins at the
byte offset, is written as the pieces: tokens, with gaps of blank space between them. There is no
order of alternatives in it and no longest match; a token is any text of its class, and a gap is any
run of blank characters, also none. `IsLayout` is the relation between whole texts and trees.

Classes of tokens and the three shapes that pieces come in have names of their own, because the
proofs about scanners, about the depth of nesting and about refusals all speak of them.
-/

namespace ModelQuery

/-- The character may stand in a symbol behind its first character. -/
def Token.continuesSymbol (c : Char) : Bool :=
  c == '=' || c == '~' || c == '$'

/-- The text is a name of an attribute. -/
def IsName (text : List Char) : Prop :=
  text ≠ [] ∧ ∀ c ∈ text, Token.isNameCharacter c = true

instance (text : List Char) : Decidable (IsName text) :=
  @instDecidableAnd _ _ _ (List.decidableBAll _ text)

/-- The text is a value without quotes. -/
def IsWord (text : List Char) : Prop :=
  text ≠ [] ∧ ∀ c ∈ text, Token.isWordCharacter c = true

instance (text : List Char) : Decidable (IsWord text) :=
  @instDecidableAnd _ _ _ (List.decidableBAll _ text)

/-- The text is a group keyword in some letter case. -/
def IsKeyword (text : List Char) : Prop :=
  ∃ combinator ∈ Combinator.all, Text.fold text = combinator.keyword.toList

instance (text : List Char) : Decidable (IsKeyword text) :=
  inferInstanceAs (Decidable (∃ combinator ∈ Combinator.all, _))

/-- The text is the symbol of an operator. -/
def IsSymbol (text : List Char) : Prop :=
  ∃ operator ∈ Operator.all, text = operator.symbol.toList

instance (text : List Char) : Decidable (IsSymbol text) :=
  inferInstanceAs (Decidable (∃ operator ∈ Operator.all, _))

/-- The text is a value between two quotes of one kind, with no such quote inside. -/
def IsQuoted (quote : Char) (text : List Char) : Prop :=
  ∃ body, quote ∉ body ∧ text = quote :: (body ++ [quote])

/-- The text is a gap between tokens: blank space, or nothing. -/
def IsGap (text : List Char) : Prop :=
  ∀ c ∈ text, Text.isBlank c = true

instance (text : List Char) : Decidable (IsGap text) :=
  List.decidableBAll _ text

namespace Construct

/-- The text is a token of the kind. The end of a text is an empty token, and a construct that
consists of several tokens is none itself. -/
def IsToken : Construct → List Char → Prop
  | attributeName => IsName
  | keyword => IsKeyword
  | openParenthesis => (· = ['('])
  | closeParenthesis => (· = [')'])
  | comma => (· = [','])
  | operator => IsSymbol
  | singleQuoted => IsQuoted '\''
  | doubleQuoted => IsQuoted '"'
  | bareWord => IsWord
  | endOfText => (· = [])
  | whole | group | members | condition => fun _ ↦ False

/-- A complete token of the kind stands at the beginning of the text; the end of the text stands
only where nothing is left. -/
def StandsAt (kind : Construct) (text : List Char) : Prop :=
  match kind with
  | endOfText => text = []
  | _ => ∃ token rest, kind.IsToken token ∧ text = token ++ rest

end Construct

/-- The kind of token that a value is written as. -/
def Quote.construct : Quote → Construct
  | .bare => .bareWord
  | .single => .singleQuoted
  | .double => .doubleQuoted

namespace Expression

/-- A stretch of a written expression: a token of some kind, or the gap between two tokens. -/
inductive Piece where
  | token (kind : Construct) (text : List Char)
  | gap (text : List Char)

/-- The characters of the piece. -/
def Piece.text : Piece → List Char
  | .token _ text => text
  | .gap text => text

/-- The text that the pieces make up. -/
def written (pieces : List Piece) : List Char :=
  pieces.flatMap Piece.text

/-- The length in bytes of the text that the pieces make up. -/
def extent (pieces : List Piece) : Nat :=
  Text.byteLength (written pieces)

@[simp] theorem written_nil : written [] = [] :=
  rfl

@[simp] theorem written_token (kind : Construct) (text : List Char) (pieces : List Piece) :
    written (.token kind text :: pieces) = text ++ written pieces :=
  rfl

@[simp] theorem written_gap (text : List Char) (pieces : List Piece) :
    written (.gap text :: pieces) = text ++ written pieces :=
  rfl

@[simp] theorem written_append (left right : List Piece) :
    written (left ++ right) = written left ++ written right := by
  simp [written]

@[simp] theorem extent_nil : extent [] = 0 :=
  rfl

@[simp] theorem extent_token (kind : Construct) (text : List Char) (pieces : List Piece) :
    extent (.token kind text :: pieces) = Text.byteLength text + extent pieces := by
  simp [extent, Text.byteLength_append]

@[simp] theorem extent_gap (text : List Char) (pieces : List Piece) :
    extent (.gap text :: pieces) = Text.byteLength text + extent pieces := by
  simp [extent, Text.byteLength_append]

@[simp] theorem extent_append (left right : List Piece) :
    extent (left ++ right) = extent left + extent right := by
  simp [extent, Text.byteLength_append]

/-- A condition: an attribute, an operator symbol and a value, with a gap around the symbol. -/
def comparison (name before symbol after : List Char) (quote : Quote) (raw : List Char) :
    List Piece :=
  [.token .attributeName name, .gap before, .token .operator symbol, .gap after,
    .token quote.construct raw]

/-- What stands before the members of a group: the keyword and the opening parenthesis. -/
def opening (keyword before inner : List Char) : List Piece :=
  [.token .keyword keyword, .gap before, .token .openParenthesis ['('], .gap inner]

/-- What stands between two members of a group. -/
def separator (before after : List Char) : List Piece :=
  [.gap before, .token .comma [','], .gap after]

/-- What stands behind the last member of a group. -/
def closing (before : List Char) : List Piece :=
  [.gap before, .token .closeParenthesis [')']]

mutual

/-- `Layout offset node pieces` says that the pieces, the first of which begins at the byte offset,
are a way of writing the node. -/
inductive Layout : Nat → Node → List Piece → Prop where
  | condition (offset : Nat) (name before symbol after : List Char) (quote : Quote)
      (raw : List Char) :
      IsName name → IsGap before → IsSymbol symbol → IsGap after →
      quote.construct.IsToken raw →
      Layout offset
        (.condition (String.ofList name) (String.ofList symbol) ⟨quote, String.ofList raw⟩
          (offset + Text.byteLength (name ++ before)))
        (comparison name before symbol after quote raw)
  | group (offset : Nat) (keyword before inner : List Char) (items : List Node)
      (pieces : List Piece) (after : List Char) :
      IsKeyword keyword → IsGap before → IsGap inner →
      Layouts (offset + extent (opening keyword before inner)) items pieces →
      IsGap after →
      Layout offset (.group (String.ofList keyword) items offset)
        (opening keyword before inner ++ pieces ++ closing after)

/-- `Layouts offset nodes pieces` says that the pieces are a way of writing the nodes, one or more
of them, separated by commas. -/
inductive Layouts : Nat → List Node → List Piece → Prop where
  | last (offset : Nat) (node : Node) (pieces : List Piece) :
      Layout offset node pieces → Layouts offset [node] pieces
  | more (offset : Nat) (node : Node) (first : List Piece) (before after : List Char)
      (nodes : List Node) (pieces : List Piece) :
      Layout offset node first → IsGap before → IsGap after →
      Layouts (offset + extent (first ++ separator before after)) nodes pieces →
      Layouts offset (node :: nodes) (first ++ separator before after ++ pieces)

end

/-- The text is a way of writing the tree. -/
def IsLayout (text : String) (root : Node) : Prop :=
  ∃ pieces, Layout 0 root pieces ∧ written pieces = text.toList

mutual

/-- How many groups of the node are nested in one another. -/
def Node.depth : Node → Nat
  | .group _ items _ => Node.depthAll items + 1
  | .condition .. => 0

/-- How many groups of the nodes are nested in one another, in the deepest of them. -/
def Node.depthAll : List Node → Nat
  | [] => 0
  | node :: nodes => max (Node.depth node) (Node.depthAll nodes)

end

/-! ## What tokens begin with -/

/-- A letter that folds to a small letter is a character of attributes. -/
theorem isNameCharacter_of_toLower (c : Char) (h : c.toLower.isLower = true) :
    Token.isNameCharacter c = true := by
  have halpha : c.isAlpha = true := by
    unfold Char.toLower at h
    split at h
    next hupper =>
      have hupper : c.isUpper = true := decide_eq_true hupper
      show (c.isUpper || c.isLower) = true
      rw [hupper, Bool.true_or]
    next =>
      show (c.isUpper || c.isLower) = true
      rw [h, Bool.or_true]
  simp [Token.isNameCharacter, Token.isAlphanumeric, halpha]

/-- The letters of a keyword are characters of attributes. -/
theorem isName_of_isKeyword {text : List Char} (h : IsKeyword text) : IsName text := by
  obtain ⟨combinator, -, hfold⟩ := h
  have hlower : combinator.keyword.toList.all Char.isLower = true := by
    cases combinator <;> decide
  constructor
  · rintro rfl
    cases combinator <;> cases hfold
  · intro c hc
    refine isNameCharacter_of_toLower c (List.all_eq_true.mp hlower _ ?_)
    rw [← hfold]
    exact List.mem_map_of_mem hc

/-- No keyword is the beginning of another one. -/
theorem eq_nil_of_isKeyword_append {text more : List Char} (h : IsKeyword text)
    (hmore : IsKeyword (text ++ more)) : more = [] := by
  obtain ⟨combinator, -, hfold⟩ := h
  obtain ⟨other, -, hother⟩ := hmore
  have hsplit : combinator.keyword.toList ++ Text.fold more = other.keyword.toList := by
    rw [← hfold, ← hother]
    simp [Text.fold]
  have hnil : Text.fold more = [] := by
    cases combinator <;> cases other <;> simp_all [Combinator.keyword]
  simpa [Text.fold] using hnil

/-- Every text begins with a gap that is as long as it can be. -/
theorem exists_gap (text : List Char) :
    ∃ gap rest, text = gap ++ rest ∧ IsGap gap ∧ Text.beginsWith Text.isBlank rest = false :=
  ⟨text.takeWhile Text.isBlank, text.dropWhile Text.isBlank,
    List.takeWhile_append_dropWhile.symm, Text.of_mem_takeWhile, Text.beginsWith_dropWhile _ _⟩

/-- A text that begins with a name begins with a character of one. -/
theorem beginsWith_isName {name : List Char} (h : IsName name) (rest : List Char) :
    Text.beginsWith Token.isNameCharacter (name ++ rest) = true := by
  obtain ⟨hne, hall⟩ := h
  cases name with
  | nil => exact absurd rfl hne
  | cons c name => exact hall c List.mem_cons_self

/-- A name and a bare value begin with no blank. -/
theorem beginsWith_isBlank_word {text : List Char} (h : IsWord text) (rest : List Char) :
    Text.beginsWith Text.isBlank (text ++ rest) = false := by
  obtain ⟨hne, hall⟩ := h
  cases text with
  | nil => exact absurd rfl hne
  | cons c text => exact Token.isBlank_of_isWordCharacter c (hall c List.mem_cons_self)

/-- A name may stand as a bare value. -/
theorem isWord_of_isName {text : List Char} (h : IsName text) : IsWord text :=
  ⟨h.1, fun c hc ↦ Token.isWordCharacter_of_isNameCharacter c (h.2 c hc)⟩

/-- No token begins with a blank. -/
theorem beginsWith_isBlank_token (kind : Construct) {token : List Char} (h : kind.IsToken token)
    (hkind : kind ≠ .endOfText) (rest : List Char) :
    Text.beginsWith Text.isBlank (token ++ rest) = false := by
  cases kind with
  | attributeName => exact beginsWith_isBlank_word (isWord_of_isName h) rest
  | keyword => exact beginsWith_isBlank_word (isWord_of_isName (isName_of_isKeyword h)) rest
  | bareWord => exact beginsWith_isBlank_word h rest
  | openParenthesis | closeParenthesis | comma =>
      obtain rfl := h
      rfl
  | operator =>
      obtain ⟨operator, -, rfl⟩ := h
      cases operator <;> rfl
  | singleQuoted | doubleQuoted =>
      obtain ⟨body, -, rfl⟩ := h
      rfl
  | endOfText => exact absurd rfl hkind
  | whole | group | members | condition => exact h.elim

/-- A symbol begins outside names, and not with a parenthesis. -/
theorem beginsWith_symbol {symbol : List Char} (h : IsSymbol symbol) (rest : List Char) :
    Text.beginsWith Token.isNameCharacter (symbol ++ rest) = false ∧
      ∀ following, symbol ++ rest ≠ '(' :: following := by
  obtain ⟨operator, -, rfl⟩ := h
  constructor
  · cases operator <;> rfl
  · intro following
    cases operator <;> simp [Operator.symbol]

/-- A symbol is not empty. -/
theorem ne_nil_of_isSymbol {symbol : List Char} (h : IsSymbol symbol) : symbol ≠ [] := by
  obtain ⟨operator, -, rfl⟩ := h
  cases operator <;> decide

/-- A value is not empty as it is written. -/
theorem ne_nil_of_isValue {quote : Quote} {raw : List Char} (h : quote.construct.IsToken raw) :
    raw ≠ [] := by
  cases quote with
  | bare => exact h.1
  | single | double =>
      obtain ⟨body, -, rfl⟩ := h
      exact List.cons_ne_nil _ _

/-- A character that may stand in a symbol behind the first one stands neither in a gap nor in a
bare value. -/
theorem notMem_of_continuesSymbol (c : Char) (h : Token.continuesSymbol c = true) :
    Text.isBlank c = false ∧ Token.isWordCharacter c = false := by
  simp only [Token.continuesSymbol, Bool.or_eq_true, beq_iff_eq] at h
  rcases h with (rfl | rfl) | rfl <;> decide

/-- A gap does not make the symbol before it longer. -/
theorem continuesSymbol_of_isBlank (c : Char) (h : Text.isBlank c = true) :
    Token.continuesSymbol c = false :=
  Text.eq_false_of_disjoint (fun d hd ↦ (notMem_of_continuesSymbol d hd).1) c h

/-- A value does not make the symbol before it longer. -/
theorem beginsWith_value {quote : Quote} {raw : List Char} (h : quote.construct.IsToken raw)
    (rest : List Char) : Text.beginsWith Token.continuesSymbol (raw ++ rest) = false := by
  cases quote with
  | single | double =>
      obtain ⟨body, -, rfl⟩ := h
      rfl
  | bare =>
      obtain ⟨hne, hall⟩ := h
      cases raw with
      | nil => exact absurd rfl hne
      | cons c raw =>
          exact Text.eq_false_of_disjoint (fun d hd ↦ (notMem_of_continuesSymbol d hd).2) c
            (hall c List.mem_cons_self)

/-- A written node begins with a character of a name. -/
theorem Layout.beginsWith_isNameCharacter {offset : Nat} {node : Node} {pieces : List Piece}
    (h : Layout offset node pieces) (rest : List Char) :
    Text.beginsWith Token.isNameCharacter (written pieces ++ rest) = true := by
  cases h with
  | condition _ name before symbol after quote raw hname =>
      rw [comparison, written_token, List.append_assoc]
      exact beginsWith_isName hname _
  | group _ keyword before inner items pieces after hkeyword =>
      rw [opening, List.cons_append, List.cons_append, written_token, List.append_assoc]
      exact beginsWith_isName (isName_of_isKeyword hkeyword) _

/-- The first of several written nodes begins with a character of a name. -/
theorem Layouts.beginsWith_isNameCharacter {offset : Nat} {nodes : List Node}
    {pieces : List Piece} (h : Layouts offset nodes pieces) (rest : List Char) :
    Text.beginsWith Token.isNameCharacter (written pieces ++ rest) = true := by
  cases h with
  | last _ _ _ hnode => exact hnode.beginsWith_isNameCharacter rest
  | more _ _ first before after _ pieces hnode =>
      rw [List.append_assoc, written_append, List.append_assoc]
      exact hnode.beginsWith_isNameCharacter _

/-- A written node is not empty. -/
theorem Layout.written_ne_nil {offset : Nat} {node : Node} {pieces : List Piece}
    (h : Layout offset node pieces) : written pieces ≠ [] := by
  intro hnil
  have hbegin := h.beginsWith_isNameCharacter []
  rw [hnil] at hbegin
  cases hbegin

/-- Several written nodes have at least as many characters as there are nodes. -/
theorem Layouts.length_le {offset : Nat} {nodes : List Node} {pieces : List Piece}
    (h : Layouts offset nodes pieces) : nodes.length ≤ (written pieces).length := by
  cases h with
  | last _ node pieces hnode =>
      exact List.length_pos_iff.mpr hnode.written_ne_nil
  | more _ node first before after nodes pieces hnode _ _ hnodes =>
      have hfirst := List.length_pos_iff.mpr hnode.written_ne_nil
      have hrest := hnodes.length_le
      simp only [List.length_cons, written_append, List.length_append]
      omega

/-- What begins with a character of a name begins with no blank. -/
theorem beginsWith_isBlank_of_isNameCharacter {text : List Char}
    (h : Text.beginsWith Token.isNameCharacter text = true) :
    Text.beginsWith Text.isBlank text = false := by
  cases text with
  | nil => rfl
  | cons c text =>
      exact Token.isBlank_of_isNameCharacter c h

/-! ## Where a layout begins and ends -/

/-- A value ends with no blank. -/
theorem ends_value {quote : Quote} {raw : List Char} (h : quote.construct.IsToken raw)
    (rest : List Char) : Text.beginsWith Text.isBlank (raw.reverse ++ rest) = false := by
  cases quote with
  | bare =>
      refine beginsWith_isBlank_word ⟨?_, ?_⟩ rest
      · simpa using h.1
      · intro c hc
        exact h.2 c (List.mem_reverse.mp hc)
  | single | double =>
      obtain ⟨body, -, rfl⟩ := h
      rw [List.reverse_cons, List.reverse_append]
      rfl

/-- What is written for a node begins with no blank. -/
theorem Layout.begins {offset : Nat} {node : Node} {pieces : List Piece}
    (h : Layout offset node pieces) : Text.beginsWith Text.isBlank (written pieces) = false := by
  have hname := h.beginsWith_isNameCharacter []
  rw [List.append_nil] at hname
  exact beginsWith_isBlank_of_isNameCharacter hname

/-- What is written for a node ends with no blank. -/
theorem Layout.ends {offset : Nat} {node : Node} {pieces : List Piece}
    (h : Layout offset node pieces) :
    Text.beginsWith Text.isBlank (written pieces).reverse = false := by
  cases h with
  | condition _ name before symbol after quote raw _ _ _ _ hraw =>
      simp only [comparison, written_token, written_gap, written_nil, List.append_nil,
        List.reverse_append, List.append_assoc]
      exact ends_value hraw _
  | group _ keyword before inner items pieces after =>
      simp only [closing, written_append, written_token, written_gap, written_nil,
        List.reverse_append, List.append_assoc]
      rfl

end Expression

end ModelQuery
