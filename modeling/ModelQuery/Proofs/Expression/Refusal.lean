import ModelQuery.Proofs.Expression.Progress
import ModelQuery.Proofs.Expression.Verdict

/-!
# What a refusal says

A text that no tree is written as, and that does not nest too deeply, is refused at an offset up to
which it is the beginning of some expression; the refusal names exactly the kinds of tokens that may
follow there, and none of them does.

`MayBegin` says which kinds of tokens may follow, with all layouts in view. That every named kind
may follow is shown by writing an expression on from the place where the text is refused; that no
other may is a matter of `Progress`, which expects the same kinds after the same text, whatever
layout the text is read in.
-/

namespace ModelQuery.Grammar

open Expression Text

/-- Behind the beginning of some expression a token of the kind may begin. Behind a whole expression
this is the end of the text. -/
inductive MayBegin (taken : List Char) : Construct → Prop where
  | token (root : Node) (before after : List Piece) (kind : Construct) (text : List Char) :
      Layout 0 root (before ++ .token kind text :: after) → written before = taken →
      MayBegin taken kind
  | finish (root : Node) (pieces : List Piece) :
      Layout 0 root pieces → written pieces = taken → MayBegin taken .endOfText

/-- What may begin behind a text is part of an expression that begins with the text. -/
theorem MayBegin.exists_layout {taken : List Char} {kind : Construct} (h : MayBegin taken kind) :
    ∃ more root, IsLayout (String.ofList (taken ++ more)) root := by
  cases h with
  | token root before after _ text hlayout htaken =>
      refine ⟨text ++ written after, root, _, hlayout, ?_⟩
      rw [String.toList_ofList, written_append, written_token, htaken]
  | finish root pieces hlayout htaken =>
      refine ⟨[], root, pieces, hlayout, ?_⟩
      rw [String.toList_ofList, List.append_nil, htaken]

/-- A token may begin only where a reader expects it. -/
theorem MayBegin.mem_expected {taken : List Char} {kind : Construct} (h : MayBegin taken kind) :
    kind ∈ (Progress.start.feed taken).expected := by
  cases h with
  | token root before after _ text hlayout htaken =>
      have hleads : Leads .start _ ⟨0, .ended⟩ := hlayout.leads
      rw [← htaken]
      exact hleads.mem_expected
  | finish root pieces hlayout htaken =>
      have hleads : Leads .start pieces ⟨0, .ended⟩ := hlayout.leads
      rw [← htaken, hleads.feed]
      exact List.mem_singleton.mpr rfl

/-- A text that is refused takes a reader to where it expects exactly what the refusal names. -/
theorem Refused.expected_eq {limit : Nat} {pieces : List Piece} {rest : List Char}
    {refused : List Construct} (h : Refused limit pieces rest refused) :
    (Progress.start.feed (written pieces)).expected = refused.flatMap tokens := by
  cases h with
  | item level before _ _ hplace _ htokens =>
      rw [hplace.leads.feed, htokens]
      rfl
  | name level before name gap _ hplace hname hkeyword hgap =>
      rw [written_append, Progress.feed_append, hplace.leads.feed, written_token, written_gap,
        Progress.feed_append, Progress.feed_name hname, Progress.feed_append,
        Progress.feed_gap hgap (by simp)]
      simp [Progress.expected, Progress.feed, hkeyword, tokens]
  | keyword level before name gap _ hplace hkeyword hgap =>
      rw [written_append, Progress.feed_append, hplace.leads.feed, written_token, written_gap,
        Progress.feed_append, Progress.feed_name (isName_of_isKeyword hkeyword),
        Progress.feed_append, Progress.feed_gap hgap (by simp)]
      simp [Progress.expected, Progress.feed, hkeyword, tokens]
  | value level before name gap symbol after _ hplace hname hgap hsymbol hafter =>
      rw [written_append, Progress.feed_append, hplace.leads.feed, written_token, written_gap,
        written_token, written_gap, Progress.feed_append, Progress.feed_name hname,
        Progress.feed_append, Progress.feed_gap hgap (by simp), Progress.feed_append,
        Progress.feed_symbol hsymbol, Progress.feed_append, Progress.feed_gap hafter (by simp)]
      rfl
  | delimiter level before node pieces gap _ hplace hnode hgap =>
      rw [written_append, Progress.feed_append, written_append, Progress.feed_append,
        hplace.leads.feed, hnode.leads.feed, written_gap, Progress.feed_append,
        Progress.feed_gap hgap (by simp)]
      rfl
  | finish node _ _ hnode =>
      have hleads : Leads .start pieces ⟨0, .ended⟩ := hnode.leads
      rw [hleads.feed]
      rfl

/-- Nothing that a refusal names stands where the text is refused. -/
theorem Refused.not_standsAt {limit : Nat} {pieces : List Piece} {rest : List Char}
    {refused : List Construct} (h : Refused limit pieces rest refused) {kind : Construct}
    (hkind : kind ∈ refused.flatMap tokens) : ¬ kind.StandsAt rest := by
  cases h with
  | item level before _ _ _ hbegin htokens =>
      have hname : ∀ token following, IsName token → rest ≠ token ++ following := by
        rintro token following htoken rfl
        rw [beginsWith_isName htoken] at hbegin
        cases hbegin
      rw [htokens] at hkind
      simp only [List.mem_cons, List.not_mem_nil, or_false] at hkind
      rcases hkind with rfl | rfl
      · rintro ⟨token, following, htoken, hrest⟩
        exact hname token following (isName_of_isKeyword htoken) hrest
      · rintro ⟨token, following, htoken, hrest⟩
        exact hname token following htoken hrest
  | name level before name gap _ _ _ _ _ hoperator =>
      obtain rfl : kind = .operator := by simpa [tokens] using hkind
      exact hoperator
  | keyword level before name gap _ _ _ _ hopen hoperator =>
      obtain rfl | rfl : kind = .openParenthesis ∨ kind = .operator := by
        simpa [tokens] using hkind
      · exact hopen
      · exact hoperator
  | value level before name gap symbol after _ _ _ _ _ _ hvalue =>
      obtain rfl | rfl | rfl :
          kind = .singleQuoted ∨ kind = .doubleQuoted ∨ kind = .bareWord := by
        simpa [tokens] using hkind
      · exact hvalue .single
      · exact hvalue .double
      · exact hvalue .bare
  | delimiter level before node pieces gap _ _ _ _ hcomma hclose =>
      obtain rfl | rfl : kind = .comma ∨ kind = .closeParenthesis := by
        simpa [tokens] using hkind
      · exact hcomma
      · exact hclose
  | finish node _ _ _ hrest =>
      obtain rfl : kind = .endOfText := by simpa [tokens] using hkind
      exact hrest

/-- A token in items that are written at a place may begin behind what stands before it. -/
theorem mayBegin_of_layouts {limit level : Nat} {before front back : List Piece}
    {nodes : List Node} {kind : Construct} {text : List Char} (hplace : Place limit level before)
    (hnodes : Layouts (extent before) nodes (front ++ .token kind text :: back))
    (hsingle : level = 0 → nodes.length = 1) : MayBegin (written (before ++ front)) kind := by
  obtain ⟨root, rest, hroot⟩ := hplace.complete hnodes hsingle
  refine .token root (before ++ front) (back ++ rest) kind text ?_ rfl
  simpa [List.append_assoc] using hroot

/-- A token in an item that is written at a place may begin behind what stands before it. -/
theorem mayBegin_of_layout {limit level : Nat} {before front back : List Piece} {node : Node}
    {kind : Construct} {text : List Char} (hplace : Place limit level before)
    (hnode : Layout (extent before) node (front ++ .token kind text :: back)) :
    MayBegin (written (before ++ front)) kind :=
  mayBegin_of_layouts hplace (.last _ node _ hnode) (fun _ ↦ rfl)

/-- A condition as short as one can be. -/
theorem exists_condition (offset : Nat) :
    ∃ node, Layout offset node (comparison ['a'] [] ['='] [] .bare ['a']) := by
  have hraw : Quote.bare.construct.IsToken ['a'] := show IsWord ['a'] by decide
  exact ⟨_, .condition offset ['a'] [] ['='] [] .bare ['a'] (by decide) (by decide) (by decide)
    (by decide) hraw⟩

/-- A group of such a condition. -/
theorem exists_group {keyword gap : List Char} (hkeyword : IsKeyword keyword) (hgap : IsGap gap)
    (offset : Nat) :
    ∃ node, Layout offset node
      (opening keyword gap [] ++ comparison ['a'] [] ['='] [] .bare ['a'] ++ closing []) := by
  obtain ⟨node, hnode⟩ := exists_condition (offset + extent (opening keyword gap []))
  exact ⟨_, .group offset keyword gap [] [node] _ [] hkeyword hgap (by decide)
    (.last _ node _ hnode) (by decide)⟩

/-- Every kind of value can be written. -/
theorem exists_value (quote : Quote) : ∃ raw, quote.construct.IsToken raw := by
  cases quote with
  | bare => exact ⟨['a'], show IsWord ['a'] by decide⟩
  | single => exact ⟨['\'', '\''], [], List.not_mem_nil, rfl⟩
  | double => exact ⟨['"', '"'], [], List.not_mem_nil, rfl⟩

/-- Behind a name a symbol may begin. -/
theorem mayBegin_operator {limit level : Nat} {before : List Piece} {name gap : List Char}
    (hplace : Place limit level before) (hname : IsName name) (hgap : IsGap gap) :
    MayBegin (written (before ++ [.token .attributeName name, .gap gap])) .operator := by
  have hraw : Quote.bare.construct.IsToken ['a'] := show IsWord ['a'] by decide
  have hnode := Layout.condition (extent before) name gap ['='] [] .bare ['a'] hname hgap
    (by decide) (by decide) hraw
  exact mayBegin_of_layout hplace hnode

/-- Behind a keyword a group may be opened. -/
theorem mayBegin_parenthesis {limit level : Nat} {before : List Piece} {keyword gap : List Char}
    (hplace : Place limit level before) (hkeyword : IsKeyword keyword) (hgap : IsGap gap) :
    MayBegin (written (before ++ [.token .attributeName keyword, .gap gap])) .openParenthesis := by
  obtain ⟨node, hnode⟩ := exists_group hkeyword hgap (extent before)
  have hbegin : MayBegin (written (before ++ [.token .keyword keyword, .gap gap]))
      .openParenthesis := mayBegin_of_layout hplace hnode
  rw [written_append] at hbegin ⊢
  exact hbegin

/-- Whatever a refusal names may begin where the text is refused. -/
theorem Refused.mayBegin {limit : Nat} {pieces : List Piece} {rest : List Char}
    {refused : List Construct} (h : Refused limit pieces rest refused) {kind : Construct}
    (hkind : kind ∈ refused.flatMap tokens) : MayBegin (written pieces) kind := by
  cases h with
  | item level before _ _ hplace _ htokens =>
      rw [htokens] at hkind
      simp only [List.mem_cons, List.not_mem_nil, or_false] at hkind
      rw [← List.append_nil pieces]
      rcases hkind with rfl | rfl
      · have hkeyword : IsKeyword ['o', 'r'] := by decide
        have hgap : IsGap [] := by decide
        obtain ⟨node, hnode⟩ := exists_group hkeyword hgap (extent pieces)
        exact mayBegin_of_layout hplace hnode
      · obtain ⟨node, hnode⟩ := exists_condition (extent pieces)
        exact mayBegin_of_layout hplace hnode
  | name level before name gap _ hplace hname _ hgap =>
      obtain rfl : kind = .operator := by simpa [tokens] using hkind
      exact mayBegin_operator hplace hname hgap
  | keyword level before name gap _ hplace hkeyword hgap =>
      obtain rfl | rfl : kind = .openParenthesis ∨ kind = .operator := by
        simpa [tokens] using hkind
      · exact mayBegin_parenthesis hplace hkeyword hgap
      · exact mayBegin_operator hplace (isName_of_isKeyword hkeyword) hgap
  | value level before name gap symbol after _ hplace hname hgap hsymbol hafter =>
      obtain ⟨quote, rfl⟩ : ∃ quote : Quote, kind = quote.construct := by
        obtain rfl | rfl | rfl :
            kind = .singleQuoted ∨ kind = .doubleQuoted ∨ kind = .bareWord := by
          simpa [tokens] using hkind
        · exact ⟨.single, rfl⟩
        · exact ⟨.double, rfl⟩
        · exact ⟨.bare, rfl⟩
      obtain ⟨raw, hraw⟩ := exists_value quote
      have hnode := Layout.condition (extent before) name gap symbol after quote raw hname hgap
        hsymbol hafter hraw
      exact mayBegin_of_layout hplace hnode
  | delimiter level before node pieces gap _ hplace hnode hgap =>
      obtain rfl | rfl : kind = .comma ∨ kind = .closeParenthesis := by
        simpa [tokens] using hkind
      · obtain ⟨next, hnext⟩ :=
          exists_condition (extent before + extent (pieces ++ separator gap []))
        have hnodes := Layouts.more (extent before) node pieces gap [] [next] _ hnode hgap
          (by decide) (.last _ next _ hnext)
        rw [separator, List.append_cons, List.append_assoc] at hnodes
        rw [List.append_assoc]
        exact mayBegin_of_layouts hplace hnodes (fun h ↦ absurd h (Nat.succ_ne_zero level))
      · obtain ⟨root, following, hroot⟩ :=
          hplace.close (Nat.succ_ne_zero level) (.last _ node _ hnode) hgap
        refine .token root (before ++ pieces ++ [.gap gap]) following _ [')'] ?_ rfl
        simpa [closing] using hroot
  | finish root _ _ hroot =>
      obtain rfl : kind = .endOfText := by simpa [tokens] using hkind
      exact .finish root pieces hroot rfl

/-- Every refusal names something. -/
theorem Refused.exists_mem {limit : Nat} {pieces : List Piece} {rest : List Char}
    {refused : List Construct} (h : Refused limit pieces rest refused) :
    ∃ kind, kind ∈ refused.flatMap tokens := by
  cases h with
  | item level before _ _ _ _ htokens => exact ⟨.keyword, by rw [htokens]; exact List.mem_cons_self⟩
  | name => exact ⟨.operator, List.mem_cons_self⟩
  | keyword => exact ⟨.openParenthesis, List.mem_cons_self⟩
  | value => exact ⟨.singleQuoted, List.mem_cons_self⟩
  | delimiter => exact ⟨.comma, List.mem_cons_self⟩
  | finish => exact ⟨.endOfText, List.mem_cons_self⟩

/-- What is named in words stands for the same kinds of tokens as the constructs that are
recorded. -/
theorem mem_tokens_named (refused : List Construct) (kind : Construct) :
    kind ∈ (Construct.all.filter (refused.contains ·)).flatMap tokens ↔
      kind ∈ refused.flatMap tokens := by
  simp [List.mem_flatMap, Construct.mem_all]

/-- The text is refused behind `taken`, where `rest` is left: the error says so, up to there the
text is the beginning of an expression, and the constructs that the message names stand for exactly
the kinds of tokens that may begin there, none of which does. -/
structure PreciseRefusal (given : String) (taken rest : List Char) (fault : ExpressionFault)
    (shown : List Construct) : Prop where
  text_eq : (normalize given).toList = taken ++ rest
  parse_eq : parse given =
    .error (.expression ⟨given, fault, 1, taken.length + 1, byteLength taken⟩)
  detail_eq : fault.detail = "expected " ++ Construct.alternatives (shown.map Construct.words)
  viable : ∃ more root, IsLayout (String.ofList (taken ++ more)) root
  shown_ne_nil : shown.flatMap tokens ≠ []
  shown_iff : ∀ kind, kind ∈ shown.flatMap tokens ↔ MayBegin taken kind
  absent : ∀ kind ∈ shown.flatMap tokens, ¬ kind.StandsAt rest

/-- A refusal that the matcher records is a precise one. -/
theorem Refused.precise {limit : Nat} {given : String} {pieces : List Piece} {rest : List Char}
    {refused : List Construct} (h : Refused limit pieces rest refused)
    (htext : (normalize given).toList = written pieces ++ rest)
    (hparse : parse given =
      .error (refusedAt given (normalize given).toList ⟨extent pieces, refused⟩)) :
    PreciseRefusal given (written pieces) rest (.expected refused)
      (Construct.all.filter (refused.contains ·)) where
  text_eq := htext
  parse_eq := by
    rw [hparse, refusedAt, htext, extent, charactersBefore_byteLength]
  detail_eq := rfl
  viable := by
    obtain ⟨kind, hkind⟩ := h.exists_mem
    exact (h.mayBegin hkind).exists_layout
  shown_ne_nil := by
    obtain ⟨kind, hkind⟩ := h.exists_mem
    exact List.ne_nil_of_mem ((mem_tokens_named refused kind).mpr hkind)
  shown_iff kind := by
    rw [mem_tokens_named]
    constructor
    · exact h.mayBegin
    · intro hbegin
      rw [← h.expected_eq]
      exact hbegin.mem_expected
  absent kind hkind := h.not_standsAt ((mem_tokens_named refused kind).mp hkind)

/-- Where the depth scan finds nothing, the refusal of the matcher is the error. -/
theorem parse_of_failed {given : String} {frontier : Frontier}
    (hscan : Depth.excess? (normalize given).toList = none)
    (hmatch : matchText groupLimit (normalize given).toList = (.failed, frontier)) :
    parse given = .error (refusedAt given (normalize given).toList frontier) := by
  unfold parse
  simp only [hscan, hmatch]

/-- A text that does not nest too deeply and that no tree is written as is refused precisely. -/
theorem parse_refused (given : String) (hscan : Depth.excess? (normalize given).toList = none)
    (hlayout : ∀ root, ¬ IsLayout (normalize given) root) :
    ∃ taken rest fault shown, PreciseRefusal given taken rest fault shown := by
  have houtcome := matchText_outcome groupLimit (normalize given).toList
  generalize hmatch : matchText groupLimit (normalize given).toList = outcome at houtcome
  cases houtcome with
  | matched root pieces next frontier hroot hdepth htext =>
      exact absurd ⟨pieces, hroot, htext.symm⟩ (hlayout root)
  | tooDeep offset frontier hdeep =>
      rw [Depth.excess?, hdeep] at hscan
      exact absurd hscan (Option.some_ne_none offset)
  | refused frontier hrefused =>
      obtain ⟨pieces, rest, htext, hoffset, hrefused⟩ := hrefused
      cases frontier with
      | mk offset refused =>
          obtain rfl : offset = extent pieces := hoffset
          exact ⟨_, _, _, _, hrefused.precise htext (parse_of_failed hscan hmatch)⟩

/-- A group that is not closed is refused precisely, at its end. -/
theorem parse_refused_unclosed :
    Depth.excess? (normalize "and(0x1=a, 0x2=b").toList = none ∧
      (∀ root, ¬ IsLayout (normalize "and(0x1=a, 0x2=b") root) ∧
      ∃ taken rest fault shown, PreciseRefusal "and(0x1=a, 0x2=b" taken rest fault shown := by
  have hscan : Depth.excess? (normalize "and(0x1=a, 0x2=b").toList = none := by decide
  have hlayout : ∀ root, ¬ IsLayout (normalize "and(0x1=a, 0x2=b") root := by
    rintro root ⟨pieces, hroot, hwritten⟩
    -- one group is still open behind the text, and none would be behind a layout
    have hleads : Leads .start pieces ⟨0, .ended⟩ := hroot.leads
    have hfeed := hleads.feed
    rw [hwritten] at hfeed
    cases hfeed
  exact ⟨hscan, hlayout, parse_refused _ hscan hlayout⟩

end ModelQuery.Grammar
