import Mathlib.Data.List.Forall2
import ModelQuery.Command.Invocation
import ModelQuery.Proofs.Attribute.Naming
import ModelQuery.Text.Offset

/-!
# Runs that resolve names

What a run of the program prints that is asked to resolve names. If the names are not too wide there
is a record for each name up to the first that cannot be resolved, and that name is the error.
Identifiers begin at the same character in all records (`Shows`), because the width of the names is
counted in bytes and no name has more characters than bytes (`length_le_widest`). If one of the
names is wider than a column may be, there is no record at all: the program breaks down at the first
name, unless that cannot be resolved.

`resolvedLine_cases` says what becomes of a single name, `ending_of_le` and `ending_of_lt` follow
the names of either kind of list, and `run_resolve` says of every run what it prints and how it
ends. The other table with columns of this kind, that of the attributes, is never too wide
(`printAttributes_eq`).
-/

namespace ModelQuery

open AttributeId (resolve)

/-- The record shows what the name stands for. In its three columns are the name, with spaces up to
the width, the text of the identifier, with spaces up to ten characters, and the name of the
identifier; two spaces stand between columns, and the end of the line behind the last one. -/
structure Shows (width : Nat) (name : String) (id : AttributeId) (record : String) : Prop where
  resolved : resolve name = .ok id
  columns : ∃ gap fill, name.length + gap = width ∧ id.text.length + fill = max id.text.length 10 ∧
    record.toList = (name.toList ++ List.replicate gap ' ') ++ [' ', ' '] ++
      (id.text.toList ++ List.replicate fill ' ') ++ [' ', ' '] ++ id.name.toList ++ ['\n']
  /-- The second column begins two characters behind the width. -/
  offset : id.text.toList <+: record.toList.drop (width + 2)
  /-- What is shown of the identifier stands for it too. -/
  text_resolved : resolve id.text = .ok id
  name_resolved : resolve id.name = .ok id

/-- The width that names need: the least that is enough for the bytes of each of them. -/
structure IsWidth (names : List String) (width : Nat) : Prop where
  enough : ∀ name ∈ names, name.utf8ByteSize ≤ width
  least : ∀ bound, (∀ name ∈ names, name.utf8ByteSize ≤ bound) → width ≤ bound

/-- How a run ends that resolves names, if they need this width: the names that have a record, the
exit code, and the error. -/
inductive ResolveEnding (width : Nat) (names : List String) :
    List String → Nat → Option Error → Prop where
  /-- Every name has one. -/
  | complete : width ≤ Command.widthLimit → ResolveEnding width names names 0 none
  /-- The names before one that cannot be resolved have one. If the width is too great there is none
  before it. -/
  | unknown (before : List String) (name : String) (after : List String) :
      names = before ++ name :: after → resolve name = .error (.unknownAttribute name) →
      before = [] ∨ width ≤ Command.widthLimit →
      ResolveEnding width names before 1 (some (.unknownAttribute name))
  /-- The width is too great, which comes out at the first name, after it has been resolved. -/
  | breakdown (name : String) (after : List String) (id : AttributeId) :
      names = name :: after → resolve name = .ok id → Command.widthLimit < width →
      ResolveEnding width names [] 101 none

/-- What is certain of a run that resolves names. -/
structure ResolveRun (tree : FileTree) (invocation : Invocation) (names : List String) : Prop where
  /-- No file is changed. -/
  tree_eq : (invocation.run tree).2 = tree
  /-- The records are printed in the order of the names. They share a width, which is enough for all
  names, with a record or without. -/
  printed : ∃ known records width, IsWidth names width ∧
    ResolveEnding width names known (invocation.run tree).1.code (invocation.run tree).1.error? ∧
    List.Forall₂ (fun name record ↦ ∃ id, Shows width name id record) known records ∧
    (∀ name ∈ names, name.length ≤ width) ∧
    (invocation.run tree).1.output = String.join records
  /-- The program breaks down exactly if the first name can be resolved and one of the names has more
  bytes than a column may be wide. -/
  breakdown_iff : (invocation.run tree).1.code = 101 ↔
    (∃ name ∈ names.head?, ∃ id, resolve name = .ok id) ∧
      ∃ name ∈ names, Command.widthLimit < name.utf8ByteSize

/-- A name before the others has a record too if it is resolved. -/
theorem ResolveEnding.cons {width : Nat} {names known : List String} {code : Nat}
    {error? : Option Error} (h : ResolveEnding width names known code error?)
    (hlimit : width ≤ Command.widthLimit) (name : String) :
    ResolveEnding width (name :: names) (name :: known) code error? := by
  cases h with
  | complete => exact .complete hlimit
  | unknown _ failing after hnames hfailing =>
      exact .unknown _ failing after (congrArg (name :: ·) hnames) hfailing (Or.inr hlimit)
  | breakdown _ _ _ _ _ htoo => exact absurd hlimit (Nat.not_le_of_lt htoo)

/-- The width is too great if one of the names is too wide, and only then. -/
theorem IsWidth.lt_iff {names : List String} {width : Nat} (h : IsWidth names width)
    (bound : Nat) : bound < width ↔ ∃ name ∈ names, bound < name.utf8ByteSize := by
  constructor
  · intro hlt
    by_contra hnone
    refine absurd (h.least bound fun name hname ↦ ?_) (Nat.not_le_of_lt hlt)
    exact Nat.le_of_not_lt fun hwide ↦ hnone ⟨name, hname, hwide⟩
  · rintro ⟨name, hname, hwide⟩
    exact Nat.lt_of_lt_of_le hwide (h.enough name hname)

/-- The ending is a breakdown if the first name is resolved and the width is too great, and only
then. -/
theorem ResolveEnding.code_eq_iff {width : Nat} {names known : List String} {code : Nat}
    {error? : Option Error} (h : ResolveEnding width names known code error?) :
    code = 101 ↔
      (∃ name ∈ names.head?, ∃ id, resolve name = .ok id) ∧ Command.widthLimit < width := by
  cases h with
  | complete hlimit => simp [Nat.not_lt_of_le hlimit]
  | unknown before name after hnames hunknown hbefore =>
      rcases hbefore with rfl | hlimit
      · simp [hnames, hunknown]
      · simp [Nat.not_lt_of_le hlimit]
  | breakdown name after id hnames hid hlimit => simp [hnames, hid, hlimit]

namespace Command

/-! ## Columns -/

/-- The width does not become less on the way. -/
theorem le_foldl_max (texts : List String) (width : Nat) :
    width ≤ texts.foldl (fun width text ↦ max width text.utf8ByteSize) width := by
  induction texts generalizing width with
  | nil => exact Nat.le_refl width
  | cons text texts ih => exact (Nat.le_max_left _ _).trans (ih _)

/-- No text has more bytes than the widest. -/
theorem utf8ByteSize_le_widest {texts : List String} {text : String} (h : text ∈ texts) :
    text.utf8ByteSize ≤ widest texts := by
  unfold widest
  generalize 0 = width
  induction texts generalizing width with
  | nil => cases h
  | cons first texts ih =>
      rcases List.mem_cons.mp h with rfl | h
      · exact (Nat.le_max_right _ _).trans (le_foldl_max texts _)
      · exact ih h _

/-- A bound on the bytes of every text is one on the widest. -/
theorem widest_le {texts : List String} {bound : Nat}
    (h : ∀ text ∈ texts, text.utf8ByteSize ≤ bound) : widest texts ≤ bound := by
  have hfold : ∀ width, width ≤ bound →
      texts.foldl (fun width text ↦ max width text.utf8ByteSize) width ≤ bound := by
    induction texts with
    | nil => exact fun _ hwidth ↦ hwidth
    | cons text texts ih =>
        obtain ⟨htext, htexts⟩ := List.forall_mem_cons.mp h
        exact fun width hwidth ↦ ih htexts _ (Nat.max_le.mpr ⟨hwidth, htext⟩)
  exact hfold 0 (Nat.zero_le bound)

/-- The width of the widest name is what the names need. -/
theorem isWidth_widest (names : List String) : IsWidth names (widest names) where
  enough _ := utf8ByteSize_le_widest
  least _ := widest_le

/-- No text has more characters than the widest of them has bytes. -/
theorem length_le_widest {texts : List String} {text : String} (h : text ∈ texts) :
    text.length ≤ widest texts := by
  have hbytes : text.length ≤ text.utf8ByteSize := by
    have hle := Text.length_le_byteLength text.toList
    rwa [← Text.utf8ByteSize_ofList, String.ofList_toList, String.length_toList] at hle
  exact hbytes.trans (utf8ByteSize_le_widest h)

/-- A padded text is the text with spaces behind it. -/
theorem toList_pad (width : Nat) (text : String) :
    (pad width text).toList = text.toList ++ List.replicate (width - text.length) ' ' := by
  simp [pad]

/-- A column that is not too wide is the padded text. -/
theorem column_of_le {width : Nat} (h : width ≤ widthLimit) (text : String) :
    column width text = .ok (pad width text) :=
  if_pos h

/-- A column that is too wide cannot be printed. -/
theorem column_of_lt {width : Nat} (h : widthLimit < width) (text : String) :
    column width text = .error .breakdown :=
  if_neg (Nat.not_le_of_lt h)

/-- Lines in whose places nothing goes wrong are all printed. -/
theorem ofLines_map_ok (lines : List String) :
    Reply.ofLines (lines.map .ok) = .print (String.join lines) := by
  induction lines with
  | nil => rfl
  | cons line lines ih =>
      rw [List.map_cons, Reply.ofLines, ih, String.join_cons]
      rfl

/-! ## Attributes -/

/-- No name of the catalogue comes near the greatest width. -/
theorem widest_matchingAttributes_le (part : Option String) :
    widest ((matchingAttributes part).map Attribute.name) ≤ widthLimit := by
  have hcatalogue : ∀ known ∈ Attribute.catalogue, known.name.utf8ByteSize ≤ widthLimit := by
    decide +kernel
  refine widest_le ?_
  intro name hname
  obtain ⟨known, hknown, rfl⟩ := List.mem_map.mp hname
  exact hcatalogue known (List.mem_filter.mp hknown).1

/-- Attributes are listed without anything going wrong, whatever they are asked for. -/
theorem printAttributes_eq (part : Option String) :
    printAttributes part = .print (
      if (matchingAttributes part).isEmpty then "No matching attributes.\n"
      else String.join ((matchingAttributes part).map fun known ↦
        pad (widest ((matchingAttributes part).map Attribute.name)) known.name ++ "  " ++
          known.id.text ++ "\n")) := by
  have hline : ∀ known : Attribute,
      attributeLine (widest ((matchingAttributes part).map Attribute.name)) known =
        .ok (pad (widest ((matchingAttributes part).map Attribute.name)) known.name ++ "  " ++
          known.id.text ++ "\n") := by
    intro known
    rw [attributeLine, column_of_le (widest_matchingAttributes_le part)]
    rfl
  simp only [printAttributes, funext hline]
  split
  next => rfl
  next =>
    rw [← ofLines_map_ok, List.map_map]
    rfl

/-! ## Records -/

variable {width : Nat} {name : String} {names : List String}

/-- The columns of a name and its identifier show them. -/
theorem shows_columns {id : AttributeId} (hresolved : AttributeId.resolve name = .ok id)
    (hwidth : name.length ≤ width) :
    Shows width name id (pad width name ++ "  " ++ pad 10 id.text ++ "  " ++ id.name ++ "\n") := by
  have hcolumns :
      (pad width name ++ "  " ++ pad 10 id.text ++ "  " ++ id.name ++ "\n").toList =
        (name.toList ++ List.replicate (width - name.length) ' ') ++ [' ', ' '] ++
          (id.text.toList ++ List.replicate (10 - id.text.length) ' ') ++ [' ', ' '] ++
          id.name.toList ++ ['\n'] := by
    simp [toList_pad]
  have hfirst : (name.toList ++ List.replicate (width - name.length) ' ' ++ [' ', ' ']).length =
      width + 2 := by
    simp only [List.length_append, String.length_toList, List.length_replicate, List.length_cons,
      List.length_nil]
    omega
  exact {
    resolved := hresolved
    columns := ⟨_, _, by omega, by omega, hcolumns⟩
    offset := by
      rw [hcolumns, List.append_assoc, List.append_assoc, List.append_assoc, List.drop_left' hfirst,
        List.append_assoc]
      exact List.prefix_append _ _
    text_resolved := AttributeId.resolve_of_isLiteral id.isLiteral_text
    name_resolved := AttributeId.resolve_name id }

/-- There is no line for a name that is resolved, but too wide. -/
theorem resolvedLine_of_lt {id : AttributeId} (hresolved : AttributeId.resolve name = .ok id)
    (hlimit : widthLimit < width) : resolvedLine width name = .error .breakdown := by
  rw [resolvedLine, hresolved, column_of_lt hlimit]
  rfl

/-- A name has a record that shows it, or is too wide although it is resolved, or is not
resolved. -/
theorem resolvedLine_cases (hwidth : name.length ≤ width) :
    (∃ id record, width ≤ widthLimit ∧ resolvedLine width name = .ok record ∧
        Shows width name id record) ∨
      (∃ id, widthLimit < width ∧ resolvedLine width name = .error .breakdown ∧
        AttributeId.resolve name = .ok id) ∨
      resolvedLine width name = .error (.error (.unknownAttribute name)) ∧
        AttributeId.resolve name = .error (.unknownAttribute name) := by
  rcases AttributeId.resolve_cases name with ⟨id, hid⟩ | hunknown
  · rcases Nat.lt_or_ge widthLimit width with hlimit | hlimit
    · exact Or.inr (Or.inl ⟨id, hlimit, resolvedLine_of_lt hid hlimit, hid⟩)
    · refine Or.inl ⟨id, _, hlimit, ?_, shows_columns hid hwidth⟩
      rw [resolvedLine, hid, column_of_le hlimit]
      rfl
  · refine Or.inr (Or.inr ⟨?_, hunknown⟩)
    rw [resolvedLine, hunknown]
    rfl

/-- If the width is not too great, records are printed for the names up to the first that cannot be
resolved. -/
theorem ending_of_le (hlimit : width ≤ widthLimit) (hwidth : ∀ name ∈ names, name.length ≤ width) :
    ∃ known records,
      ResolveEnding width names known (Reply.ofLines (names.map (resolvedLine width))).code
        (Reply.ofLines (names.map (resolvedLine width))).error ∧
      List.Forall₂ (fun name record ↦ ∃ id, Shows width name id record) known records ∧
      (Reply.ofLines (names.map (resolvedLine width))).output = String.join records := by
  induction names with
  | nil => exact ⟨[], [], .complete hlimit, .nil, rfl⟩
  | cons name names ih =>
      obtain ⟨hname, hrest⟩ := List.forall_mem_cons.mp hwidth
      rw [List.map_cons]
      rcases resolvedLine_cases hname with
        ⟨id, record, -, hline, hshows⟩ | ⟨_, htoo, -⟩ | ⟨hline, hunknown⟩
      · obtain ⟨known, records, hending, hrecords, houtput⟩ := ih hrest
        refine ⟨name :: known, record :: records, ?_, .cons ⟨id, hshows⟩ hrecords, ?_⟩
        · rw [hline]
          exact hending.cons hlimit name
        · rw [hline, Reply.ofLines, houtput, String.join_cons]
      · exact absurd hlimit (Nat.not_le_of_lt htoo)
      · refine ⟨[], [], ?_, .nil, ?_⟩
        · rw [hline]
          exact .unknown [] name names rfl hunknown (Or.inl rfl)
        · rw [hline]
          rfl

/-- If the width is too great, nothing is printed: the first name settles how the run ends. -/
theorem ending_of_lt (hlimit : widthLimit < width) (hwidth : name.length ≤ width) :
    ResolveEnding width (name :: names) []
        (Reply.ofLines ((name :: names).map (resolvedLine width))).code
        (Reply.ofLines ((name :: names).map (resolvedLine width))).error ∧
      (Reply.ofLines ((name :: names).map (resolvedLine width))).output = "" := by
  rw [List.map_cons]
  rcases resolvedLine_cases hwidth with ⟨_, _, hfits, -⟩ | ⟨id, -, hline, hid⟩ | ⟨hline, hunknown⟩
  · exact absurd hfits (Nat.not_le_of_lt hlimit)
  · rw [hline]
    exact ⟨.breakdown name names id rfl hid hlimit, rfl⟩
  · rw [hline]
    exact ⟨.unknown [] name names rfl hunknown (Or.inl rfl), rfl⟩

/-- Either way the run ends as it should, with records as wide as the names need it. -/
theorem ending_printResolved (names : List String) :
    ∃ known records,
      ResolveEnding (widest names) names known (printResolved names).code
        (printResolved names).error ∧
      List.Forall₂ (fun name record ↦ ∃ id, Shows (widest names) name id record) known records ∧
      (printResolved names).output = String.join records := by
  have hwidth : ∀ name ∈ names, name.length ≤ widest names := fun _ ↦ length_le_widest
  rcases Nat.lt_or_ge widthLimit (widest names) with hlimit | hlimit
  · cases names with
    | nil => exact absurd hlimit (by decide)
    | cons name names =>
        obtain ⟨hending, houtput⟩ := ending_of_lt hlimit (List.forall_mem_cons.mp hwidth).1
        exact ⟨[], [], hending, .nil, houtput⟩
  · exact ending_of_le hlimit hwidth

end Command

namespace Arguments

/-- Operands without an end to their number are all accepted. -/
theorem foldlM_addOperand {form : Form} (hform : form.most = none) (given : Given)
    (operands : List String) :
    operands.foldlM (Given.addOperand form) given =
      .ok { given with operands := given.operands ++ operands } := by
  induction operands generalizing given with
  | nil => simp [pure, Except.pure]
  | cons operand operands ih =>
      rw [List.foldlM_cons, Given.addOperand, hform]
      simp [bind, Except.bind, ih]

/-- Arguments behind the verb are read for it. -/
theorem read_resolve_cons (arguments : List String) :
    read ("resolve" :: arguments) = readCommand .resolve arguments := by
  rw [read, show Shape.of "resolve" = .operand from rfl, if_neg (by decide),
    show Verb.ofName? "resolve" = some .resolve from rfl]

/-- Names behind two hyphens are resolved, whatever they look like. -/
theorem read_resolve {names : List String} (h : names ≠ []) :
    read ("resolve" :: "--" :: names) = .ok (.resolve names) := by
  have hgiven : readRest Verb.resolve.form .nothing none ("--" :: names) =
      .ok { Given.nothing with operands := names } := by
    rw [readRest, show Shape.of "--" = .operandsOnly from rfl]
    exact foldlM_addOperand rfl _ names
  have hleast : Verb.resolve.form.least ≤ names.length := List.length_pos_of_ne_nil h
  rw [read_resolve_cons, readCommand, hgiven]
  exact if_pos hleast

/-- A name that is no option is resolved without hyphens before it too. -/
theorem read_resolve_operand {name : String} (h : Shape.of name = .operand) :
    read ["resolve", name] = .ok (.resolve [name]) := by
  have hgiven : readRest Verb.resolve.form .nothing none [name] =
      .ok { Given.nothing with operands := [name] } := by
    rw [readRest, h]
    rfl
  rw [read_resolve_cons, readCommand, hgiven]
  rfl

end Arguments

variable {tree : FileTree} {invocation : Invocation} {names : List String}

/-- A run that is asked to resolve names answers with the lines for them, and leaves the files
alone. -/
theorem run_of_read_resolve (h : Arguments.read invocation.arguments = .ok (.resolve names)) :
    invocation.run tree = (.answered (Command.printResolved names), tree) := by
  rw [Invocation.run, h]
  rfl

/-- A run that is asked to resolve names prints a record for each name before the first that cannot
be resolved. It ends well if there is no such name, and otherwise with that name as the unknown
attribute. If the records would have to be wider than a column may be, nothing is printed, and the
program breaks down unless it is the first name that cannot be resolved. Any names can be asked for,
if there is one at all. -/
theorem run_resolve (tree : FileTree) (invocation : Invocation) (names : List String) :
    (Arguments.read invocation.arguments = .ok (.resolve names) →
      ResolveRun tree invocation names) ∧
    (names ≠ [] → Arguments.read ("resolve" :: "--" :: names) = .ok (.resolve names)) := by
  constructor
  · intro hread
    have hrun : invocation.run tree = (.answered (Command.printResolved names), tree) :=
      run_of_read_resolve hread
    have hwidth := Command.isWidth_widest names
    obtain ⟨known, records, hending, hrecords, houtput⟩ := Command.ending_printResolved names
    refine ⟨by rw [hrun], ⟨known, records, Command.widest names, hwidth, ?_, hrecords,
      fun _ ↦ Command.length_le_widest, ?_⟩, ?_⟩
    · rw [hrun]
      exact hending
    · rw [hrun]
      exact houtput
    · rw [hrun, ← hwidth.lt_iff]
      exact hending.code_eq_iff
  · exact Arguments.read_resolve

/-- The last name is the widest one, and it has no record. A wide space counts as one character in
its column, and as three bytes. -/
theorem run_resolve_unknown :
    Arguments.read ["resolve", "--", "Model_Name", "\u3000-0x1", "no attribute"] =
      .ok (.resolve ["Model_Name", "\u3000-0x1", "no attribute"]) ∧
    ResolveRun ⟨[], []⟩
      ⟨["resolve", "--", "Model_Name", "\u3000-0x1", "no attribute"], ⟨none, none, none, none⟩,
        none⟩
      ["Model_Name", "\u3000-0x1", "no attribute"] ∧
    Command.printResolved ["Model_Name", "\u3000-0x1", "no attribute"] =
      ⟨"Model_Name    0x1006e     model_name\n\u3000-0x1         -0x1        -0x1\n",
        some (.error (.unknownAttribute "no attribute"))⟩ := by
  have hrun := run_resolve ⟨[], []⟩
    ⟨["resolve", "--", "Model_Name", "\u3000-0x1", "no attribute"], ⟨none, none, none, none⟩,
      none⟩
    ["Model_Name", "\u3000-0x1", "no attribute"]
  have hread := hrun.2 (by decide)
  exact ⟨hread, hrun.1 hread, by decide +kernel⟩

/-! ## A name that is too wide -/

/-- Spaces, at least one, and a digit behind them. -/
def spacedOne (count : Nat) : String :=
  String.ofList (' ' :: List.replicate count ' ' ++ ['1'])

/-- It is resolved as the digit is. -/
theorem resolve_spacedOne (count : Nat) :
    resolve (spacedOne count) = .ok ⟨1, by decide, by decide⟩ := by
  have hdigit : Literal.IsSigned ['1'] 1 := .unsigned ['1'] 1 (Literal.isMagnitude_decimal 1)
  refine AttributeId.resolve_of_isLiteral ⟨' ' :: List.replicate count ' ', ['1'], [], ?_, ?_, ?_,
    hdigit⟩
  · rw [spacedOne, String.toList_ofList, List.append_nil]
  · intro c hc
    rw [← List.replicate_succ] at hc
    rw [List.eq_of_mem_replicate hc]
    decide
  · simp

/-- It has two more characters than spaces behind the first one. -/
theorem length_spacedOne (count : Nat) : (spacedOne count).length = count + 2 := by
  rw [spacedOne, String.length_ofList, List.length_append, List.length_cons, List.length_replicate]
  rfl

/-- It is no option. -/
theorem shape_spacedOne (count : Nat) : Arguments.Shape.of (spacedOne count) = .operand := by
  rw [Arguments.Shape.of, spacedOne, String.toList_ofList, List.cons_append]
  rfl

/-- With more spaces than a column may be wide there is no record of it. -/
theorem printResolved_spacedOne {count : Nat} (h : Command.widthLimit ≤ count) :
    Command.printResolved [spacedOne count] = ⟨"", some .breakdown⟩ := by
  have hwidest : (spacedOne count).length ≤ Command.widest [spacedOne count] :=
    Command.length_le_widest (List.mem_singleton_self _)
  have hlimit : Command.widthLimit < Command.widest [spacedOne count] := by
    rw [length_spacedOne] at hwidest
    omega
  rw [Command.printResolved, List.map_singleton,
    Command.resolvedLine_of_lt (resolve_spacedOne count) hlimit]
  rfl

/-- The program breaks down if it is asked to resolve that name, with nothing printed. -/
theorem run_spacedOne {count : Nat} (h : Command.widthLimit ≤ count) (tree : FileTree)
    (environment : Environment) :
    Invocation.run tree ⟨["resolve", spacedOne count], environment, none⟩ =
      (.answered ⟨"", some .breakdown⟩, tree) := by
  have hread := Arguments.read_resolve_operand (shape_spacedOne count)
  rw [run_of_read_resolve hread, printResolved_spacedOne h]

/-- Names that can all be resolved do not always have their records: the program breaks down at a
name of 65536 spaces and a digit. -/
theorem code_of_overwide_name :
    ¬ ∀ (tree : FileTree) (invocation : Invocation) (names : List String),
      Arguments.read invocation.arguments = .ok (.resolve names) →
      (∀ name ∈ names, ∃ id, resolve name = .ok id) → (invocation.run tree).1.code = 0 := by
  intro h
  -- the limit stays a name here, so that the text is never written out
  have hread := Arguments.read_resolve_operand (shape_spacedOne Command.widthLimit)
  have hcode := h ⟨[], []⟩
    ⟨["resolve", spacedOne Command.widthLimit], ⟨none, none, none, none⟩, none⟩ _ hread
    (List.forall_mem_singleton.mpr ⟨_, resolve_spacedOne Command.widthLimit⟩)
  rw [run_spacedOne (Nat.le_refl _)] at hcode
  exact absurd hcode (by decide)

end ModelQuery
