import ModelQuery.Proofs.Command.Searching
import ModelQuery.Proofs.Expression.Padding

/-!
# Where an expression comes from

An expression may be an argument or stand on the standard input, with line breaks and blanks around
it. Both are the same to the program: every step that follows sees the same tree, or passes the same
error on, which differs at most in the text that it carries (`SameOutcome`).
`run_of_sameButPadding` carries this from the reader of expressions to the end of a run.
-/

namespace ModelQuery

/-- The results are the same, except that an error may carry another text. -/
def SameOutcome {α : Type} (left right : Except Error α) : Prop :=
  left.mapError (Error.carrying "") = right.mapError (Error.carrying "")

namespace SameOutcome

variable {α β : Type} {left right : Except Error α}

/-- Every result is the same as itself. -/
theorem refl (result : Except Error α) : SameOutcome result result :=
  rfl

/-- The text that an error carries may be replaced. -/
theorem mapError_carrying (result : Except Error α) (given : String) :
    SameOutcome result (result.mapError (Error.carrying given)) := by
  cases result with
  | ok value => rfl
  | error error => cases error <;> rfl

/-- Equal results are errors that differ in their text, or one value. -/
theorem cases_of (h : SameOutcome left right) :
    (∃ value, left = .ok value ∧ right = .ok value) ∨
      ∃ first second : Error, left = .error first ∧ right = .error second ∧
        first.carrying "" = second.carrying "" := by
  unfold SameOutcome at h
  cases left with
  | ok value =>
      cases right with
      | ok other => exact Or.inl ⟨value, rfl, congrArg _ (Except.ok.inj h).symm⟩
      | error error => cases h
  | error first =>
      cases right with
      | ok other => cases h
      | error second => exact Or.inr ⟨first, second, rfl, rfl, Except.error.inj h⟩

/-- A step that follows sees the same value, or passes the error on. -/
theorem bind (h : SameOutcome left right) {next other : α → Except Error β}
    (hnext : ∀ value, SameOutcome (next value) (other value)) :
    SameOutcome (left >>= next) (right >>= other) := by
  rcases h.cases_of with ⟨value, rfl, rfl⟩ | ⟨first, second, rfl, rfl, htext⟩
  · exact hnext value
  · exact congrArg Except.error htext

/-- The same is printed, with the same exit code. -/
theorem reply {left right : Except Error String} (h : SameOutcome left right) :
    (Reply.ofResult left).code = (Reply.ofResult right).code ∧
      (Reply.ofResult left).output = (Reply.ofResult right).output ∧
      (Reply.ofResult left).error.map (Error.carrying "") =
        (Reply.ofResult right).error.map (Error.carrying "") := by
  rcases h.cases_of with ⟨value, rfl, rfl⟩ | ⟨first, second, rfl, rfl, htext⟩
  · exact ⟨rfl, rfl, rfl⟩
  · exact ⟨rfl, rfl, congrArg some htext⟩

end SameOutcome

/-! ## Filters and searches -/

open Text (SameButPadding)

variable {left right : String}

/-- Texts that are the same but for padding have the same filter. -/
theorem Filter.parse_of_sameButPadding (h : SameButPadding left.toList right.toList) :
    SameOutcome (Filter.parse left) (Filter.parse right) := by
  have hparse := SameOutcome.mapError_carrying (Expression.parse left) right
  rw [← Expression.parse_of_sameButPadding h] at hparse
  exact hparse.bind fun _ ↦ .refl _

/-- Texts that are the same but for padding make the same search. -/
theorem Search.parse_of_sameButPadding (h : SameButPadding left.toList right.toList)
    (options : SearchOptions) :
    SameOutcome (Search.parse left options) (Search.parse right options) :=
  (Filter.parse_of_sameButPadding h).bind fun _ ↦ .refl _

/-! ## Runs -/

/-- Two commands that differ in where their expression comes from: it is given with the first, and
the second awaits it on the standard input. -/
inductive IsPiped (expression : String) : Command → Command → Prop where
  | parse (missing : Option String) (compact : Bool) : AwaitsInput missing →
      IsPiped expression (.parse (some expression) compact) (.parse missing compact)
  | search (missing : Option String) (overrides : Overrides) (compact : Bool) :
      AwaitsInput missing →
      IsPiped expression (.search (some expression) overrides compact)
        (.search missing overrides compact)

namespace Command

/-- An expression that is no hyphen is taken as it is given. -/
theorem givenExpression_some {text : String} (h : text ≠ "-") (input : Option String) :
    givenExpression input (some text) = .ok text := by
  simp [givenExpression, Option.filter, h]

/-- An expression that is awaited is what the standard input holds. -/
theorem givenExpression_awaited {missing : Option String} (h : AwaitsInput missing)
    (text : String) : givenExpression (some text) missing = .ok text := by
  simp only [givenExpression, awaitsInput_iff.mp h]

variable {tree : FileTree} {environment : Environment} {input expression : Option String}
  {text : String}

/-- The filter that is printed is that of the text in question. -/
theorem printFilter_eq (h : givenExpression input expression = .ok text) (compact : Bool) :
    printFilter input expression compact =
      (do
        let filter ← Filter.parse text
        pure (printJson compact filter.toJson)) := by
  rw [printFilter, show givenExpression input expression = pure text from h, pure_bind]

/-- The search that is printed is that for the text in question. -/
theorem printSearch_of_givenExpression (h : givenExpression input expression = .ok text)
    (overrides : Overrides) (compact : Bool) :
    printSearch ⟨environment, input, configFile tree environment⟩ expression overrides compact =
      (do
        let config ← Config.loadFor tree environment
        let search ← Search.parse text (searchOptions config overrides)
        pure (printJson compact search.toJson)) := by
  rw [printSearch_eq, show givenExpression input expression = pure text from h, pure_bind]

/-- Commands that differ in where their expression comes from answer the same. -/
theorem run_of_isPiped (h : SameButPadding left.toList right.toList) (hhyphen : left ≠ "-")
    {direct piped : Command} (hpiped : IsPiped left direct piped) (tree : FileTree)
    (environment : Environment) (input : Option String) :
    ∃ first second : Except Error String, SameOutcome first second ∧
      direct.run tree environment input = (.ofResult first, tree) ∧
      piped.run tree environment (some right) = (.ofResult second, tree) := by
  have hgiven := givenExpression_some hhyphen input
  cases hpiped with
  | parse missing compact hawaits =>
      refine ⟨printFilter input (some left) compact, printFilter (some right) missing compact, ?_,
        rfl, rfl⟩
      rw [printFilter_eq hgiven, printFilter_eq (givenExpression_awaited hawaits right)]
      exact (Filter.parse_of_sameButPadding h).bind fun _ ↦ .refl _
  | search missing overrides compact hawaits =>
      refine ⟨printSearch ⟨environment, input, configFile tree environment⟩ (some left) overrides
          compact,
        printSearch ⟨environment, some right, configFile tree environment⟩ missing overrides
          compact, ?_, rfl, rfl⟩
      rw [printSearch_of_givenExpression hgiven,
        printSearch_of_givenExpression (givenExpression_awaited hawaits right)]
      exact (SameOutcome.refl _).bind fun _ ↦
        (Search.parse_of_sameButPadding h _).bind fun _ ↦ .refl _

end Command

namespace Arguments

/-- Arguments that ask for the filter of an expression, which stands behind two hyphens. -/
def parseArguments (expression : Option String) (compact : Bool) : List String :=
  "parse" :: ((if compact then ["-c"] else []) ++ expression.elim [] fun text ↦ ["--", text])

/-- They are read as that command. -/
theorem read_parseArguments (expression : Option String) (compact : Bool) :
    read (parseArguments expression compact) = .ok (.parse expression compact) := by
  cases expression <;> cases compact <;> rfl

end Arguments

namespace Invocation

open Arguments (parseArguments searchArguments)

/-- Runs that differ in where their expression comes from, and in padding, end the same and leave
the files alone. -/
theorem run_of_isPiped (h : SameButPadding left.toList right.toList) (hhyphen : left ≠ "-")
    {direct piped : Invocation} {first second : Command}
    (hdirect : Arguments.read direct.arguments = .ok first)
    (hpiped : Arguments.read piped.arguments = .ok second) (hcommands : IsPiped left first second)
    (henvironment : direct.environment = piped.environment) (hinput : piped.input = some right)
    (tree : FileTree) :
    (direct.run tree).1.code = (piped.run tree).1.code ∧
      (direct.run tree).1.output = (piped.run tree).1.output ∧
      (direct.run tree).1.error?.map (Error.carrying "") =
        (piped.run tree).1.error?.map (Error.carrying "") ∧
      (direct.run tree).2 = tree ∧ (piped.run tree).2 = tree := by
  obtain ⟨given, awaited, hsame, hgiven, hawaited⟩ :=
    Command.run_of_isPiped h hhyphen hcommands tree piped.environment direct.input
  obtain ⟨hcode, houtput, herror⟩ := hsame.reply
  have hleft : direct.run tree = (.answered (.ofResult given), tree) := by
    simp only [run, hdirect, henvironment, hgiven]
  have hright : piped.run tree = (.answered (.ofResult awaited), tree) := by
    simp only [run, hpiped, hinput, hawaited]
  rw [hleft, hright]
  exact ⟨hcode, houtput, herror, rfl, rfl⟩

/-- Line breaks, padding and the place of the expression do not matter. Texts that are the same but
for padding are the same expression or are refused with the same error, up to the text that it
carries; the text of an expression is read as that expression. A run that is given an expression as
an argument and a run that finds such a text on its standard input print the same with the same exit
code, for every form of their arguments, and each expression can be given in both ways. -/
theorem run_ignores_padding :
    (∀ left right : String, SameButPadding left.toList right.toList →
      Expression.parse right = (Expression.parse left).mapError (Error.carrying right)) ∧
    (∀ (given : String) (expression : Expression), Expression.parse given = .ok expression →
      Expression.parse expression.text = .ok expression) ∧
    (∀ left right : String, SameButPadding left.toList right.toList → left ≠ "-" →
      ∀ (direct piped : Invocation) (first second : Command),
        Arguments.read direct.arguments = .ok first →
        Arguments.read piped.arguments = .ok second → IsPiped left first second →
        direct.environment = piped.environment → piped.input = some right → ∀ tree : FileTree,
          (direct.run tree).1.code = (piped.run tree).1.code ∧
            (direct.run tree).1.output = (piped.run tree).1.output ∧
            (direct.run tree).1.error?.map (Error.carrying "") =
              (piped.run tree).1.error?.map (Error.carrying "") ∧
            (direct.run tree).2 = tree ∧ (piped.run tree).2 = tree) ∧
    (∀ (expression : Option String) (compact : Bool),
      Arguments.read (parseArguments expression compact) = .ok (.parse expression compact)) ∧
    ∀ (expression : Option String) (overrides : Overrides) (compact : Bool),
      overrides.throttleSize ≠ some 0 →
        Arguments.read (searchArguments expression overrides compact) =
          .ok (.search expression overrides compact) :=
  ⟨fun _ _ ↦ Expression.parse_of_sameButPadding, fun _ _ ↦ Expression.parse_text,
    fun _ _ h hhyphen _ _ _ _ hdirect hpiped hcommands henvironment hinput ↦
      run_of_isPiped h hhyphen hdirect hpiped hcommands henvironment hinput,
    Arguments.read_parseArguments,
    fun expression _ compact ↦ Arguments.read_searchArguments expression compact⟩

/-- An expression as an argument, and with line breaks in its operator and blanks around it on the
standard input of a search whose operand is a hyphen. -/
theorem run_ignores_padding_operator :
    (∃ expression, Expression.parse "a != b" = .ok expression ∧
      Expression.parse " \u3000a !\r\n= b\t" = .ok expression ∧
      Expression.parse expression.text = .ok expression) ∧
    (∀ tree : FileTree,
      (run tree ⟨["search", "-t7", "a != b"], ⟨some "/r", none, none, none⟩, none⟩).1.output =
        (run tree ⟨["s", "-", "--throttle", "7"], ⟨some "/r", none, none, none⟩,
          some " \u3000a !\r\n= b\t"⟩).1.output) ∧
    Arguments.read ["search", "-t=7", "--", "a != b"] =
      .ok (.search (some "a != b") ⟨[], false, some 7⟩ false) := by
  have hpadding : SameButPadding "a != b".toList " \u3000a !\r\n= b\t".toList :=
    Expression.normalize_eq_iff.mp (by decide +kernel)
  have hparse : Expression.parse "a != b" =
      .ok ⟨"a != b", .condition "a" "!=" ⟨.bare, "b"⟩ 2⟩ := rfl
  refine ⟨?_, fun tree ↦ ?_, ?_⟩
  · refine ⟨_, hparse, ?_, run_ignores_padding.2.1 "a != b" _ hparse⟩
    rw [run_ignores_padding.1 _ _ hpadding, hparse]
    rfl
  · exact (run_ignores_padding.2.2.1 _ _ hpadding (by decide)
      ⟨["search", "-t7", "a != b"], ⟨some "/r", none, none, none⟩, none⟩
      ⟨["s", "-", "--throttle", "7"], ⟨some "/r", none, none, none⟩, some " \u3000a !\r\n= b\t"⟩
      (.search (some "a != b") ⟨[], false, some 7⟩ false)
      (.search (some "-") ⟨[], false, some 7⟩ false) (by decide) (by decide)
      (.search _ _ _ (Or.inr rfl)) rfl rfl tree).2.1
  · exact run_ignores_padding.2.2.2.2 (some "a != b") ⟨[], false, some 7⟩ false (by decide)

end Invocation

end ModelQuery
