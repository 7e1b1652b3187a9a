import ModelQuery.Command.Invocation
import ModelQuery.Proofs.Command.Arguments
import ModelQuery.Proofs.Config.Loading
import ModelQuery.Proofs.Filter.Outcomes

/-!
# Runs that search

What a run of the program does that is asked for a search. It ends with the first error there is, in
the order input, configuration, expression, attributes of the arguments, and prints nothing; or it
prints the search that the expression, the configuration and the arguments describe
(`SearchEnding`). An attribute of the configuration is never reported, and its throttle size is
never replaced by the built-in one, because a configuration that is loaded has been checked
(`Config.loading_loadFor`).
-/

namespace ModelQuery

/-- The expression is to be read from the standard input. -/
def AwaitsInput (expression : Option String) : Prop :=
  expression = none ∨ expression = some "-"

/-- It is if there is none but a hyphen. -/
theorem awaitsInput_iff {expression : Option String} :
    AwaitsInput expression ↔ expression.filter (· != "-") = none := by
  cases expression with
  | none => simp [AwaitsInput]
  | some text => simp [AwaitsInput, Option.filter]

/-- The text that a search is for: the expression that is given, or what the standard input has in
its place. -/
inductive IsSearchText (input : Option String) : Option String → String → Prop where
  | given (text : String) : text ≠ "-" → IsSearchText input (some text) text
  | input (expression : Option String) (text : String) :
      AwaitsInput expression → input = some text → IsSearchText input expression text

/-- How a run that searches ends: its exit code, what it prints, and the error, if there is one. An
error is reported only if none of those before it is there. -/
inductive SearchEnding (tree : FileTree) (environment : Environment)
    (input expression : Option String) (overrides : Overrides) (compact : Bool) :
    Nat → String → Option Error → Prop where
  /-- The input is wanted and cannot be read. -/
  | noInput : AwaitsInput expression → input = none →
      SearchEnding tree environment input expression overrides compact 1 "" (some .access)
  /-- The configuration cannot be loaded. -/
  | noConfig (text : String) (error : Error) : IsSearchText input expression text →
      Config.loadFor tree environment = .error error →
      (error = .access ∨ ∃ fault, error = .config fault) →
      SearchEnding tree environment input expression overrides compact 1 "" (some error)
  /-- The text has no filter. -/
  | noFilter (text : String) (config : Config) (error : Error) :
      IsSearchText input expression text → Config.loadFor tree environment = .ok config →
      Filter.parse text = .error error →
      ((∃ found, error = .expression found) ∨
        ∃ name, error = .unknownAttribute name ∧ AttributeId.resolve name = .error error) →
      SearchEnding tree environment input expression overrides compact 1 "" (some error)
  /-- An attribute of the arguments cannot be resolved; it is the first of them. -/
  | unknownAttribute (text : String) (config : Config) (filter : Filter) (before : List String)
      (name : String) (after : List String) :
      IsSearchText input expression text → Config.loadFor tree environment = .ok config →
      Filter.parse text = .ok filter → overrides.attributes = before ++ name :: after →
      (∀ earlier ∈ before, ∃ id, AttributeId.resolve earlier = .ok id) →
      AttributeId.resolve name = .error (.unknownAttribute name) →
      SearchEnding tree environment input expression overrides compact 1 ""
        (some (.unknownAttribute name))
  /-- The search is printed. It requests the attributes of the configuration and then those of the
  arguments, each once. -/
  | printed (text : String) (config : Config) (filter : Filter) (ids : List AttributeId)
      (size : UInt32) :
      IsSearchText input expression text → Config.loadFor tree environment = .ok config →
      Filter.parse text = .ok filter →
      List.Forall₂ (fun name id ↦ AttributeId.resolve name = .ok id)
        (config.defaultAttributes ++ overrides.attributes) ids →
      size = overrides.throttleSize.getD config.throttleSize → size ≠ 0 →
      SearchEnding tree environment input expression overrides compact 0
        (Command.printJson compact (Search.toJson ⟨filter, ids.eraseDups.map AttributeId.text, size,
          overrides.devicesOnly || config.devicesOnly⟩)) none

/-- What is certain of a run that is asked for a search. -/
structure SearchRun (tree : FileTree) (invocation : Invocation) (expression : Option String)
    (overrides : Overrides) (compact : Bool) : Prop where
  /-- No file is changed. -/
  tree_eq : (invocation.run tree).2 = tree
  /-- It ends in one of the ways there are. -/
  ending : SearchEnding tree invocation.environment invocation.input expression overrides compact
    (invocation.run tree).1.code (invocation.run tree).1.output (invocation.run tree).1.error?
  /-- An attribute that is reported is none of the configuration. -/
  reported : ∀ config name, Config.loadFor tree invocation.environment = .ok config →
    (invocation.run tree).1.error? = some (.unknownAttribute name) →
    name ∉ config.defaultAttributes

namespace Command

variable {tree : FileTree} {environment : Environment} {input expression : Option String}
  {overrides : Overrides} {compact : Bool}

/-- The text of a search is what is given, or the input in its place. -/
theorem isSearchText_of_givenExpression {text : String}
    (h : givenExpression input expression = .ok text) : IsSearchText input expression text := by
  unfold givenExpression at h
  cases hgiven : expression.filter (· != "-") with
  | some given =>
      simp only [hgiven] at h
      obtain rfl := Except.ok.inj h
      obtain ⟨rfl, hne⟩ := Option.filter_eq_some_iff.mp hgiven
      exact .given given (by simpa using hne)
  | none =>
      cases input with
      | some found =>
          simp only [hgiven] at h
          obtain rfl := Except.ok.inj h
          exact .input expression found (awaitsInput_iff.mpr hgiven) rfl
      | none =>
          simp only [hgiven] at h
          cases h

/-- Without a text the input was wanted and could not be read. -/
theorem awaitsInput_of_givenExpression {error : Error}
    (h : givenExpression input expression = .error error) :
    AwaitsInput expression ∧ input = none ∧ error = .access := by
  unfold givenExpression at h
  split at h
  next => cases h
  next => cases h
  next hnone => exact ⟨awaitsInput_iff.mpr hnone, rfl, (Except.error.inj h).symm⟩

/-- A search is obtained, made and printed in steps. -/
theorem printSearch_eq :
    printSearch ⟨environment, input, configFile tree environment⟩ expression overrides compact =
      (do
        let text ← givenExpression input expression
        let config ← Config.loadFor tree environment
        let search ← Search.parse text (searchOptions config overrides)
        pure (printJson compact search.toJson)) := by
  unfold printSearch Config.loadFor configFile
  cases givenExpression input expression with
  | error error => rfl
  | ok text =>
      cases Config.locate environment with
      | error error => rfl
      | ok root => rfl

/-- The search is made with every attribute that is requested, if all of those of the arguments are
resolved. -/
theorem ofFilter_eq_ok {config : Config} (husable : config.IsUsable)
    (hsize : overrides.throttleSize ≠ some 0) {texts : List String}
    (htexts : AttributeId.resolveAll overrides.attributes = .ok texts) (filter : Filter) :
    ∃ ids, List.Forall₂ (fun name id ↦ AttributeId.resolve name = .ok id)
        (config.defaultAttributes ++ overrides.attributes) ids ∧
      overrides.throttleSize.getD config.throttleSize ≠ 0 ∧
      Search.ofFilter filter (searchOptions config overrides) =
        .ok ⟨filter, ids.eraseDups.map AttributeId.text,
          overrides.throttleSize.getD config.throttleSize,
          overrides.devicesOnly || config.devicesOnly⟩ := by
  obtain ⟨base, hbase⟩ := husable.resolveAll
  obtain ⟨known, hknown, rfl⟩ := AttributeId.resolveAll_eq_ok_iff.mp hbase
  obtain ⟨further, hfurther, rfl⟩ := AttributeId.resolveAll_eq_ok_iff.mp htexts
  have hne : overrides.throttleSize.getD config.throttleSize ≠ 0 := by
    cases hgiven : overrides.throttleSize with
    | none => exact husable.throttleSize_ne_zero
    | some size =>
        rintro rfl
        exact hsize hgiven
  refine ⟨known ++ further, List.rel_append hknown hfurther, hne, ?_⟩
  -- the search is made with options that hold the attributes under other names
  have hbase : AttributeId.resolveAll (searchOptions config overrides).baseAttributes = _ := hbase
  have hextra : AttributeId.resolveAll (searchOptions config overrides).extraAttributes = _ :=
    htexts
  rw [Search.ofFilter, hbase, hextra]
  show Except.ok (Search.mk _ _ _ _) = _
  rw [← List.map_append, Search.withoutRepetitions_map AttributeId.text_injective,
    Bool.or_comm overrides.devicesOnly]
  congr 2
  exact if_neg hne

/-- The search is not made if an attribute of the arguments is not resolved. -/
theorem ofFilter_eq_error {config : Config} (husable : config.IsUsable) {error : Error}
    (herror : AttributeId.resolveAll overrides.attributes = .error error) (filter : Filter) :
    Search.ofFilter filter (searchOptions config overrides) = .error error := by
  obtain ⟨base, hbase⟩ := husable.resolveAll
  have hbase : AttributeId.resolveAll (searchOptions config overrides).baseAttributes = _ := hbase
  have hextra : AttributeId.resolveAll (searchOptions config overrides).extraAttributes = _ :=
    herror
  rw [Search.ofFilter, hbase, hextra]
  rfl

/-- A search ends in one of the ways there are. -/
theorem searchEnding (hsize : overrides.throttleSize ≠ some 0) {result : Except Error String}
    (hresult : printSearch ⟨environment, input, configFile tree environment⟩ expression overrides
      compact = result) :
    SearchEnding tree environment input expression overrides compact (Reply.ofResult result).code
      (Reply.ofResult result).output (Reply.ofResult result).error := by
  rw [printSearch_eq] at hresult
  -- every stage ends the run or leaves it to the next one
  cases htext : givenExpression input expression with
  | error error =>
      rw [htext] at hresult
      obtain ⟨hawaits, hinput, rfl⟩ := awaitsInput_of_givenExpression htext
      obtain rfl := hresult
      exact .noInput hawaits hinput
  | ok text =>
      rw [htext] at hresult
      have htext := isSearchText_of_givenExpression htext
      cases hconfig : Config.loadFor tree environment with
      | error error =>
          rw [hconfig] at hresult
          obtain rfl := hresult
          exact .noConfig text error htext hconfig (Config.error_cases_of_loadFor hconfig)
      | ok config =>
          rw [hconfig] at hresult
          have husable := Config.isUsable_of_loadFor hconfig
          cases hfilter : Filter.parse text with
          | error error =>
              obtain rfl : .error error = result := by
                simpa [Search.parse, hfilter, bind, Except.bind] using hresult
              exact .noFilter text config error htext hconfig hfilter (Filter.error_cases hfilter)
          | ok filter =>
              cases hextra : AttributeId.resolveAll overrides.attributes with
              | error error =>
                  have hsearch := ofFilter_eq_error husable hextra filter
                  obtain ⟨before, name, after, hsplit, hbefore, hname, rfl⟩ :=
                    AttributeId.resolveAll_eq_error_iff.mp hextra
                  obtain rfl : .error (.unknownAttribute name) = result := by
                    simpa [Search.parse, hfilter, hsearch, bind, Except.bind] using hresult
                  exact .unknownAttribute text config filter before name after htext hconfig hfilter
                    hsplit hbefore hname
              | ok texts =>
                  obtain ⟨ids, hids, hne, hsearch⟩ := ofFilter_eq_ok husable hsize hextra filter
                  obtain rfl : .ok _ = result := by
                    simpa [Search.parse, hfilter, hsearch, bind, Except.bind, pure, Except.pure]
                      using hresult
                  exact .printed text config filter ids _ htext hconfig hfilter hids rfl hne

end Command

/-- An attribute that is reported is none of the configuration. -/
theorem SearchEnding.notMem {tree : FileTree} {environment : Environment}
    {input expression : Option String} {overrides : Overrides} {compact : Bool} {code : Nat}
    {output : String} {error? : Option Error}
    (h : SearchEnding tree environment input expression overrides compact code output error?)
    {config : Config} (hconfig : Config.loadFor tree environment = .ok config) {name : String}
    (hname : error? = some (.unknownAttribute name)) : name ∉ config.defaultAttributes := by
  intro hmem
  obtain ⟨id, hid⟩ := (Config.isUsable_of_loadFor hconfig).resolved name hmem
  cases h with
  | noInput => cases hname
  | printed => cases hname
  | noConfig text error _ herror =>
      rw [hconfig] at herror
      cases herror
  | noFilter text _ error _ _ _ hcases =>
      obtain rfl := Option.some.inj hname
      rcases hcases with ⟨_, hfound⟩ | ⟨_, hfound, hunresolved⟩
      · cases hfound
      · obtain rfl := Error.unknownAttribute.inj hfound
        rw [hid] at hunresolved
        cases hunresolved
  | unknownAttribute _ _ _ _ _ _ _ _ _ _ _ hunresolved =>
      obtain rfl := Error.unknownAttribute.inj (Option.some.inj hname)
      rw [hid] at hunresolved
      cases hunresolved

namespace Invocation

open Arguments (searchArguments)

/-- A run that is asked for a search ends in one of the ways there are: with the first error, or
with the search that it was asked for. Every search can be asked for, with any expression and any
attributes. -/
theorem run_search (tree : FileTree) (invocation : Invocation) (expression : Option String)
    (overrides : Overrides) (compact : Bool) :
    (Arguments.read invocation.arguments = .ok (.search expression overrides compact) →
      SearchRun tree invocation expression overrides compact) ∧
    (overrides.throttleSize ≠ some 0 →
      Arguments.read (searchArguments expression overrides compact) =
        .ok (.search expression overrides compact)) := by
  constructor
  · intro hread
    have hsize := Arguments.throttleSize_ne_zero_of_read hread
    have hrun : invocation.run tree = (.answered (.ofResult (Command.printSearch
        ⟨invocation.environment, invocation.input, Command.configFile tree invocation.environment⟩
        expression overrides compact)), tree) := by
      rw [run, hread]
      rfl
    have hending : SearchEnding tree invocation.environment invocation.input expression overrides
        compact (invocation.run tree).1.code (invocation.run tree).1.output
        (invocation.run tree).1.error? := by
      rw [hrun]
      exact Command.searchEnding hsize rfl
    exact ⟨by rw [hrun], hending, fun config name hconfig hname ↦ hending.notMem hconfig hname⟩
  · exact Arguments.read_searchArguments expression compact

/-- A run with options before and behind the expression, in an environment without a configuration
file, and the same search asked for in another way. -/
theorem run_search_devices :
    SearchRun ⟨[], []⟩ ⟨["s", "-da", "serial_number", "2 = b", "--throttle=+07"],
        ⟨some "/r", none, none, none⟩, none⟩ (some "2 = b") ⟨["serial_number"], true, some 7⟩
        false ∧
      Arguments.read ["search", "-a=serial_number", "-t=7", "-d", "--", "2 = b"] =
        .ok (.search (some "2 = b") ⟨["serial_number"], true, some 7⟩ false) :=
  ⟨(run_search _ _ _ _ _).1 (by decide), (run_search ⟨[], []⟩ ⟨[], ⟨none, none, none, none⟩, none⟩
    (some "2 = b") ⟨["serial_number"], true, some 7⟩ false).2 (by decide)⟩

end Invocation

end ModelQuery
