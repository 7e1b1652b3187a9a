import ModelQuery.Proofs.Command.Searching
import ModelQuery.Proofs.Config.Saving
import ModelQuery.Proofs.Files.Making

/-!
# Runs that write the configuration

What sequences of runs do to the files, and what searches see of it. `Effect` says what a single run
does: only one that sets the configuration up changes anything, and `effect_run` that there is
nothing else it can do. `runAll_undisturbed` follows the files along a sequence of runs in one
environment, which is either left with the configuration file that it began with, or with the
built-in one, or without any. There is one more way to end, where an attempt to set the
configuration up fails: directories that it has made may let the path lead to a directory in place
of the file.
-/

namespace ModelQuery

namespace Config

variable {tree later : FileTree} {root : String}

/-- The two trees differ at most as saving the built-in configuration of a directory makes them
differ. -/
def WritesOnly (root : String) (tree later : FileTree) : Prop :=
  FileTree.WritesOnly root fileName (.text (builtIn root).render) tree later

/-- A directory stands at the path of the configuration file. -/
def IsBlocked (root : String) (tree : FileTree) : Prop :=
  tree.IsBlocked root fileName

/-- The file of the built-in configuration is found at its path. -/
def IsBuiltIn (root : String) (tree : FileTree) : Prop :=
  tree.look (pathIn root) = .text (builtIn root).render

/-- The name of the file is a plain one. -/
theorem plain_fileName : '/' ∉ fileName.toList ∧ FileTree.isPermitted fileName = true := by
  decide

/-- Saving the built-in configuration writes its file, or fails. If it fails although something is
at the path of the file, nothing is changed, and if it fails at all, nothing is there after it or a
directory is. -/
theorem save_cases (root : String) (tree : FileTree) :
    (∃ later, (builtIn root).save tree = (.ok (), later) ∧ WritesOnly root tree later ∧
        ¬ IsBlocked root tree ∧ IsBuiltIn root later) ∨
      ∃ later, (builtIn root).save tree = (.error .access, later) ∧ WritesOnly root tree later ∧
        (tree.look (pathIn root) ≠ .absent → later = tree) ∧
        (later.look (pathIn root) = .absent ∨ IsBlocked root later) := by
  obtain ⟨hslash, hpermitted⟩ := plain_fileName
  have hwrites := FileTree.writesOnly_save tree root fileName (.text (builtIn root).render)
  have hblocked : IsBlocked root tree → tree.save root fileName (.text (builtIn root).render) =
      (false, tree) := fun h ↦ FileTree.save_of_isBlocked h _
  unfold save WritesOnly IsBuiltIn pathIn
  generalize (builtIn root).render = text at *
  rcases hfiles : tree.save root fileName (.text text) with ⟨_ | _, later⟩
  · rw [hfiles] at hwrites
    exact Or.inr ⟨later, by rw [show tree.save (builtIn root).root _ _ = _ from hfiles], hwrites,
      fun hpresent ↦ FileTree.save_of_present hslash hpermitted hpresent hfiles,
      FileTree.look_of_save_eq_false hslash hpermitted hfiles⟩
  · rw [hfiles] at hwrites hblocked
    refine Or.inl ⟨later, by rw [show tree.save (builtIn root).root _ _ = _ from hfiles], hwrites,
      fun h ↦ ?_, FileTree.look_of_save hslash hfiles⟩
    cases hblocked h

/-- The built-in configuration is loaded where its file is found. -/
theorem loadFor_of_isBuiltIn {environment : Environment} (hroot : locate environment = .ok root)
    (h : IsBuiltIn root tree) : loadFor tree environment = .ok (builtIn root) := by
  have hread : load tree root = (builtIn root).validate.map fun _ ↦ builtIn root :=
    (load_of_look h).trans (builtIn root).read_render
  rw [loadFor, hroot, show (Except.ok root >>= load tree) = load tree root from rfl, hread,
    validate_eq_ok_iff.mpr (isUsable_builtIn root)]
  rfl

/-- The built-in configuration is loaded where there is no file. -/
theorem loadFor_of_absent {environment : Environment} (hroot : locate environment = .ok root)
    (h : tree.look (pathIn root) = .absent) : loadFor tree environment = .ok (builtIn root) := by
  rw [loadFor, hroot, show (Except.ok root >>= load tree) = load tree root from rfl, load, h]
  rfl

/-- A directory at the path of the file is found there. -/
theorem look_of_isBlocked (h : IsBlocked root tree) : tree.look (pathIn root) = .unreadable :=
  FileTree.look_of_isBlocked plain_fileName.1 plain_fileName.2 h

/-- No configuration is loaded where a directory stands in place of its file. -/
theorem loadFor_of_isBlocked {environment : Environment} (hroot : locate environment = .ok root)
    (h : IsBlocked root tree) : loadFor tree environment = .error .access := by
  rw [loadFor, hroot, show (Except.ok root >>= load tree) = load tree root from rfl, load,
    look_of_isBlocked h]
  rfl

end Config

namespace Invocation

open Config (WritesOnly IsBlocked IsBuiltIn builtIn pathIn)

/-- The run is asked to set the configuration up. -/
def SetsUp (invocation : Invocation) (force : Bool) : Prop :=
  Arguments.read invocation.arguments = .ok (.setUp force)

/-- What a run does to the files of a tree, in an environment that has the configuration in the
directory `root`: its result and the tree after it. -/
inductive Effect (root : String) (tree : FileTree) (invocation : Invocation) :
    Result → FileTree → Prop where
  /-- Another command leaves everything as it is. -/
  | other (result : Result) : (∀ force, ¬ invocation.SetsUp force) →
      Effect root tree invocation result tree
  /-- What is at the path of the file is kept. -/
  | kept (reply : Reply) : invocation.SetsUp false → tree.look (pathIn root) ≠ .absent →
      reply.code = 0 → Effect root tree invocation (.answered reply) tree
  /-- The built-in configuration is written. -/
  | written (force : Bool) (reply : Reply) (later : FileTree) : invocation.SetsUp force →
      force = true ∨ tree.look (pathIn root) = .absent → reply.code = 0 →
      WritesOnly root tree later → ¬ IsBlocked root tree → IsBuiltIn root later →
      Effect root tree invocation (.answered reply) later
  /-- The built-in configuration cannot be written. Directories may have been made if nothing was at
  the path of the file. -/
  | failed (force : Bool) (later : FileTree) : invocation.SetsUp force →
      force = true ∨ tree.look (pathIn root) = .absent → WritesOnly root tree later →
      (tree.look (pathIn root) ≠ .absent → later = tree) →
      later.look (pathIn root) = .absent ∨ IsBlocked root later →
      Effect root tree invocation (.answered (.fail .access)) later

variable {environment : Environment} {root : String} {tree : FileTree}

/-- Setting the configuration up keeps what is at the path of its file, or saves the built-in
configuration. -/
theorem run_setUp (hroot : Config.locate environment = .ok root) (force : Bool)
    (input : Option String) : (Command.setUp force).run tree environment input =
      if tree.look (pathIn root) != .absent && !force then
        (.print (Command.presentNotice (builtIn root)), tree)
      else
        match (builtIn root).save tree with
        | (.ok _, later) => (.print (Command.writtenNotice (builtIn root)), later)
        | (.error error, later) => (.fail error, later) := by
  simp only [Command.run, Command.plan, Command.planSetUp, Command.configFile, hroot]
  by_cases hkept : (tree.look (pathIn root) != .absent && !force) = true
  · simp only [hkept, if_true]
  · simp only [hkept]
    rfl

/-- A run that is not asked to set the configuration up leaves every file as it is. -/
theorem run_of_not_setsUp {invocation : Invocation} (h : ∀ force, ¬ invocation.SetsUp force)
    (tree : FileTree) : (invocation.run tree).2 = tree := by
  unfold run
  cases hread : Arguments.read invocation.arguments with
  | error stop => rfl
  | ok command =>
      cases command with
      | setUp force => exact absurd hread (h force)
      | parse | search | attributes | resolve | operators | quickReference => rfl

/-- Every run has one of these effects. -/
theorem effect_run (hroot : Config.locate environment = .ok root) {invocation : Invocation}
    (henvironment : invocation.environment = environment) (tree : FileTree) :
    Effect root tree invocation (invocation.run tree).1 (invocation.run tree).2 := by
  by_cases hsetsUp : ∃ force, invocation.SetsUp force
  · obtain ⟨force, hforce⟩ := hsetsUp
    have hrun : invocation.run tree =
        ((.answered ((Command.setUp force).run tree environment invocation.input).1),
          ((Command.setUp force).run tree environment invocation.input).2) := by
      rw [run, show Arguments.read invocation.arguments = _ from hforce, henvironment]
    rw [hrun, run_setUp hroot]
    split
    next hkept =>
      obtain ⟨hpresent, hfalse⟩ : tree.look (pathIn root) ≠ .absent ∧ force = false := by
        simpa using hkept
      exact .kept _ (hfalse ▸ hforce) hpresent rfl
    next hkept =>
      have hasked : force = true ∨ tree.look (pathIn root) = .absent := by
        cases force <;> simp_all
      rcases Config.save_cases root tree with
        ⟨later, hsave, hwrites, hblocked, hbuiltIn⟩ | ⟨later, hsave, hwrites, hsame, hfailed⟩
      · rw [hsave]
        exact .written force _ later hforce hasked rfl hwrites hblocked hbuiltIn
      · rw [hsave]
        exact .failed force later hforce hasked hwrites hsame hfailed
  · have hnone : ∀ force, ¬ invocation.SetsUp force := fun force h ↦ hsetsUp ⟨force, h⟩
    rw [run_of_not_setsUp hnone]
    exact .other _ hnone

/-! ## Sequences of runs -/

variable {invocations : List Invocation}

/-- The first run of a sequence, and the others in the tree that it leaves behind. -/
theorem runAll_cons (tree : FileTree) (invocation : Invocation) (invocations : List Invocation) :
    runAll tree (invocation :: invocations) =
      ((invocation.run tree).1 :: (runAll (invocation.run tree).2 invocations).1,
        (runAll (invocation.run tree).2 invocations).2) :=
  rfl

/-- The configuration is written although there may be one: a run that is to do so succeeds. -/
def Overwrites (invocations : List Invocation) (results : List Result) : Prop :=
  ∃ step ∈ invocations.zip results, step.1.SetsUp true ∧ step.2.code = 0

/-- A run that is to set the configuration up fails. -/
def SetUpFails (invocations : List Invocation) (results : List Result) : Prop :=
  ∃ step ∈ invocations.zip results, (∃ force, step.1.SetsUp force) ∧ step.2.code = 1

/-- No runs overwrite nothing. -/
theorem not_overwrites_nil : ¬ Overwrites [] [] := by
  simp [Overwrites]

/-- The first run overwrites the configuration, or one of the others does. -/
theorem overwrites_cons {invocation : Invocation} {result : Result} {results : List Result} :
    Overwrites (invocation :: invocations) (result :: results) ↔
      (invocation.SetsUp true ∧ result.code = 0) ∨ Overwrites invocations results := by
  simp [Overwrites]

/-- The first run fails to set the configuration up, or one of the others does. -/
theorem setUpFails_cons {invocation : Invocation} {result : Result} {results : List Result} :
    SetUpFails (invocation :: invocations) (result :: results) ↔
      ((∃ force, invocation.SetsUp force) ∧ result.code = 1) ∨ SetUpFails invocations results := by
  simp [SetUpFails]

/-- A run is asked for one thing only. -/
theorem SetsUp.unique {invocation : Invocation} {force other : Bool} (h : invocation.SetsUp force)
    (hother : invocation.SetsUp other) : force = other := by
  unfold SetsUp at h hother
  rw [h] at hother
  cases hother
  rfl

/-- What every effect preserves is preserved by a sequence of runs. -/
theorem runAll_induction (hroot : Config.locate environment = .ok root)
    (henvironment : ∀ invocation ∈ invocations, invocation.environment = environment)
    {property : FileTree → Prop}
    (hstep : ∀ tree invocation result later, Effect root tree invocation result later →
      property tree → property later) (h : property tree) :
    property (runAll tree invocations).2 := by
  induction invocations generalizing tree with
  | nil => exact h
  | cons invocation invocations ih =>
      obtain ⟨hfirst, hrest⟩ := List.forall_mem_cons.mp henvironment
      rw [runAll_cons]
      exact ih hrest (hstep _ _ _ _ (effect_run hroot hfirst tree) h)

section

variable (hroot : Config.locate environment = .ok root)
  (henvironment : ∀ invocation ∈ invocations, invocation.environment = environment)

include hroot henvironment

/-- Runs write the file of the configuration only. -/
theorem writesOnly_runAll (tree : FileTree) : WritesOnly root tree (runAll tree invocations).2 := by
  refine runAll_induction hroot henvironment ?_ (.refl _ _ _ _)
  intro before invocation result later heffect hbefore
  cases heffect with
  | other | kept => exact hbefore
  | written _ _ _ _ _ _ hwrites => exact hbefore.trans hwrites
  | failed _ _ _ _ hwrites => exact hbefore.trans hwrites

/-- The built-in configuration stays in its file. -/
theorem isBuiltIn_runAll (h : IsBuiltIn root tree) :
    IsBuiltIn root (runAll tree invocations).2 := by
  refine runAll_induction hroot henvironment ?_ h
  intro before invocation result later heffect hbefore
  cases heffect with
  | other | kept => exact hbefore
  | written _ _ _ _ _ _ _ _ hbuiltIn => exact hbuiltIn
  | failed _ _ _ _ _ hsame =>
      have hpresent : before.look (pathIn root) ≠ .absent := by
        rw [show before.look (pathIn root) = _ from hbefore]
        simp
      rw [hsame hpresent]
      exact hbefore

/-- A directory at the path of the file stays there, and nothing else changes either. -/
theorem runAll_of_isBlocked (h : IsBlocked root tree) : (runAll tree invocations).2 = tree := by
  have hstep : ∀ before invocation result later, Effect root before invocation result later →
      before = tree → later = tree := by
    rintro before invocation result later heffect rfl
    cases heffect with
    | other | kept => rfl
    | written _ _ _ _ _ _ _ hblocked => exact absurd h hblocked
    | failed _ _ _ _ _ hsame => exact hsame (by rw [Config.look_of_isBlocked h]; simp)
  exact runAll_induction hroot henvironment hstep rfl

/-- What is at the path of the file stays until it is overwritten, and then there is the built-in
configuration. -/
theorem runAll_of_present (hpresent : tree.look (pathIn root) ≠ .absent) :
    (¬ Overwrites invocations (runAll tree invocations).1 → (runAll tree invocations).2 = tree) ∧
      (Overwrites invocations (runAll tree invocations).1 →
        IsBuiltIn root (runAll tree invocations).2) := by
  induction invocations with
  | nil => exact ⟨fun _ ↦ rfl, fun h ↦ absurd h not_overwrites_nil⟩
  | cons invocation invocations ih =>
      obtain ⟨hfirst, hrest⟩ := List.forall_mem_cons.mp henvironment
      have heffect := effect_run hroot hfirst tree
      rw [runAll_cons, overwrites_cons]
      generalize invocation.run tree = outcome at heffect ⊢
      obtain ⟨result, later⟩ := outcome
      cases heffect with
      | other _ hnone =>
          have hnot : ¬ (invocation.SetsUp true ∧ result.code = 0) := fun h ↦ hnone true h.1
          simpa only [hnot, false_or] using ih hrest
      | kept reply hasked =>
          have hnot : ¬ (invocation.SetsUp true ∧ (Result.answered reply).code = 0) := fun h ↦ by
            cases hasked.unique h.1
          simpa only [hnot, false_or] using ih hrest
      | written force reply _ hasked hforce hcode _ _ hbuiltIn =>
          obtain rfl := hforce.resolve_right hpresent
          exact ⟨fun hnot ↦ absurd (Or.inl ⟨hasked, hcode⟩) hnot,
            fun _ ↦ isBuiltIn_runAll hroot hrest hbuiltIn⟩
      | failed _ _ _ _ _ hsame =>
          obtain rfl := hsame hpresent
          have hnot : ¬ (invocation.SetsUp true ∧ (Result.answered (.fail .access)).code = 0) :=
            fun h ↦ by cases h.2
          simpa only [hnot, false_or] using ih hrest

/-- Where nothing was at the path of the file, there is the built-in configuration, or still
nothing, or a directory after an attempt that has failed. -/
theorem runAll_of_absent (habsent : tree.look (pathIn root) = .absent) :
    IsBuiltIn root (runAll tree invocations).2 ∨
      ¬ Overwrites invocations (runAll tree invocations).1 ∧
        ((runAll tree invocations).2.look (pathIn root) = .absent ∨
          SetUpFails invocations (runAll tree invocations).1 ∧
            IsBlocked root (runAll tree invocations).2) := by
  induction invocations generalizing tree with
  | nil => exact Or.inr ⟨not_overwrites_nil, Or.inl habsent⟩
  | cons invocation invocations ih =>
      obtain ⟨hfirst, hrest⟩ := List.forall_mem_cons.mp henvironment
      have heffect := effect_run hroot hfirst tree
      rw [runAll_cons, overwrites_cons, setUpFails_cons]
      generalize invocation.run tree = outcome at heffect ⊢
      obtain ⟨result, later⟩ := outcome
      cases heffect with
      | other _ hnone =>
          have hnot : ¬ (invocation.SetsUp true ∧ result.code = 0) := fun h ↦ hnone true h.1
          simp only [hnot, false_or]
          exact (ih hrest habsent).imp_right fun ⟨hoverwrites, hlook⟩ ↦
            ⟨hoverwrites, hlook.imp_right fun ⟨hfails, hblocked⟩ ↦ ⟨Or.inr hfails, hblocked⟩⟩
      | kept _ _ hpresent => exact absurd habsent hpresent
      | written _ _ _ _ _ _ _ _ hbuiltIn => exact Or.inl (isBuiltIn_runAll hroot hrest hbuiltIn)
      | failed force _ hasked _ _ _ hlook =>
          have hnot : ¬ (invocation.SetsUp true ∧ (Result.answered (.fail .access)).code = 0) :=
            fun h ↦ by cases h.2
          simp only [hnot, false_or]
          rcases hlook with hlook | hblocked
          · exact (ih hrest hlook).imp_right fun ⟨hoverwrites, hlook⟩ ↦
              ⟨hoverwrites, hlook.imp_right fun ⟨hfails, hblocked⟩ ↦ ⟨Or.inr hfails, hblocked⟩⟩
          · -- the directory stays, so that the configuration is not overwritten any more
            have hstays := runAll_of_isBlocked hroot hrest hblocked
            have hfound := Config.look_of_isBlocked hblocked
            refine Or.inr ⟨fun hoverwrites ↦ ?_, Or.inr ⟨Or.inl ⟨⟨force, hasked⟩, rfl⟩, ?_⟩⟩
            · have hbuiltIn := (runAll_of_present hroot hrest (by rw [hfound]; simp)).2 hoverwrites
              rw [hstays, IsBuiltIn, hfound] at hbuiltIn
              cases hbuiltIn
            · exact hstays.symm ▸ hblocked

end

/-- A run that searches depends on the files only in the configuration that it loads. -/
theorem run_search_congr {later : FileTree} {invocation : Invocation} {expression : Option String}
    {overrides : Overrides} {compact : Bool}
    (hread : Arguments.read invocation.arguments = .ok (.search expression overrides compact))
    (hconfig : Config.loadFor later invocation.environment =
      Config.loadFor tree invocation.environment) :
    (invocation.run later).1 = (invocation.run tree).1 := by
  have hrun : ∀ files : FileTree, (invocation.run files).1 =
      .answered (.ofResult (Command.printSearch ⟨invocation.environment, invocation.input,
        Command.configFile files invocation.environment⟩ expression overrides compact)) := by
    intro files
    rw [run, hread]
    rfl
  rw [hrun, hrun, Command.printSearch_eq, Command.printSearch_eq, hconfig]

/-- What is certain of the files after a sequence of runs in one environment, whose configuration is
in the directory `root`: the results of the runs are `results`, and `final` is the tree after
them. -/
structure Undisturbed (environment : Environment) (root : String) (tree : FileTree)
    (invocations : List Invocation) (results : List Result) (final : FileTree) : Prop where
  /-- Only a run that sets the configuration up changes anything, in whatever tree it runs. -/
  others : ∀ invocation ∈ invocations, (∀ force, ¬ invocation.SetsUp force) →
    ∀ before : FileTree, (invocation.run before).2 = before
  /-- What is changed are missing directories on the way to `root`, and the file there. -/
  writesOnly : WritesOnly root tree final
  /-- Every entry still lies in a directory. -/
  rooted : tree.IsRooted → final.IsRooted
  /-- Without force, everything is left as it is if there is something at the path of the file. -/
  kept : ∀ invocation ∈ invocations, invocation.SetsUp false → ∀ before : FileTree,
    before.look (pathIn root) ≠ .absent →
      (invocation.run before).2 = before ∧ (invocation.run before).1.code = 0
  /-- What was there at first is there until it is overwritten. -/
  initial : tree.look (pathIn root) ≠ .absent → ¬ Overwrites invocations results → final = tree
  /-- Otherwise the built-in configuration is loaded. If nothing was there and setting up has failed
  it may be that a directory is there instead, and then none is loaded. -/
  builtIn : tree.look (pathIn root) = .absent ∨ Overwrites invocations results →
    Config.loadFor final environment = .ok (builtIn root) ∨
      tree.look (pathIn root) = .absent ∧ ¬ Overwrites invocations results ∧
        SetUpFails invocations results ∧ IsBlocked root final ∧
        Config.loadFor final environment = .error .access
  /-- That cannot be if every entry of the tree lies in a directory and `root` goes up nowhere. -/
  unblocked : tree.look (pathIn root) = .absent → tree.IsRooted → ".." ∉ Path.steps root →
    ¬ IsBlocked root final
  /-- If nothing was there at first and no directory is there now, every search ends as it would have
  at first. -/
  searches : tree.look (pathIn root) = .absent → ¬ IsBlocked root final →
    ∀ (invocation : Invocation) (expression : Option String) (overrides : Overrides)
      (compact : Bool), invocation.environment = environment →
        Arguments.read invocation.arguments = .ok (.search expression overrides compact) →
          (invocation.run final).1 = (invocation.run tree).1

/-- Runs never disturb a configuration except as they are asked to. -/
theorem runAll_undisturbed {environment : Environment} {root : String}
    (hroot : Config.locate environment = .ok root) (tree : FileTree)
    {invocations : List Invocation}
    (henvironment : ∀ invocation ∈ invocations, invocation.environment = environment) :
    Undisturbed environment root tree invocations (runAll tree invocations).1
      (runAll tree invocations).2 := by
  have hwrites := writesOnly_runAll hroot henvironment tree
  have hbuiltIn : tree.look (pathIn root) = .absent ∨
      Overwrites invocations (runAll tree invocations).1 →
        Config.loadFor (runAll tree invocations).2 environment = .ok (builtIn root) ∨
          tree.look (pathIn root) = .absent ∧
            ¬ Overwrites invocations (runAll tree invocations).1 ∧
            SetUpFails invocations (runAll tree invocations).1 ∧
            IsBlocked root (runAll tree invocations).2 ∧
            Config.loadFor (runAll tree invocations).2 environment = .error .access := by
    intro hcase
    by_cases habsent : tree.look (pathIn root) = .absent
    · rcases runAll_of_absent hroot henvironment habsent with
        hfile | ⟨hnot, hnothing | ⟨hfails, hblocked⟩⟩
      · exact Or.inl (Config.loadFor_of_isBuiltIn hroot hfile)
      · exact Or.inl (Config.loadFor_of_absent hroot hnothing)
      · exact Or.inr ⟨habsent, hnot, hfails, hblocked, Config.loadFor_of_isBlocked hroot hblocked⟩
    · exact Or.inl (Config.loadFor_of_isBuiltIn hroot
        ((runAll_of_present hroot henvironment habsent).2 (hcase.resolve_left habsent)))
  refine ⟨fun invocation _ hnone before ↦ run_of_not_setsUp hnone before, hwrites,
    fun hrooted ↦ hwrites.isRooted hrooted, fun invocation hmem hasked before hpresent ↦ ?_,
    fun hpresent ↦ (runAll_of_present hroot henvironment hpresent).1, hbuiltIn,
    fun habsent hrooted hup ↦ ?_,
    fun habsent hfree invocation expression overrides compact hsame hread ↦ ?_⟩
  · have heffect := effect_run hroot (henvironment invocation hmem) before
    generalize invocation.run before = outcome at heffect ⊢
    obtain ⟨result, later⟩ := outcome
    cases heffect with
    | other _ hnone => exact absurd hasked (hnone false)
    | kept _ _ _ hcode => exact ⟨rfl, hcode⟩
    | written _ _ _ hforced hreason =>
        obtain rfl := hasked.unique hforced
        exact absurd (hreason.resolve_left (by decide)) hpresent
    | failed _ _ hforced hreason =>
        obtain rfl := hasked.unique hforced
        exact absurd (hreason.resolve_left (by decide)) hpresent
  · obtain ⟨hslash, hpermitted⟩ := Config.plain_fileName
    exact FileTree.not_isBlocked hslash hpermitted hrooted hup habsent hwrites
  · refine run_search_congr hread ?_
    rw [hsame, Config.loadFor_of_absent hroot habsent]
    rcases hbuiltIn (Or.inl habsent) with hloaded | ⟨-, -, -, hblocked, -⟩
    · exact hloaded
    · exact absurd hblocked hfree

/-- An environment whose configuration is in this directory. -/
def inDirectory (root : String) : Environment :=
  ⟨some root, none, none, none⟩

/-- Runs that set the configuration in a directory up, without force and with it, and another run
between them. -/
def settingUp (root : String) : List Invocation :=
  [⟨["init"], inDirectory root, none⟩, ⟨["attrs"], inDirectory root, none⟩,
    ⟨["init", "-f"], inDirectory root, none⟩]

/-- In an empty tree such runs disturb nothing, and a search ends as it would have before them. -/
theorem runAll_undisturbed_empty :
    Undisturbed (inDirectory "/r") "/r" ⟨[], []⟩ (settingUp "/r")
        (runAll ⟨[], []⟩ (settingUp "/r")).1 (runAll ⟨[], []⟩ (settingUp "/r")).2 ∧
      (run (runAll ⟨[], []⟩ (settingUp "/r")).2 ⟨["search", "1=a"], inDirectory "/r", none⟩).1 =
        (run ⟨[], []⟩ ⟨["search", "1=a"], inDirectory "/r", none⟩).1 := by
  have hundisturbed : Undisturbed (inDirectory "/r") "/r" ⟨[], []⟩ (settingUp "/r")
      (runAll ⟨[], []⟩ (settingUp "/r")).1 (runAll ⟨[], []⟩ (settingUp "/r")).2 :=
    runAll_undisturbed rfl ⟨[], []⟩ (by decide)
  have hrooted : FileTree.IsRooted ⟨[], []⟩ := ⟨by simp [FileTree.find?], rfl⟩
  exact ⟨hundisturbed, hundisturbed.searches rfl (hundisturbed.unblocked rfl hrooted (by decide)) _
    (some "1=a") ⟨[], false, none⟩ false rfl (by decide)⟩

/-- In an empty tree, where the path of the configuration goes through a directory of the file's own
name and up again, setting up makes that directory and fails, and searches fail from then on. -/
theorem search_after_failed_setUp :
    Config.locate (inDirectory "/config.toml/..") = .ok "/config.toml/.." ∧
      FileTree.IsRooted ⟨[], []⟩ ∧
      FileTree.look ⟨[], []⟩ (pathIn "/config.toml/..") = .absent ∧
      Config.loadFor ⟨[], []⟩ (inDirectory "/config.toml/..") = .ok (builtIn "/config.toml/..") ∧
      (runAll ⟨[], []⟩ [⟨["search", "1=a"], inDirectory "/config.toml/..", none⟩,
        ⟨["init"], inDirectory "/config.toml/..", none⟩,
        ⟨["search", "1=a"], inDirectory "/config.toml/..", none⟩]).1.map Result.code = [0, 1, 1] ∧
      Config.loadFor (runAll ⟨[], []⟩ [⟨["init"], inDirectory "/config.toml/..", none⟩]).2
        (inDirectory "/config.toml/..") = .error .access :=
  ⟨rfl, ⟨by simp [FileTree.find?], rfl⟩, rfl, rfl, by decide +kernel, rfl⟩

end Invocation

end ModelQuery
