import Mathlib.Data.List.Induction
import ModelQuery.Proofs.Files.Saving

/-!
# What saving changes

Making the directories of a path and writing a file there changes few places: missing directories on
the way are made, and the file takes its place (`writesOnly_save`). Where the way to the file is
there already, saving either writes the file or changes nothing (`save_of_present`). If saving
fails, nothing is found at the path, or a directory of the file's name stands there
(`look_of_save_eq_false`), which stays in the way of every further attempt (`save_of_isBlocked`).
In a rooted tree, which saving leaves rooted (`WritesOnly.isRooted`), a path that goes up nowhere
cannot run into such a directory unless that was found there before (`not_isBlocked`).
-/

namespace ModelQuery

namespace FileTree

variable {tree later : FileTree} {current names : List String}

/-! ## Ways -/

/-- One point stays. -/
@[simp] theorem follow_stay (tree : FileTree) (current rest : List String) :
    tree.follow current ("." :: rest) = tree.follow current rest := by
  rw [follow, if_pos rfl]

/-- Two points go up. -/
@[simp] theorem follow_up (tree : FileTree) (current rest : List String) :
    tree.follow current (".." :: rest) = tree.follow current.dropLast rest := by
  rw [follow, if_neg (by decide), if_pos rfl]

/-- The name of a directory leads into it. -/
theorem follow_down {name : String} (hstay : name ≠ ".") (hup : name ≠ "..")
    (h : tree.find? (current ++ [name]) = some .directory) (rest : List String) :
    tree.follow current (name :: rest) = tree.follow (current ++ [name]) rest := by
  rw [follow, if_neg hstay, if_neg hup, h]

/-- The place is one through which the names lead, or the one that they lead to. -/
def IsOnWay (tree : FileTree) (current names place : List String) : Prop :=
  ∃ front back, names = front ++ back ∧ tree.follow current front = some (place, .directory)

/-- A way may begin with a step. -/
theorem IsOnWay.cons {name : String} {next place : List String}
    (h : tree.IsOnWay next names place)
    (hstep : ∀ rest, tree.follow current (name :: rest) = tree.follow next rest) :
    tree.IsOnWay current (name :: names) place := by
  obtain ⟨front, back, rfl, hfollow⟩ := h
  exact ⟨name :: front, back, rfl, by rw [hstep, hfollow]⟩

/-- The directories of a tree are directories of another one. -/
def KeepsDirectories (tree later : FileTree) : Prop :=
  ∀ place, tree.find? place = some .directory → later.find? place = some .directory

/-- Ways to directories stay while directories do. -/
theorem KeepsDirectories.follow (h : KeepsDirectories tree later) {place : List String}
    (hfollow : tree.follow current names = some (place, .directory)) :
    later.follow current names = some (place, .directory) := by
  induction names generalizing current with
  | nil => exact hfollow
  | cons name names ih =>
      by_cases hstay : name = "."
      · subst hstay
        rw [follow_stay] at hfollow ⊢
        exact ih hfollow
      by_cases hup : name = ".."
      · subst hup
        rw [follow_up] at hfollow ⊢
        exact ih hfollow
      rw [FileTree.follow, if_neg hstay, if_neg hup] at hfollow
      split at hfollow
      next hfind =>
        rw [follow_down hstay hup (h _ hfind)]
        exact ih hfollow
      next =>
        split at hfollow
        next => cases hfollow
        next => cases hfollow
      next => cases hfollow

/-- What is on the way stays there. -/
theorem IsOnWay.of_keeps (h : KeepsDirectories tree later) {place : List String}
    (hway : tree.IsOnWay current names place) : later.IsOnWay current names place := by
  obtain ⟨front, back, hnames, hfollow⟩ := hway
  exact ⟨front, back, hnames, h.follow hfollow⟩

/-! ## Directories -/

/-- The later tree has further directories on the way of the names, where nothing was before. -/
structure Made (current names : List String) (tree later : FileTree) : Prop where
  workingDirectory : later.workingDirectory = tree.workingDirectory
  places : ∀ place, later.find? place = tree.find? place ∨
    tree.find? place = none ∧ later.find? place = some .directory ∧
      later.IsOnWay current names place

namespace Made

/-- Paths start where they did. -/
theorem start_eq (h : Made current names tree later) (path : String) :
    later.start path = tree.start path := by
  rw [start, start, h.workingDirectory]

/-- Nothing need be made. -/
theorem refl (current names : List String) (tree : FileTree) : Made current names tree tree :=
  ⟨rfl, fun _ ↦ Or.inl rfl⟩

/-- No directory is lost. -/
theorem keepsDirectories (h : Made current names tree later) : KeepsDirectories tree later := by
  intro place hplace
  rcases h.places place with hsame | ⟨-, hmade, -⟩
  · rw [hsame, hplace]
  · exact hmade

/-- A way may begin with a step. -/
theorem cons {name : String} {next : List String} (h : Made next names tree later)
    (hstep : ∀ rest, later.follow current (name :: rest) = later.follow next rest) :
    Made current (name :: names) tree later where
  workingDirectory := h.workingDirectory
  places place := (h.places place).imp_right fun ⟨hnone, hmade, hway⟩ ↦
    ⟨hnone, hmade, hway.cons hstep⟩

/-- A directory may be made before the others. -/
theorem of_set {name : String} (hstay : name ≠ ".") (hup : name ≠ "..")
    (hnone : tree.find? (current ++ [name]) = none)
    (h : Made (current ++ [name]) names (tree.set (current ++ [name]) .directory) later) :
    Made current (name :: names) tree later where
  workingDirectory := h.workingDirectory
  places place := by
    have hself : later.find? (current ++ [name]) = some .directory :=
      h.keepsDirectories _ (find?_set_self tree (by simp) _)
    have hstep := follow_down hstay hup hself
    by_cases hplace : place = current ++ [name]
    · subst hplace
      exact Or.inr ⟨hnone, hself, [name], names, rfl, by rw [hstep, FileTree.follow]⟩
    · have hother := find?_set_of_ne tree hplace .directory
      rcases h.places place with hsame | ⟨hmissing, hmade, hway⟩
      · exact Or.inl (hsame.trans hother)
      · exact Or.inr ⟨hother ▸ hmissing, hmade, hway.cons hstep⟩

end Made

/-- Making directories makes nothing else. It succeeds if the names lead to a directory then, and if
it fails they lead nowhere with a name behind them. -/
theorem makeDirectoriesFrom_spec (tree : FileTree) (current names : List String) :
    Made current names tree (tree.makeDirectoriesFrom current names).2 ∧
      ((tree.makeDirectoriesFrom current names).1 = true →
        ∃ place, (tree.makeDirectoriesFrom current names).2.follow current names =
          some (place, .directory)) ∧
      ((tree.makeDirectoriesFrom current names).1 = false → ∀ last,
        (tree.makeDirectoriesFrom current names).2.follow current (names ++ [last]) = none) := by
  fun_induction makeDirectoriesFrom tree current names with
  | case1 tree current =>
      exact ⟨.refl _ _ _, fun _ ↦ ⟨current, by rw [follow]⟩, fun h ↦ by cases h⟩
  | case2 tree current rest ih =>
      obtain ⟨hmade, hdone, hfailed⟩ := ih
      exact ⟨hmade.cons (follow_stay _ _), by simpa using hdone, by simpa using hfailed⟩
  | case3 tree current rest _ ih =>
      obtain ⟨hmade, hdone, hfailed⟩ := ih
      exact ⟨hmade.cons (follow_up _ _), by simpa using hdone, by simpa using hfailed⟩
  | case4 tree current name rest hstay hup hfind ih =>
      obtain ⟨hmade, hdone, hfailed⟩ := ih
      have hstep := follow_down hstay hup (hmade.keepsDirectories _ hfind)
      refine ⟨hmade.cons hstep, ?_, ?_⟩
      · simpa only [hstep] using hdone
      · simpa only [List.cons_append, hstep] using hfailed
  | case5 tree current name rest hstay hup content hfind =>
      refine ⟨.refl _ _ _, fun h ↦ (by cases h), fun _ last ↦ ?_⟩
      rw [List.cons_append, follow, if_neg hstay, if_neg hup, hfind]
      simp
  | case6 tree current name rest hstay hup hfind hpermitted ih =>
      obtain ⟨hmade, hdone, hfailed⟩ := ih
      have hself := hmade.keepsDirectories _ (find?_set_self tree (by simp) _)
      have hstep := follow_down hstay hup hself
      refine ⟨.of_set hstay hup hfind hmade, ?_, ?_⟩
      · simpa only [hstep] using hdone
      · simpa only [List.cons_append, hstep] using hfailed
  | case7 tree current name rest hstay hup hfind hpermitted =>
      refine ⟨.refl _ _ _, fun h ↦ (by cases h), fun _ last ↦ ?_⟩
      rw [List.cons_append, follow, if_neg hstay, if_neg hup, hfind]

/-- Nothing is made where there is a way already. -/
theorem makeDirectoriesFrom_of_follow {place : List String}
    (h : tree.follow current names = some (place, .directory)) :
    tree.makeDirectoriesFrom current names = (true, tree) := by
  induction names generalizing current with
  | nil => rfl
  | cons name names ih =>
      rw [follow] at h
      rw [makeDirectoriesFrom]
      split
      next hstay =>
        rw [if_pos hstay] at h
        exact ih h
      next hstay =>
        rw [if_neg hstay] at h
        split
        next hup =>
          rw [if_pos hup] at h
          exact ih h
        next hup =>
          rw [if_neg hup] at h
          split at h
          next => exact ih h
          next =>
            split at h
            next => cases h
            next => cases h
          next => cases h

/-! ## Files -/

section

variable {directory name : String} {content : Content}

/-- A path to an entry can lead somewhere only if that to its directory can. -/
theorem isUsable_of_join (h : Path.isUsable (Path.join directory name) = true) :
    Path.isUsable directory = true := by
  have hprefix : ∀ rest : String, Path.isUsable (directory ++ rest) = true →
      Path.isUsable directory = true := by
    intro rest hrest
    simp only [Path.isUsable, String.utf8ByteSize_append, String.toList_append, Bool.and_eq_true,
      decide_eq_true_eq, Bool.not_eq_true', List.contains_eq_mem, List.mem_append,
      decide_eq_false_iff_not, not_or] at hrest ⊢
    exact ⟨by omega, hrest.2.1⟩
  unfold Path.join at h
  split at h
  next hlast =>
    rw [String.toList_eq_nil_iff.mp (List.getLast?_eq_none_iff.mp hlast)]
    decide
  next => exact hprefix _ h
  next =>
    rw [String.append_assoc] at h
    exact hprefix _ h

/-- What is found at the path of an entry is what its directory has under its name. -/
theorem look_join (tree : FileTree) (hslash : '/' ∉ name.toList) (hne : name.toList ≠ []) :
    tree.look (Path.join directory name) =
      if Path.isUsable (Path.join directory name) then
        match tree.follow (tree.start directory) (Path.steps directory ++ [name]) with
        | none => .absent
        | some (_, .directory) => .unreadable
        | some (_, .file content) => content.state
      else .absent := by
  have hstart : tree.start (Path.join directory name) = tree.start directory := by
    rw [start, start, Path.isAbsolute_join directory hslash]
  rw [look, hstart, Path.steps_join directory hslash hne,
    Path.isForDirectory_join directory hslash hne]
  rfl

/-- The later tree differs from the earlier one at most in directories on the way to a directory,
where nothing was before, and in a file of this name and content in that directory. -/
inductive Change (tree later : FileTree) (directory name : String) (content : Content)
    (place : List String) : Prop where
  | same : later.find? place = tree.find? place → Change tree later directory name content place
  | made : tree.find? place = none → later.find? place = some .directory →
      later.IsOnWay (later.start directory) (Path.steps directory) place →
      Change tree later directory name content place
  | written (parent : List String) :
      later.follow (later.start directory) (Path.steps directory) = some (parent, .directory) →
      place = parent ++ [name] → tree.find? place ≠ some .directory →
      later.find? place = some (.file content) → Change tree later directory name content place

/-- No place is changed but those of missing directories on the way to a directory, and that of one
file in it. -/
structure WritesOnly (directory name : String) (content : Content) (tree later : FileTree) :
    Prop where
  workingDirectory : later.workingDirectory = tree.workingDirectory
  change : ∀ place, Change tree later directory name content place

namespace WritesOnly

/-- Nothing need be changed. -/
theorem refl (directory name : String) (content : Content) (tree : FileTree) :
    WritesOnly directory name content tree tree :=
  ⟨rfl, fun _ ↦ .same rfl⟩

/-- Paths start where they did. -/
theorem start_eq (h : WritesOnly directory name content tree later) (path : String) :
    later.start path = tree.start path := by
  rw [start, start, h.workingDirectory]

/-- No directory is lost. -/
theorem keepsDirectories (h : WritesOnly directory name content tree later) :
    KeepsDirectories tree later := by
  intro place hplace
  cases h.change place with
  | same hsame => rw [hsame, hplace]
  | made _ hmade => exact hmade
  | written _ _ _ hne => exact absurd hplace hne

/-- Changes may follow one another. -/
theorem trans {last : FileTree} (h : WritesOnly directory name content tree later)
    (hlast : WritesOnly directory name content later last) :
    WritesOnly directory name content tree last where
  workingDirectory := hlast.workingDirectory.trans h.workingDirectory
  change place := by
    have hkeeps := hlast.keepsDirectories
    have hstart := hlast.start_eq directory
    cases hlast.change place with
    | same hsame =>
        cases h.change place with
        | same hbefore => exact .same (hsame.trans hbefore)
        | made hnone hmade hway =>
            exact .made hnone (hsame.trans hmade) (hstart ▸ hway.of_keeps hkeeps)
        | written parent hfollow hplace hne hwritten =>
            exact .written parent (hstart ▸ hkeeps.follow hfollow) hplace hne
              (hsame.trans hwritten)
    | made hnone hmade hway =>
        -- where nothing is in between, nothing was before
        refine .made ?_ hmade hway
        cases h.change place with
        | same hbefore => rw [← hbefore, hnone]
        | made _ hbefore => rw [hbefore] at hnone; cases hnone
        | written _ _ _ _ hbefore => rw [hbefore] at hnone; cases hnone
    | written parent hfollow hplace hne hwritten =>
        exact .written parent hfollow hplace (fun hbefore ↦ hne (h.keepsDirectories place hbefore))
          hwritten

end WritesOnly

/-- A directory of the file's name stands at the path of the file. -/
def IsBlocked (tree : FileTree) (directory name : String) : Prop :=
  Path.isUsable (Path.join directory name) = true ∧
    ∃ place, tree.follow (tree.start directory) (Path.steps directory) = some (place, .directory) ∧
      tree.find? (place ++ [name]) = some .directory

/-- Directories are made on the way only. -/
theorem writesOnly_makeDirectories (tree : FileTree) (directory name : String)
    (content : Content) :
    WritesOnly directory name content tree (tree.makeDirectories directory).2 := by
  unfold makeDirectories
  split
  next =>
    obtain ⟨hmade, -⟩ :=
      makeDirectoriesFrom_spec tree (tree.start directory) (Path.steps directory)
    refine ⟨hmade.workingDirectory, fun place ↦ ?_⟩
    rcases hmade.places place with hsame | ⟨hnone, hdirectory, hway⟩
    · exact .same hsame
    · exact .made hnone hdirectory ((hmade.start_eq directory).symm ▸ hway)
  next => exact .refl _ _ _ _

/-- A file is written in its place only. -/
theorem writesOnly_write (h : tree.write directory name content = some later) :
    WritesOnly directory name content tree later := by
  obtain ⟨place, hfollow, hne, -, -, rfl⟩ := of_write h
  refine ⟨rfl, fun other ↦ ?_⟩
  by_cases hplace : other = place ++ [name]
  · subst hplace
    exact .written place (follow_set hne hfollow) rfl hne (find?_set_self tree (by simp) _)
  · exact .same (find?_set_of_ne tree hplace _)

/-- Saving makes directories on the way and writes the file, and changes nothing else. -/
theorem writesOnly_save (tree : FileTree) (directory name : String) (content : Content) :
    WritesOnly directory name content tree (tree.save directory name content).2 := by
  have hmade := writesOnly_makeDirectories tree directory name content
  unfold save
  split
  next made hmake =>
    rw [hmake] at hmade
    exact hmade
  next made hmake =>
    rw [hmake] at hmade
    split
    next written hwrite => exact hmade.trans (writesOnly_write hwrite)
    next => exact hmade

/-! ## Failures -/

/-- What leads on from a directory leads to that directory first. -/
theorem exists_of_follow_append {last : String} {found : List String × FileNode}
    (h : tree.follow current (names ++ [last]) = some found) :
    ∃ place, tree.follow current names = some (place, .directory) := by
  induction names generalizing current with
  | nil => exact ⟨current, by rw [follow]⟩
  | cons first names ih =>
      by_cases hstay : first = "."
      · subst hstay
        simpa using ih (by simpa using h)
      by_cases hup : first = ".."
      · subst hup
        simpa using ih (by simpa using h)
      rw [List.cons_append, follow, if_neg hstay, if_neg hup] at h
      split at h
      next hfind =>
        rw [follow_down hstay hup hfind]
        exact ih h
      next =>
        rw [if_neg (by simp)] at h
        cases h
      next => cases h

/-- No directory is made where the path leads to one. -/
theorem makeDirectories_of_follow {place : List String} (husable : Path.isUsable directory = true)
    (h : tree.follow (tree.start directory) (Path.steps directory) = some (place, .directory)) :
    tree.makeDirectories directory = (true, tree) := by
  rw [makeDirectories, if_pos husable, makeDirectoriesFrom_of_follow h]

/-- A directory of the file's name is in the way of saving, which then changes nothing. -/
theorem save_of_isBlocked (h : tree.IsBlocked directory name) (content : Content) :
    tree.save directory name content = (false, tree) := by
  obtain ⟨husable, place, hfollow, hblocked⟩ := h
  have hwrite : tree.write directory name content = none := by
    simp only [write, hfollow, hblocked]
  rw [save, makeDirectories_of_follow (isUsable_of_join husable) hfollow]
  simp only [hwrite]

variable (hslash : '/' ∉ name.toList) (hpermitted : isPermitted name = true)

include hslash hpermitted

/-- A directory of the file's name is what is found at the path. -/
theorem look_of_isBlocked (h : tree.IsBlocked directory name) :
    tree.look (Path.join directory name) = .unreadable := by
  obtain ⟨hne, hstay, hup⟩ := of_isPermitted hpermitted
  obtain ⟨husable, place, hfollow, hblocked⟩ := h
  rw [look_join tree hslash hne, if_pos husable, follow_append [name] hfollow,
    follow_down hstay hup hblocked, follow]

/-- Where something is found at the path, a failure to save changes nothing. -/
theorem save_of_present (hpresent : tree.look (Path.join directory name) ≠ .absent)
    (hsave : tree.save directory name content = (false, later)) : later = tree := by
  obtain ⟨hne, -, -⟩ := of_isPermitted hpermitted
  rw [look_join tree hslash hne] at hpresent
  split at hpresent
  next husable =>
    cases hfound : tree.follow (tree.start directory) (Path.steps directory ++ [name]) with
    | none => exact absurd (by rw [hfound]) hpresent
    | some found =>
        obtain ⟨place, hfollow⟩ := exists_of_follow_append hfound
        rw [save, makeDirectories_of_follow (isUsable_of_join husable) hfollow] at hsave
        simp only at hsave
        split at hsave
        next => cases hsave
        next => exact (Prod.mk.inj hsave).2.symm
  next => exact absurd rfl hpresent

/-- After a failure to save nothing is found at the path, or a directory of the file's name is in
the way. -/
theorem look_of_save_eq_false (hsave : tree.save directory name content = (false, later)) :
    later.look (Path.join directory name) = .absent ∨ later.IsBlocked directory name := by
  obtain ⟨hne, -, -⟩ := of_isPermitted hpermitted
  by_cases husable : Path.isUsable (Path.join directory name) = true
  · obtain ⟨hmade, hdone, hfailed⟩ :=
      makeDirectoriesFrom_spec tree (tree.start directory) (Path.steps directory)
    have hstart := hmade.start_eq directory
    rw [save, makeDirectories, if_pos (isUsable_of_join husable)] at hsave
    split at hsave
    next made hmake =>
      -- the directories could not be made
      obtain rfl := (Prod.mk.inj hsave).2
      rw [hmake] at hstart hfailed
      left
      rw [look_join _ hslash hne, if_pos husable, hstart, hfailed rfl name]
    next made hmake =>
      rw [hmake] at hstart hdone
      obtain ⟨place, hfollow⟩ := hdone rfl
      split at hsave
      next => cases hsave
      next hwrite =>
        obtain rfl := (Prod.mk.inj hsave).2
        right
        refine ⟨husable, place, hstart ▸ hfollow, ?_⟩
        rw [write, hstart, hfollow] at hwrite
        simp only at hwrite
        split at hwrite
        next hblocked => exact hblocked
        next =>
          rw [husable, hpermitted] at hwrite
          cases hwrite
  · left
    rw [look_join _ hslash hne, if_neg husable]

end

/-! ## Rooted trees -/

/-- Every entry lies in a directory, and relative paths start from one. -/
structure IsRooted (tree : FileTree) : Prop where
  parent : ∀ place name, tree.find? (place ++ [name]) ≠ none →
    tree.find? place = some .directory
  workingDirectory : tree.find? tree.workingDirectory = some .directory

/-- Everything on the way to a directory is a directory. -/
theorem IsRooted.directory (h : tree.IsRooted) {place further : List String}
    (hfind : tree.find? (place ++ further) = some .directory) :
    tree.find? place = some .directory := by
  induction further using List.reverseRecOn with
  | nil => rwa [List.append_nil] at hfind
  | append_singleton further name ih =>
      rw [← List.append_assoc] at hfind
      exact ih (h.parent _ name (by rw [hfind]; simp))

/-- Names lead from a directory in directories to a directory in directories. -/
theorem directory_of_follow {place : List String}
    (hcurrent : ∀ front back, current = front ++ back → tree.find? front = some .directory)
    (h : tree.follow current names = some (place, .directory)) :
    ∀ front back, place = front ++ back → tree.find? front = some .directory := by
  induction names generalizing current with
  | nil =>
      rw [follow] at h
      cases h
      exact hcurrent
  | cons name names ih =>
      by_cases hstay : name = "."
      · subst hstay
        rw [follow_stay] at h
        exact ih hcurrent h
      by_cases hup : name = ".."
      · subst hup
        rw [follow_up] at h
        refine ih (fun front back hdrop ↦ ?_) h
        exact hcurrent front (back ++ current.drop (current.length - 1)) (by
          rw [← List.append_assoc, ← hdrop, List.dropLast_eq_take, List.take_append_drop])
      rw [follow, if_neg hstay, if_neg hup] at h
      split at h
      next hfind =>
        refine ih (fun front back hlonger ↦ ?_) h
        rcases List.eq_nil_or_concat back with rfl | ⟨shorter, last, rfl⟩
        · rw [← List.append_nil front, ← hlonger, hfind]
        · rw [List.concat_eq_append, ← List.append_assoc] at hlonger
          exact hcurrent front shorter (List.append_inj_left' hlonger rfl)
      next =>
        split at h
        next => cases h
        next => cases h
      next => cases h

/-- Saving leaves a rooted tree rooted. -/
theorem WritesOnly.isRooted {directory name : String} {content : Content} (hrooted : tree.IsRooted)
    (h : WritesOnly directory name content tree later) : later.IsRooted := by
  have hkeeps := h.keepsDirectories
  have hstart : ∀ front back, later.start directory = front ++ back →
      later.find? front = some .directory := by
    intro front back hsplit
    refine hkeeps front ?_
    rw [h.start_eq, start] at hsplit
    split at hsplit
    next =>
      rw [(List.append_eq_nil_iff.mp hsplit.symm).1]
      rfl
    next => exact hrooted.directory (hsplit ▸ hrooted.workingDirectory)
  refine ⟨fun place entry hentry ↦ ?_, ?_⟩
  · cases h.change (place ++ [entry]) with
    | same hsame =>
        rw [hsame] at hentry
        exact hkeeps place (hrooted.parent place entry hentry)
    | made _ _ hway =>
        obtain ⟨front, back, -, hfollow⟩ := hway
        exact directory_of_follow hstart hfollow place [entry] rfl
    | written parent hfollow hplace =>
        obtain ⟨rfl, -⟩ := List.append_inj' hplace rfl
        exact directory_of_follow hstart hfollow place [] (by simp)
  · rw [h.workingDirectory]
    exact hkeeps _ hrooted.workingDirectory

/-! ## Paths that go up nowhere -/

/-- Names that do not go up lead to the place that they spell. -/
theorem eq_of_follow (hup : ".." ∉ names) {place : List String}
    (h : tree.follow current names = some (place, .directory)) :
    place = current ++ names.filter (· != ".") := by
  induction names generalizing current with
  | nil =>
      rw [follow] at h
      cases h
      simp
  | cons name names ih =>
      rw [List.mem_cons, not_or] at hup
      by_cases hstay : name = "."
      · subst hstay
        rw [follow_stay] at h
        simpa using ih hup.2 h
      rw [follow, if_neg hstay, if_neg (Ne.symm hup.1)] at h
      split at h
      next => simpa [hstay] using ih hup.2 h
      next =>
        split at h
        next => cases h
        next => cases h
      next => cases h

/-- Names that do not go up lead to the directory that they spell, if it is there. -/
theorem IsRooted.follow (h : tree.IsRooted) (hup : ".." ∉ names)
    (hfind : tree.find? (current ++ names.filter (· != ".")) = some .directory) :
    tree.follow current names = some (current ++ names.filter (· != "."), .directory) := by
  induction names generalizing current with
  | nil => simp [FileTree.follow]
  | cons name names ih =>
      rw [List.mem_cons, not_or] at hup
      by_cases hstay : name = "."
      · subst hstay
        simpa using ih hup.2 (by simpa using hfind)
      · have hspelt : current ++ (name :: names).filter (· != ".") =
            (current ++ [name]) ++ names.filter (· != ".") := by simp [hstay]
        rw [hspelt] at hfind ⊢
        rw [follow_down hstay (Ne.symm hup.1) (h.directory hfind)]
        exact ih hup.2 hfind

/-- A path that goes up nowhere does not run into a directory of the file's name that was not found
there before. -/
theorem not_isBlocked {directory name : String} {content : Content} (hslash : '/' ∉ name.toList)
    (hpermitted : isPermitted name = true) (hrooted : tree.IsRooted)
    (hup : ".." ∉ Path.steps directory) (habsent : tree.look (Path.join directory name) = .absent)
    (h : WritesOnly directory name content tree later) : ¬ later.IsBlocked directory name := by
  rintro ⟨husable, place, hfollow, hblocked⟩
  have hplace := eq_of_follow hup hfollow
  have hbefore : tree.find? (place ++ [name]) = some .directory := by
    cases h.change (place ++ [name]) with
    | same hsame => rw [← hsame, hblocked]
    | made _ _ hway =>
        -- a directory that was made is no longer than the path, and this one would be
        obtain ⟨front, back, hsteps, hfront⟩ := hway
        rw [hsteps, List.mem_append, not_or] at hup
        have hlength := congrArg List.length (eq_of_follow hup.1 hfront)
        rw [hplace, hsteps] at hlength
        simp only [List.length_append, List.filter_append, List.length_singleton] at hlength
        omega
    | written _ _ _ _ hfile =>
        rw [hfile] at hblocked
        cases hblocked
  have hdirectory := hrooted.parent place name (by rw [hbefore]; simp)
  rw [hplace, h.start_eq] at hdirectory
  have hwas : tree.IsBlocked directory name := by
    refine ⟨husable, place, ?_, hbefore⟩
    rw [hplace, h.start_eq]
    exact hrooted.follow hup hdirectory
  rw [look_of_isBlocked hslash hpermitted hwas] at habsent
  cases habsent

end FileTree

end ModelQuery
