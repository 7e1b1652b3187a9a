import ModelQuery.Files.Tree

/-!
# What is saved is read back

The path of a file in a directory leads there and then to the file (`Path.steps_join`). Putting a
file where no directory is changes no way to a directory (`follow_set`), so a file that was saved in
a directory is found at its path. The main result is `look_of_save`.
-/

namespace ModelQuery

namespace Path

/-- The parts of two texts with a slash between them are the parts of the one and of the other. -/
theorem split_append_slash (left right : List Char) :
    split (left ++ '/' :: right) = split left ++ split right := by
  have hne : ∀ text : List Char, split text ≠ [] := by
    intro text
    induction text with
    | nil => simp [split]
    | cons c text ih =>
        cases hsplit : split text with
        | nil => exact absurd hsplit ih
        | cons first others =>
            rw [split, hsplit]
            by_cases hc : c = '/'
            · simp [hc]
            · simp [hc]
  induction left with
  | nil =>
      cases hsplit : split right with
      | nil => exact absurd hsplit (hne right)
      | cons first others => simp [split, hsplit]
  | cons c left ih =>
      rw [List.cons_append, split, split, ih]
      cases hsplit : split left with
      | nil => exact absurd hsplit (hne left)
      | cons first others =>
          by_cases hc : c = '/'
          · simp [hc]
          · simp [hc]

/-- A text without slashes is one part. -/
theorem split_eq_self {text : List Char} (h : '/' ∉ text) : split text = [text] := by
  induction text with
  | nil => rfl
  | cons c text ih =>
      rw [List.mem_cons, not_or] at h
      have hc : c ≠ '/' := Ne.symm h.1
      simp [split, ih h.2, hc]

variable {name : String}

/-- The path of an entry is its name, in the directory without a name, and otherwise the path of the
directory, a slash and the name. -/
theorem join_cases (directory name : String) :
    directory.toList = [] ∧ join directory name = name ∨
      ∃ front, (join directory name).toList = front ++ '/' :: name.toList ∧
        (directory.toList = front ++ ['/'] ∨ directory.toList = front ∧ front ≠ []) := by
  unfold join
  split
  next hlast =>
    left
    exact ⟨List.getLast?_eq_none_iff.mp hlast, rfl⟩
  next hlast =>
    right
    obtain ⟨front, hfront⟩ := List.getLast?_eq_some_iff.mp hlast
    exact ⟨front, by simp [hfront], Or.inl hfront⟩
  next hlast =>
    right
    refine ⟨directory.toList, by simp, Or.inr ⟨rfl, ?_⟩⟩
    intro hempty
    rw [hempty] at hlast
    cases hlast

/-- The path of an entry leads to its directory, and then to the entry. -/
theorem steps_join (directory : String) (hslash : '/' ∉ name.toList) (hne : name.toList ≠ []) :
    steps (join directory name) = steps directory ++ [name] := by
  rcases join_cases directory name with
    ⟨hdirectory, hjoin⟩ | ⟨front, hjoin, hdirectory | hdirectory⟩
  · simp [steps, hjoin, hdirectory, split_eq_self hslash, split, hne]
  · simp [steps, hjoin, hdirectory, split_append_slash, split_eq_self hslash, split, hne]
  · simp [steps, hjoin, hdirectory, split_append_slash, split_eq_self hslash, hne]

/-- The path of an entry starts where that of its directory does. -/
theorem isAbsolute_join (directory : String) (hslash : '/' ∉ name.toList) :
    isAbsolute (join directory name) = isAbsolute directory := by
  rcases join_cases directory name with
    ⟨hdirectory, hjoin⟩ | ⟨front, hjoin, hdirectory | ⟨hdirectory, hfront⟩⟩
  · have hhead : name.toList.head? ≠ some '/' := fun h ↦ hslash (List.mem_of_head? h)
    simp [isAbsolute, hjoin, hdirectory, hhead]
  · cases front with
    | nil => simp [isAbsolute, hjoin, hdirectory]
    | cons c front => simp [isAbsolute, hjoin, hdirectory]
  · obtain ⟨c, more, rfl⟩ := List.exists_cons_of_ne_nil hfront
    simp [isAbsolute, hjoin, hdirectory]

/-- The path of an entry does not end with a slash. -/
theorem isForDirectory_join (directory : String) (hslash : '/' ∉ name.toList)
    (hne : name.toList ≠ []) : isForDirectory (join directory name) = false := by
  have hlast : name.toList.getLast? ≠ some '/' := fun h ↦ hslash (List.mem_of_getLast? h)
  rcases join_cases directory name with ⟨-, hjoin⟩ | ⟨front, hjoin, -⟩
  · simp [isForDirectory, hjoin, hlast]
  · obtain ⟨c, more, hname⟩ := List.exists_cons_of_ne_nil hne
    rw [hname] at hlast
    simp [isForDirectory, hjoin, hname, List.getLast?_append, hlast]

end Path

namespace FileTree

variable {tree : FileTree}

/-- What is put in a place is found there. -/
theorem find?_set_self (tree : FileTree) {place : List String} (h : place ≠ [])
    (node : FileNode) : (tree.set place node).find? place = some node := by
  simp [find?, set, h]

/-- What is put in a place changes no other place. -/
theorem find?_set_of_ne (tree : FileTree) {place target : List String} (h : place ≠ target)
    (node : FileNode) : (tree.set target node).find? place = tree.find? place := by
  have htarget : (target == place) = false := by
    simpa using Ne.symm h
  have hkept : (fun entry : List String × FileNode ↦
      decide ((entry.1 != target) = true ∧ (entry.1 == place) = true)) =
        fun entry ↦ entry.1 == place := by
    funext entry
    by_cases hentry : entry.1 = place
    · simp [hentry, h]
    · simp [hentry]
  simp only [find?, set, List.find?_cons, htarget, List.find?_filter, hkept]

/-- Behind a way to a directory, names lead on from that directory. -/
theorem follow_append {current place : List String} {names : List String} (further : List String)
    (h : tree.follow current names = some (place, .directory)) :
    tree.follow current (names ++ further) = tree.follow place further := by
  induction names generalizing current with
  | nil =>
      rw [follow] at h
      cases h
      rfl
  | cons name names ih =>
      rw [follow] at h
      rw [List.cons_append, follow]
      by_cases hstay : name = "."
      · rw [if_pos hstay] at h ⊢
        exact ih h
      by_cases hup : name = ".."
      · rw [if_neg hstay, if_pos hup] at h ⊢
        exact ih h
      rw [if_neg hstay, if_neg hup] at h ⊢
      split at h
      next => exact ih h
      next =>
        split at h
        next => cases h
        next => cases h
      next => cases h

/-- A file that is put where no directory is changes no way to a directory. -/
theorem follow_set {current place target : List String} {names : List String} {content : Content}
    (htarget : tree.find? target ≠ some .directory)
    (h : tree.follow current names = some (place, .directory)) :
    (tree.set target (.file content)).follow current names = some (place, .directory) := by
  induction names generalizing current with
  | nil => exact h
  | cons name names ih =>
      rw [follow] at h ⊢
      by_cases hstay : name = "."
      · rw [if_pos hstay] at h ⊢
        exact ih h
      by_cases hup : name = ".."
      · rw [if_neg hstay, if_pos hup] at h ⊢
        exact ih h
      rw [if_neg hstay, if_neg hup] at h ⊢
      split at h
      next hfind =>
        have hne : current ++ [name] ≠ target := by
          rintro rfl
          exact htarget hfind
        rw [find?_set_of_ne tree hne, hfind]
        exact ih h
      next =>
        split at h
        next => cases h
        next => cases h
      next => cases h

/-- A file that is written into a directory lies behind the way to that directory, under a permitted
name and where no directory was. -/
theorem of_write {written : FileTree} {directory name : String} {content : Content}
    (h : tree.write directory name content = some written) :
    ∃ place, tree.follow (tree.start directory) (Path.steps directory) = some (place, .directory) ∧
      tree.find? (place ++ [name]) ≠ some .directory ∧
      Path.isUsable (Path.join directory name) = true ∧ isPermitted name = true ∧
      written = tree.set (place ++ [name]) (.file content) := by
  unfold write at h
  split at h
  next place hfollow =>
    split at h
    next => cases h
    next hfind =>
      split at h
      next hname =>
        rw [Bool.and_eq_true] at hname
        cases h
        exact ⟨place, hfollow, hfind, hname.1, hname.2, rfl⟩
      next => cases h
  next => cases h

/-- A permitted name is neither empty nor one that stays or goes up. -/
theorem of_isPermitted {name : String} (h : isPermitted name = true) :
    name.toList ≠ [] ∧ name ≠ "." ∧ name ≠ ".." := by
  have hnone : name ≠ "" ∧ name ≠ "." ∧ name ≠ ".." := by
    simpa [isPermitted] using (Bool.and_eq_true_iff.mp h).2
  exact ⟨fun hempty ↦ hnone.1 (String.toList_eq_nil_iff.mp hempty), hnone.2⟩

/-- What was written into a directory is found at its path. -/
theorem look_of_write {written : FileTree} {directory name : String} {content : Content}
    (hslash : '/' ∉ name.toList) (h : tree.write directory name content = some written) :
    written.look (Path.join directory name) = content.state := by
  obtain ⟨place, hfollow, hfind, husable, hpermitted, rfl⟩ := of_write h
  obtain ⟨hne, hstay, hup⟩ := of_isPermitted hpermitted
  have hstart : (tree.set (place ++ [name]) (.file content)).start (Path.join directory name) =
      tree.start directory := by
    rw [start, Path.isAbsolute_join directory hslash]
    rfl
  have hset : (tree.set (place ++ [name]) (.file content)).find? (place ++ [name]) =
      some (.file content) := find?_set_self tree (by simp) _
  have hway : (tree.set (place ++ [name]) (.file content)).follow (tree.start directory)
      (Path.steps directory ++ [name]) = some (place ++ [name], .file content) := by
    rw [follow_append [name] (follow_set hfind hfollow), follow, if_neg hstay, if_neg hup, hset]
    rfl
  rw [look, if_pos husable, hstart, Path.steps_join directory hslash hne, hway,
    Path.isForDirectory_join directory hslash hne]
  rfl

/-- What was saved is found at its path. -/
theorem look_of_save {saved : FileTree} {directory name : String} {content : Content}
    (hslash : '/' ∉ name.toList) (h : tree.save directory name content = (true, saved)) :
    saved.look (Path.join directory name) = content.state := by
  unfold save at h
  split at h
  next => cases h
  next made _ =>
    split at h
    next written hwrite =>
      cases h
      exact look_of_write hslash hwrite
    next => cases h

end FileTree

end ModelQuery
