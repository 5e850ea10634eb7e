import ChainRelay.Config.Fault
import ChainRelay.Proofs.Files.Located

/-! # Home directories

A home directory is a place, whatever path it is given by. All paths that resolve to it have their
settings file at the same place.
-/

namespace ChainRelay

open FolderEntries FilePath

namespace FilePath

theorem splitAtSlashes_append (current p q : RawText) :
    splitAtSlashes current (p ++ slash :: q) = splitAtSlashes current p ++ splitAtSlashes [] q := by
  induction p generalizing current with
  | nil => simp [splitAtSlashes]
  | cons u rest ih =>
      rw [List.cons_append, splitAtSlashes, splitAtSlashes]
      split
      · rw [ih, List.cons_append]
      · exact ih _

theorem names_append (p q : FilePath) : names (p ++ slash :: q) = p.names ++ names q := by
  rw [names, splitAtSlashes_append, List.filter_append]
  rfl

theorem names_join {p q : FilePath} (relative : q.isAbsolute = false) :
    (p.join q).names = p.names ++ q.names := by
  rw [join, relative, if_neg Bool.false_ne_true]
  split
  · rename_i joined
    simp only [Bool.or_eq_true, List.isEmpty_iff, beq_iff_eq] at joined
    rcases joined with rfl | closed
    · rfl
    · obtain ⟨before, rfl⟩ := List.getLast?_eq_some_iff.mp closed
      rw [List.append_assoc, List.singleton_append, names_append, names_append]
      have none : names [] = [] := rfl
      rw [none, List.append_nil]
  · rw [List.append_assoc, List.singleton_append, names_append]

theorem isAbsolute_join {p q : FilePath} (relative : q.isAbsolute = false) :
    (p.join q).isAbsolute = p.isAbsolute := by
  rw [join, relative, if_neg Bool.false_ne_true]
  cases p with
  | nil => exact relative
  | cons u rest => split <;> rfl

theorem getLast?_join {p q : FilePath} (relative : q.isAbsolute = false) (some' : q ≠ []) :
    (p.join q).getLast? = q.getLast? := by
  rw [join, relative, if_neg Bool.false_ne_true]
  split
  · simp [List.getLast?_append, List.getLast?_eq_some_getLast some']
  · rw [List.append_assoc, List.getLast?_append]
    simp [List.getLast?_eq_some_getLast some', List.getLast?_cons]

end FilePath

/-- The folder of the settings file in a home directory. -/
def settingsFolder : RawText :=
  .ofString "config"

/-- The name of the settings file. -/
def settingsName : RawText :=
  .ofString "config.json"

theorem relative_settingsFolder : FilePath.isAbsolute settingsFolder = false := by decide

theorem relative_settingsName : FilePath.isAbsolute settingsName = false := by decide

theorem namesFile_settingsPath (home : FilePath) :
    (settingsPath home).NamesFile (home.names ++ [settingsFolder]) settingsName where
  split := by
    have folder : FilePath.names settingsFolder = [settingsFolder] := by decide
    have name : FilePath.names settingsName = [settingsName] := by decide
    change ((home.join settingsFolder).join settingsName).names = _
    rw [names_join relative_settingsName, names_join relative_settingsFolder, folder, name]
  proper := ⟨by decide, by decide⟩
  unclosed := by
    have named : settingsName ≠ [] := by decide
    change (((home.join settingsFolder).join settingsName).getLast? == some slash) = false
    rw [getLast?_join relative_settingsName named]
    decide

theorem isAbsolute_settingsPath (home : FilePath) :
    (settingsPath home).isAbsolute = home.isAbsolute := by
  change ((home.join settingsFolder).join settingsName).isAbsolute = _
  rw [isAbsolute_join relative_settingsName, isAbsolute_join relative_settingsFolder]

namespace FileTree

/-- The path leads to the home directory, and every step up on the way leaves a folder that is there. -/
structure Resolves (t : FileTree) (home : FilePath) (place : List RawText) : Prop where
  steps : t.Steps home.names (t.start home)
  leads : lead home.names (t.start home) = place

theorem steps_of_proper (t : FileTree) {names : List RawText} (proper : ∀ name ∈ names, Proper name)
    (folder : List RawText) : t.Steps names folder ∧ lead names folder = folder ++ names := by
  induction names generalizing folder with
  | nil => exact ⟨trivial, (List.append_nil folder).symm⟩
  | cons name rest ih =>
      obtain ⟨⟨here, up⟩, others⟩ := List.forall_mem_cons.mp proper
      rw [Steps, lead, if_neg here, if_neg up, if_neg here, if_neg up]
      simpa using ih others (folder ++ [name])

/-- An absolute path without dots leads to where its names lead, whatever is there. -/
theorem resolves_of_proper (t : FileTree) {home : FilePath} (absolute : home.isAbsolute = true)
    (proper : ∀ name ∈ home.names, Proper name) : t.Resolves home home.names := by
  have rooted : t.start home = [] := if_pos absolute
  obtain ⟨steps, leads⟩ := steps_of_proper t proper (t.start home)
  refine ⟨steps, leads.trans ?_⟩
  rw [rooted, List.nil_append]

/-- The content of the settings file in a home directory. -/
def settings? (t : FileTree) (place : List RawText) : Option (List UInt8) :=
  t.root.fileAt? (place ++ [settingsFolder]) settingsName

variable {t t' t'' : FileTree} {home : FilePath} {place : List RawText} {content : List UInt8}

theorem SameFiles.settings? (same : SameFiles t t') (place : List RawText) :
    t'.settings? place = t.settings? place :=
  same.files _ _

theorem proper_settingsFolder : Proper settingsFolder := ⟨by decide, by decide⟩

theorem lead_settings (resolves : t.Resolves home place) :
    lead (home.names ++ [settingsFolder]) (t.start (settingsPath home)) =
      place ++ [settingsFolder] := by
  rw [start, isAbsolute_settingsPath, lead_append]
  change lead [settingsFolder] (lead home.names (t.start home)) = _
  rw [resolves.leads]
  exact (if_neg proper_settingsFolder.1).trans (if_neg proper_settingsFolder.2)

theorem steps_append (names : List RawText) {name : RawText} (proper : Proper name)
    {folder : List RawText} (steps : t.Steps names folder) : t.Steps (names ++ [name]) folder := by
  induction names generalizing folder with
  | nil =>
      rw [List.nil_append, Steps, if_neg proper.1, if_neg proper.2]
      trivial
  | cons first rest ih =>
      rw [Steps] at steps
      rw [List.cons_append, Steps]
      by_cases here : first = dot
      · rw [if_pos here] at steps ⊢
        exact ih steps
      rw [if_neg here] at steps ⊢
      by_cases up : first = dots
      · rw [if_pos up] at steps ⊢
        exact ⟨steps.1, ih steps.2⟩
      · rw [if_neg up] at steps ⊢
        exact ih steps

theorem settings?_of_read (resolves : t.Resolves home place)
    (read : t.read (settingsPath home) = .ok content) : t.settings? place = some content := by
  have found := fileAt?_of_read (namesFile_settingsPath home) read
  rwa [lead_settings resolves] at found

theorem settings?_of_write (resolves : t.Resolves home place) (same : SameFiles t t')
    (written : t'.write (settingsPath home) content = .ok t'') :
    t''.settings? place = some content := by
  have found := fileAt?_write (namesFile_settingsPath home) proper_settingsFolder written
  have started : t'.start (settingsPath home) = t.start (settingsPath home) := by
    rw [start, start, same.here]
  rwa [started, lead_settings resolves] at found

/-- A settings file that is there is seen, unless no file can be written to the path. -/
theorem contains_settings {new : List UInt8} (resolves : t.Resolves home place)
    (there : t.settings? place = some content) (written : t'.write (settingsPath home) new = .ok t'') :
    t.contains (settingsPath home) = true := by
  have steps : t.Steps (home.names ++ [settingsFolder]) (t.start (settingsPath home)) := by
    rw [start, isAbsolute_settingsPath]
    exact steps_append home.names proper_settingsFolder resolves.steps
  rw [settings?, ← lead_settings resolves] at there
  exact contains_of_fileAt? (namesFile_settingsPath home) steps there written

end FileTree

end ChainRelay
