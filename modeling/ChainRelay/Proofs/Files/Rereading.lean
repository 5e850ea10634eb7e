import ChainRelay.Proofs.Files.Home

/-! # Files that are read again

A file that has been written is read with its new content, and a file that can be read can be written:
the folders around it are there. Folders that are created or written into stay where they were, so every
path leads to where it led before.
-/

namespace ChainRelay

open FolderEntries FilePath

/-! ## Folders stay -/

/-- A folder stays where it was when an entry is put where no folder was. -/
theorem FolderEntries.isSome_inside?_change {place : List RawText} {name : RawText} {entry : FileEntry}
    {entries : FolderEntries}
    (noFolder : ∀ inner, (inside? place entries).bind (get? name) ≠ some (.folder inner))
    {folder : List RawText} (there : (inside? folder entries).isSome) :
    (inside? folder (change (put name entry) place entries)).isSome := by
  induction place generalizing folder entries with
  | nil =>
      rw [change]
      cases folder with
      | nil => rfl
      | cons outer rest =>
          have other : ¬outer = name := by
            rintro rfl
            unfold inside? at there
            split at there
            · rename_i inner found
              exact noFolder inner found
            · cases there
          simp only [inside?, get?_put, other, if_false] at there ⊢
          exact there
  | cons step place ih =>
      rw [change]
      split
      · rename_i inner entered
        have noFolder' : ∀ deep, (inside? place inner).bind (get? name) ≠ some (.folder deep) := by
          simpa only [inside?, entered] using noFolder
        cases folder with
        | nil => rfl
        | cons outer rest =>
            by_cases same : outer = step
            · subst same
              simp only [inside?, entered, get?_put, if_true] at there ⊢
              exact ih noFolder' there
            · simp only [inside?, get?_put, same, if_false] at there ⊢
              exact there
      · exact there

namespace FileTree

/-- Every folder is still there. -/
def KeepsFolders (t t' : FileTree) : Prop :=
  ∀ folder, (t.root.inside? folder).isSome → (t'.root.inside? folder).isSome

theorem KeepsFolders.refl (t : FileTree) : KeepsFolders t t :=
  fun _ there => there

theorem KeepsFolders.trans {t t' t'' : FileTree} (first : KeepsFolders t t')
    (second : KeepsFolders t' t'') : KeepsFolders t t'' :=
  fun folder there => second folder (first folder there)

theorem keepsFolders_putAt {t : FileTree} {folder : List RawText} {name : RawText}
    (noFolder : ∀ inner, (t.root.inside? folder).bind (FolderEntries.get? name) ≠ some (.folder inner))
    (entry : FileEntry) : KeepsFolders t (t.putAt folder name entry) :=
  fun _ there => isSome_inside?_change noFolder there

theorem keepsFolders_createFolder {t t' : FileTree} {p : FilePath} (created : t.createFolder p = .ok t') :
    KeepsFolders t t' := by
  unfold createFolder at created
  cases located : t.locate p with
  | error e =>
      rw [located] at created
      cases created
  | ok l =>
      obtain ⟨folder, name, asFolder⟩ := l
      rw [located] at created
      simp only [bind, Except.bind] at created
      cases name with
      | none => cases created
      | some name =>
          cases found : t.entryAt ⟨folder, some name, asFolder⟩ with
          | ok entry =>
              rw [found] at created
              cases created
          | error e =>
              rw [found] at created
              cases e <;> cases created
              exact keepsFolders_putAt (by simp [entryAt_free found]) _

theorem keepsFolders_ensureFolder {t t' : FileTree} {p : FilePath} (ensured : t.ensureFolder p = .ok t') :
    KeepsFolders t t' := by
  unfold ensureFolder at ensured
  split at ensured
  · rename_i t'' created
    cases ensured
    exact keepsFolders_createFolder created
  · split at ensured
    · cases ensured
      exact .refl t
    · cases ensured

theorem keepsFolders_createFoldersTo (absolute : Bool) (t : FileTree) (names : List RawText) :
    KeepsFolders t (createFoldersTo absolute t names).1 := by
  induction names generalizing t with
  | nil => exact .refl t
  | cons name outer ih =>
      rw [createFoldersTo]
      split
      · rename_i t' ensured
        exact keepsFolders_ensureFolder ensured
      · have around := ih t
        split
        · rename_i t' e created
          rw [created] at around
          exact around
        · rename_i t' created
          rw [created] at around
          split
          · rename_i t'' ensured
            exact around.trans (keepsFolders_ensureFolder ensured)
          · exact around
      · exact .refl t

theorem keepsFolders_createFoldersAround (t : FileTree) (p : FilePath) :
    KeepsFolders t (t.createFoldersAround p).1 :=
  keepsFolders_createFoldersTo _ t _

/-- Names lead to the same folder as long as no folder has gone. -/
theorem KeepsFolders.walk {t t' : FileTree} (keeps : KeepsFolders t t') {names folder found : List RawText}
    (walked : t.walk names folder = .ok found) : t'.walk names folder = .ok found := by
  induction names generalizing folder with
  | nil => exact walked
  | cons name rest ih =>
      rw [walk_cons_ok] at walked ⊢
      rcases walked with ⟨here, more⟩ | ⟨up, more⟩ | ⟨proper, fits, entered, more⟩
      · exact .inl ⟨here, ih more⟩
      · exact .inr (.inl ⟨up, ih more⟩)
      · exact .inr (.inr ⟨proper, fits, keeps _ entered, ih more⟩)

/-- A walk that starts in a folder that is there ends in one. -/
theorem inside?_of_walk {t : FileTree} {names folder found : List RawText}
    (there : (t.root.inside? folder).isSome) (walked : t.walk names folder = .ok found) :
    (t.root.inside? found).isSome := by
  induction names generalizing folder with
  | nil =>
      cases walked
      exact there
  | cons name rest ih =>
      rcases walk_cons_ok.mp walked with ⟨-, more⟩ | ⟨-, more⟩ | ⟨-, -, entered, more⟩
      · exact ih there more
      · refine ih ?_ more
        by_cases none : folder = []
        · subst none
          exact there
        · rw [← List.dropLast_concat_getLast none] at there
          exact isSome_inside?_of_append there
      · exact ih entered more

/-! ## Reading after writing -/

variable {t t' : FileTree} {p : FilePath} {content new : List UInt8}

/-- A path that leads to a name names a file, unless it ends in a slash. -/
theorem namesFile_of_locate {folder : List RawText} {last : RawText}
    (located : t.locate p = .ok ⟨folder, some last, false⟩) : ∃ names, p.NamesFile names last := by
  unfold locate at located
  cases zero : p.any (· == .char '\x00') with
  | true => simp [zero, throw, throwThe, MonadExceptOf.throw, bind, Except.bind] at located
  | false =>
      cases empty : p.isEmpty with
      | true => simp [zero, empty, throw, throwThe, MonadExceptOf.throw, bind, Except.bind] at located
      | false =>
          by_cases long : pathLimit ≤ p.toBytes.length
          · simp [zero, empty, long, throw, throwThe, MonadExceptOf.throw, bind, Except.bind] at located
          cases ends : p.names.getLast? with
          | none => simp [zero, empty, long, ends, pure, Except.pure] at located
          | some name =>
              obtain ⟨names, split⟩ := List.getLast?_eq_some_iff.mp ends
              simp only [zero, empty, long, ends, Bool.false_eq_true, if_false, bind, Except.bind] at located
              by_cases turn : (decide (name = dot) || decide (name = dots)) = true
              · cases walked : t.walk p.names (if p.isAbsolute then [] else t.here) <;>
                  simp [turn, walked, pure, Except.pure] at located
              · cases walked : t.walk p.names.dropLast (if p.isAbsolute then [] else t.here) with
                | error e => simp [turn, walked] at located
                | ok folder =>
                    cases tooLong : isTooLong name <;>
                      simp [turn, walked, tooLong, pure, Except.pure, throw, throwThe, MonadExceptOf.throw] at located
                    obtain ⟨-, rfl, unclosed⟩ := located
                    simp only [Bool.or_eq_true, decide_eq_true_eq, not_or] at turn
                    exact ⟨names, split, turn, by simpa using unclosed⟩

/-- No file is found behind a slash. -/
theorem entryAt_closed {folder : List RawText} {last : RawText} :
    t.entryAt ⟨folder, some last, true⟩ ≠ .ok (.file content) := by
  unfold entryAt
  cases t.root.inside? folder with
  | none => simp
  | some entries =>
      dsimp only
      cases entries.get? last with
      | none => simp
      | some entry => cases entry <;> simp

/-- A path that leads to a file names it. -/
theorem namesFile_of_lookup (found : t.lookup p = .ok (.file content)) :
    ∃ names last, p.NamesFile names last := by
  obtain ⟨⟨folder, name, asFolder⟩, located, entry⟩ := lookup_ok_iff.mp found
  cases name with
  | none =>
      unfold entryAt at entry
      cases inside : t.root.inside? folder <;> simp [inside] at entry
  | some last =>
      cases asFolder with
      | true => exact absurd entry entryAt_closed
      | false =>
          obtain ⟨names, file⟩ := namesFile_of_locate located
          exact ⟨names, last, file⟩

theorem namesFile_of_write (written : t.write p new = .ok t') : ∃ names last, p.NamesFile names last := by
  unfold FileTree.write at written
  cases located : t.locate p with
  | error e =>
      rw [located] at written
      cases written
  | ok l =>
      obtain ⟨folder, name, asFolder⟩ := l
      rw [located] at written
      simp only [bind, Except.bind] at written
      cases name with
      | none => cases written
      | some last =>
          cases asFolder with
          | false =>
              obtain ⟨names, file⟩ := namesFile_of_locate located
              exact ⟨names, last, file⟩
          | true =>
              cases found : t.entryAt ⟨folder, some last, true⟩ with
              | error e =>
                  rw [found] at written
                  cases e <;> cases written
              | ok entry =>
                  cases entry with
                  | file content => exact absurd found entryAt_closed
                  | folder inner =>
                      rw [found] at written
                      cases written

/-- What is written is no folder before. -/
theorem noFolder_of_write {names : List RawText} {last : RawText} (file : p.NamesFile names last)
    (written : t.write p new = .ok t') (inner : FolderEntries) :
    (t.root.inside? (lead names (t.start p))).bind (FolderEntries.get? last) ≠ some (.folder inner) := by
  obtain ⟨admits, fits, walked, -⟩ := write_ok file written
  have located := (locate_ok_iff file).mpr ⟨admits, fits, _, walked, rfl⟩
  intro found
  have entry : t.entryAt ⟨lead names (t.start p), some last, false⟩ = .ok (.folder inner) := by
    unfold entryAt
    cases inside : t.root.inside? (lead names (t.start p)) with
    | none => simp [inside] at found
    | some entries =>
        rw [inside, Option.bind_some] at found
        simp only [found]
  unfold FileTree.write at written
  simp only [located, entry, bind, Except.bind] at written
  cases written

theorem read_of_inside {names : List RawText} {last : RawText} (file : p.NamesFile names last)
    (inside : (t.root.inside? (lead names (t.start p))).isSome) (written : t.write p new = .ok t') :
    t'.read p = .ok new := by
  have noFolder := noFolder_of_write file written
  obtain ⟨admits, fits, walked, rfl⟩ := write_ok file written
  obtain ⟨entries, there⟩ := Option.isSome_iff_exists.mp inside
  have walked' := (keepsFolders_putAt noFolder (.file new)).walk walked
  have located := (locate_ok_iff (t := t.putAt (lead names (t.start p)) last (.file new)) file).mpr
    ⟨admits, fits, _, walked', rfl⟩
  exact read_ok_iff.mpr (lookup_ok_iff.mpr ⟨_, located, entryAt_file.mpr (fileAt?_change_put there last new)⟩)

/-- What is written to a path is read from it again, if the folder that the path starts from is there. -/
theorem read_of_write (there : (t.root.inside? (t.start p)).isSome) (written : t.write p new = .ok t') :
    t'.read p = .ok new := by
  obtain ⟨names, last, file⟩ := namesFile_of_write written
  obtain ⟨-, -, walked, -⟩ := write_ok file written
  exact read_of_inside file (inside?_of_walk there walked) written

/-- What a file that can be read is made of. -/
theorem located_of_read (read : t.read p = .ok content) :
    ∃ names last, p.NamesFile names last ∧ Admits p ∧ t.walk names (t.start p) = .ok (lead names (t.start p)) ∧
      (t.root.inside? (lead names (t.start p))).isSome := by
  have found := read_ok_iff.mp read
  obtain ⟨names, last, file⟩ := namesFile_of_lookup found
  obtain ⟨l, located, entry⟩ := lookup_ok_iff.mp found
  obtain ⟨admits, -, folder, walked, rfl⟩ := (locate_ok_iff file).mp located
  obtain ⟨rfl, -⟩ := walk_ok walked
  refine ⟨names, last, file, admits, walked, ?_⟩
  unfold entryAt at entry
  cases inside : t.root.inside? (lead names (t.start p)) with
  | none => simp [inside] at entry
  | some entries => rfl

/-- A file that can be read is read with what is written to it. -/
theorem reread (read : t.read p = .ok content) (written : t.write p new = .ok t') : t'.read p = .ok new := by
  obtain ⟨names, last, file, -, -, inside⟩ := located_of_read read
  exact read_of_inside file inside written

/-- A file that can be read can be written. -/
theorem write_of_read (read : t.read p = .ok content) (new : List UInt8) : ∃ t', t.write p new = .ok t' := by
  have found := read_ok_iff.mp read
  obtain ⟨names, last, file⟩ := namesFile_of_lookup found
  obtain ⟨l, located, entry⟩ := lookup_ok_iff.mp found
  obtain ⟨-, -, folder, -, rfl⟩ := (locate_ok_iff file).mp located
  unfold FileTree.write
  simp only [located, entry, bind, Except.bind]
  exact ⟨_, rfl⟩

end FileTree

end ChainRelay
