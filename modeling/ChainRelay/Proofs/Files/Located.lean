import ChainRelay.Proofs.Files.Places

/-! # Files by their paths

What reading, writing and the creation of folders mean for the places of files.
-/

namespace ChainRelay

open FolderEntries FilePath

/-- The path names a file: its last name is proper, and no slash follows it. -/
structure FilePath.NamesFile (p : FilePath) (names : List RawText) (last : RawText) : Prop where
  split : p.names = names ++ [last]
  proper : Proper last
  unclosed : (p.getLast? == some slash) = false

namespace FileTree

/-- The system takes the text as a path. -/
structure Admits (p : FilePath) : Prop where
  noZero : p.any (· == .char '\x00') = false
  some' : p.isEmpty = false
  short : ¬pathLimit ≤ p.toBytes.length

/-- The folder that a path starts from. -/
def start (t : FileTree) (p : FilePath) : List RawText :=
  if p.isAbsolute then [] else t.here

theorem locate_ok_iff {t : FileTree} {p : FilePath} {names : List RawText} {last : RawText}
    (file : p.NamesFile names last) {l : Location} :
    t.locate p = .ok l ↔ Admits p ∧ isTooLong last = false ∧
      ∃ folder, t.walk names (t.start p) = .ok folder ∧ l = ⟨folder, some last, false⟩ := by
  have ends : p.names.getLast? = some last := by simp [file.split]
  have before : p.names.dropLast = names := by simp [file.split]
  have plain : (decide (last = dot) || decide (last = dots)) = false := by simp [file.proper.1, file.proper.2]
  unfold locate
  simp only [ends, before, plain, file.unclosed, start]
  have admits : Admits p ↔
      p.any (· == .char '\x00') = false ∧ p.isEmpty = false ∧ ¬pathLimit ≤ p.toBytes.length :=
    ⟨fun a => ⟨a.noZero, a.some', a.short⟩, fun a => ⟨a.1, a.2.1, a.2.2⟩⟩
  rw [admits]
  cases p.any (· == .char '\x00') with
  | true => simp [throw, throwThe, MonadExceptOf.throw, bind, Except.bind]
  | false =>
      cases p.isEmpty with
      | true => simp [throw, throwThe, MonadExceptOf.throw, bind, Except.bind]
      | false =>
          by_cases long : pathLimit ≤ p.toBytes.length
          · simp [long, throw, throwThe, MonadExceptOf.throw, bind, Except.bind]
          · cases t.walk names (if p.isAbsolute then [] else t.here) with
            | error e => simp [long, bind, Except.bind]
            | ok folder =>
                cases isTooLong last with
                | true => simp [long, throw, throwThe, MonadExceptOf.throw, bind, Except.bind]
                | false => simp [long, bind, Except.bind, pure, Except.pure, eq_comm]

theorem entryAt_file {t : FileTree} {folder : List RawText} {name : RawText} {content : List UInt8} :
    t.entryAt ⟨folder, some name, false⟩ = .ok (.file content) ↔
      t.root.fileAt? folder name = some content := by
  unfold entryAt fileAt?
  cases t.root.inside? folder with
  | none => simp
  | some entries =>
      cases found : entries.get? name with
      | none => simp [found]
      | some entry => cases entry <;> simp [found]

theorem entryAt_free {t : FileTree} {folder : List RawText} {name : RawText} {asFolder : Bool}
    (free : t.entryAt ⟨folder, some name, asFolder⟩ = .error .notFound) :
    (t.root.inside? folder).bind (FolderEntries.get? name) = none := by
  unfold entryAt at free
  cases inside : t.root.inside? folder with
  | none => rfl
  | some entries =>
      simp only [inside] at free
      cases found : entries.get? name with
      | none => exact found
      | some entry =>
          cases entry with
          | folder inner => simp [found] at free
          | file content => cases asFolder <;> simp [found] at free

section Named

variable {t : FileTree} {p : FilePath} {names : List RawText} {last : RawText}

theorem lookup_ok_iff {entry : FileEntry} :
    t.lookup p = .ok entry ↔ ∃ l, t.locate p = .ok l ∧ t.entryAt l = .ok entry := by
  unfold lookup
  cases t.locate p <;> simp [bind, Except.bind]

theorem read_ok_iff {content : List UInt8} :
    t.read p = .ok content ↔ t.lookup p = .ok (.file content) := by
  unfold FileTree.read
  cases t.lookup p with
  | error e => simp
  | ok entry => cases entry <;> simp

/-- What is read from a path is the content of its place. -/
theorem fileAt?_of_read (file : p.NamesFile names last) {content : List UInt8}
    (read : t.read p = .ok content) :
    t.root.fileAt? (lead names (t.start p)) last = some content := by
  obtain ⟨l, located, entry⟩ := lookup_ok_iff.mp (read_ok_iff.mp read)
  obtain ⟨-, -, folder, walked, rfl⟩ := (locate_ok_iff file).mp located
  obtain ⟨rfl, -⟩ := walk_ok walked
  exact entryAt_file.mp entry

/-- A file is written where its path leads. -/
theorem write_ok {t' : FileTree} (file : p.NamesFile names last) {content : List UInt8}
    (written : t.write p content = .ok t') :
    Admits p ∧ isTooLong last = false ∧ t.walk names (t.start p) = .ok (lead names (t.start p)) ∧
      t' = t.putAt (lead names (t.start p)) last (.file content) := by
  unfold FileTree.write at written
  cases located : t.locate p with
  | error e =>
      rw [located] at written
      cases written
  | ok l =>
      obtain ⟨admits, fits, folder, walked, rfl⟩ := (locate_ok_iff file).mp located
      obtain ⟨rfl, -⟩ := walk_ok walked
      refine ⟨admits, fits, walked, ?_⟩
      rw [located] at written
      simp only [bind, Except.bind] at written
      cases found : t.entryAt ⟨lead names (t.start p), some last, false⟩ with
      | error e =>
          rw [found] at written
          cases e <;> cases written
          rfl
      | ok entry =>
          rw [found] at written
          cases entry <;> cases written
          rfl

/-- A written file is there with its content. -/
theorem fileAt?_write {t' : FileTree} {outer : List RawText} {folder : RawText}
    (file : p.NamesFile (outer ++ [folder]) last) (proper : Proper folder) {content : List UInt8}
    (written : t.write p content = .ok t') :
    t'.root.fileAt? (lead (outer ++ [folder]) (t.start p)) last = some content := by
  obtain ⟨-, -, walked, rfl⟩ := write_ok file written
  obtain ⟨entries, found⟩ := Option.isSome_iff_exists.mp (inside?_walk proper walked)
  exact fileAt?_change_put found last content

/-- A file that is there is seen through every path that leads to it and that the system takes. -/
theorem contains_of_fileAt? {t' t'' : FileTree} (file : p.NamesFile names last)
    (steps : t.Steps names (t.start p)) {content new : List UInt8}
    (there : t.root.fileAt? (lead names (t.start p)) last = some content)
    (written : t'.write p new = .ok t'') : t.contains p = true := by
  obtain ⟨admits, fits, walked, -⟩ := write_ok file written
  have inside : (t.root.inside? (lead names (t.start p))).isSome := by
    cases found : t.root.inside? (lead names (t.start p)) with
    | none => simp [fileAt?, found] at there
    | some entries => rfl
  have walked := (walk_steps steps (walk_ok walked).2 inside).2
  have located := (locate_ok_iff file).mpr ⟨admits, fits, _, walked, rfl⟩
  have found := lookup_ok_iff.mpr ⟨_, located, entryAt_file.mpr there⟩
  rw [FileTree.contains, found]
  rfl

end Named

/-! ## Creating folders -/

/-- The trees agree about every file and about the current folder. -/
structure SameFiles (t t' : FileTree) : Prop where
  files : ∀ folder name, t'.root.fileAt? folder name = t.root.fileAt? folder name
  here : t'.here = t.here

theorem SameFiles.refl (t : FileTree) : SameFiles t t :=
  ⟨fun _ _ => rfl, rfl⟩

theorem SameFiles.trans {t t' t'' : FileTree} (first : SameFiles t t') (second : SameFiles t' t'') :
    SameFiles t t'' :=
  ⟨fun folder name => (second.files folder name).trans (first.files folder name), second.here.trans first.here⟩

theorem sameFiles_createFolder {t t' : FileTree} {p : FilePath} (created : t.createFolder p = .ok t') :
    SameFiles t t' := by
  unfold createFolder at created
  cases located : t.locate p with
  | error e =>
      rw [located] at created
      cases created
  | ok l =>
      obtain ⟨folder, name, asFolder⟩ := l
      rw [located] at created
      simp only [bind, Except.bind] at created
      cases name with
      | none => cases created
      | some name =>
          cases found : t.entryAt ⟨folder, some name, asFolder⟩ with
          | ok entry =>
              rw [found] at created
              cases created
          | error e =>
              rw [found] at created
              cases e <;> cases created
              exact ⟨fileAt?_change_folder (entryAt_free found), rfl⟩

theorem sameFiles_ensureFolder {t t' : FileTree} {p : FilePath} (ensured : t.ensureFolder p = .ok t') :
    SameFiles t t' := by
  unfold ensureFolder at ensured
  split at ensured
  · rename_i t'' created
    cases ensured
    exact sameFiles_createFolder created
  · split at ensured
    · cases ensured
      exact .refl t
    · cases ensured

theorem sameFiles_createFoldersTo (absolute : Bool) (t : FileTree) (names : List RawText) :
    SameFiles t (createFoldersTo absolute t names).1 := by
  induction names generalizing t with
  | nil => exact .refl t
  | cons name outer ih =>
      rw [createFoldersTo]
      split
      · rename_i t' ensured
        exact sameFiles_ensureFolder ensured
      · have around := ih t
        split
        · rename_i t' e created
          rw [created] at around
          exact around
        · rename_i t' created
          rw [created] at around
          split
          · rename_i t'' ensured
            exact around.trans (sameFiles_ensureFolder ensured)
          · exact around
      · exact .refl t

/-- Creating folders changes no file. -/
theorem sameFiles_createFoldersAround (t : FileTree) (p : FilePath) :
    SameFiles t (t.createFoldersAround p).1 :=
  sameFiles_createFoldersTo _ t _

end FileTree

end ChainRelay
