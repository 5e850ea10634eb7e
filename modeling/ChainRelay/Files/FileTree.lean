import ChainRelay.Files.FilePath

/-! # A tree of files

Folders hold files and folders under names. Paths are followed name by name from the current
folder or from the root; every name but the last must lead to a folder. -/

namespace ChainRelay

/-- Why an operation on files fails. -/
inductive FileFault where
  | notFound
  | exists
  | notFolder
  | isFolder
  | nameTooLong
  /-- A name holds a zero byte. -/
  | zeroInName
  /-- A failure that the system describes. -/
  | other (message : String)
  deriving DecidableEq, Repr

/-- The wording of a failure. -/
def FileFault.message : FileFault → String
  | .notFound => "No such file or directory (os error 2)"
  | .exists => "File exists (os error 17)"
  | .notFolder => "Not a directory (os error 20)"
  | .isFolder => "Is a directory (os error 21)"
  | .nameTooLong => "File name too long (os error 36)"
  | .zeroInName => "file name contained an unexpected NUL byte"
  | .other message => message

/-- A file or a folder. -/
inductive FileEntry where
  | file (content : List UInt8)
  | folder (entries : List (RawText × FileEntry))

/-- What a folder holds. -/
abbrev FolderEntries := List (RawText × FileEntry)

namespace FolderEntries

/-- The entry of a name. -/
def get? (name : RawText) (entries : FolderEntries) : Option FileEntry :=
  (entries.find? (·.1 == name)).map (·.2)

/-- Put an entry in the place of an earlier one, or last. -/
def put (name : RawText) (entry : FileEntry) (entries : FolderEntries) : FolderEntries :=
  if entries.any (·.1 == name) then entries.map fun old => if old.1 == name then (name, entry) else old
  else entries ++ [(name, entry)]

/-- Change the entries of the folder that some names lead to. -/
def change (f : FolderEntries → FolderEntries) : List RawText → FolderEntries → FolderEntries
  | [], entries => f entries
  | name :: rest, entries =>
    match entries.get? name with
    | some (.folder inner) => entries.put name (.folder (change f rest inner))
    | _ => entries

/-- The entries of the folder that some names lead to. -/
def inside? : List RawText → FolderEntries → Option FolderEntries
  | [], entries => some entries
  | name :: rest, entries =>
    match entries.get? name with
    | some (.folder inner) => inside? rest inner
    | _ => none

end FolderEntries

/-- All files, and the folder that relative paths start from. -/
structure FileTree where
  root : FolderEntries
  here : List RawText

/-- Where a path leads: a folder, or a name in a folder. -/
structure Location where
  folder : List RawText
  name : Option RawText
  /-- The path ends in a slash. -/
  asFolder : Bool

namespace FileTree

/-- The greatest number of bytes in a name. -/
def longestName : Nat := 255

/-- The number of bytes that is too much for a path. -/
def pathLimit : Nat := 4096

/-- The name has too many bytes. -/
def isTooLong (name : RawText) : Bool :=
  longestName < name.toBytes.length

/-- The folder that names lead to. -/
def walk (t : FileTree) : List RawText → (folder : List RawText) → Except FileFault (List RawText)
  | [], folder => .ok folder
  | name :: rest, folder =>
    if name = FilePath.dot then walk t rest folder
    else if name = FilePath.dots then walk t rest folder.dropLast
    else if isTooLong name then .error .nameTooLong
    else
      match (t.root.inside? folder).bind (FolderEntries.get? name) with
      | none => .error .notFound
      | some (.file _) => .error .notFolder
      | some (.folder _) => walk t rest (folder ++ [name])

/-- Where a path leads. -/
def locate (t : FileTree) (p : FilePath) : Except FileFault Location := do
  if p.any (· == .char '\x00') then throw .zeroInName
  if p.isEmpty then throw .notFound
  if pathLimit ≤ p.toBytes.length then throw .nameTooLong
  let start := if p.isAbsolute then [] else t.here
  match p.names.getLast? with
  | none => return { folder := start, name := none, asFolder := true }
  | some last =>
    if last = FilePath.dot || last = FilePath.dots then
      let folder ← t.walk p.names start
      return { folder, name := none, asFolder := true }
    else
      let folder ← t.walk p.names.dropLast start
      if isTooLong last then throw .nameTooLong
      return { folder, name := some last, asFolder := p.getLast? == some FilePath.slash }

/-- The entry at a location. -/
def entryAt (t : FileTree) (l : Location) : Except FileFault FileEntry :=
  match l.name, t.root.inside? l.folder with
  | _, none => .error .notFound
  | none, some entries => .ok (.folder entries)
  | some name, some entries =>
    match entries.get? name with
    | none => .error .notFound
    | some (.file content) => if l.asFolder then .error .notFolder else .ok (.file content)
    | some (.folder inner) => .ok (.folder inner)

/-- The entry of a path. -/
def lookup (t : FileTree) (p : FilePath) : Except FileFault FileEntry := do
  t.entryAt (← t.locate p)

/-- The path leads to an entry. -/
def contains (t : FileTree) (p : FilePath) : Bool :=
  (t.lookup p).toBool

/-- The path leads to a folder. -/
def isFolder (t : FileTree) (p : FilePath) : Bool :=
  match t.lookup p with
  | .ok (.folder _) => true
  | _ => false

/-- The content of a file. -/
def read (t : FileTree) (p : FilePath) : Except FileFault (List UInt8) :=
  match t.lookup p with
  | .ok (.file content) => .ok content
  | .ok (.folder _) => .error .isFolder
  | .error e => .error e

/-- The names in a folder. -/
def list (t : FileTree) (p : FilePath) : Except FileFault (List RawText) :=
  match t.lookup p with
  | .ok (.folder entries) => .ok (entries.map (·.1))
  | .ok (.file _) => .error .notFolder
  | .error e => .error e

/-- Put an entry into a folder. -/
def putAt (t : FileTree) (folder : List RawText) (name : RawText) (entry : FileEntry) : FileTree :=
  { t with root := FolderEntries.change (·.put name entry) folder t.root }

/-- Write a file. -/
def write (t : FileTree) (p : FilePath) (content : List UInt8) : Except FileFault FileTree := do
  let l ← t.locate p
  match l.name, t.entryAt l with
  | none, _ => throw .isFolder
  | _, .ok (.folder _) => throw .isFolder
  | some name, .ok (.file _) => return t.putAt l.folder name (.file content)
  | some name, .error .notFound =>
    if l.asFolder then throw .isFolder else return t.putAt l.folder name (.file content)
  | _, .error e => throw e

/-- Create a folder. -/
def createFolder (t : FileTree) (p : FilePath) : Except FileFault FileTree := do
  let l ← t.locate p
  match l.name, t.entryAt l with
  | some name, .error .notFound => return t.putAt l.folder name (.folder [])
  | _, _ => throw .exists

/-- Create a folder unless it is there. -/
def ensureFolder (t : FileTree) (p : FilePath) : Except FileFault FileTree :=
  match t.createFolder p with
  | .ok t => .ok t
  | .error e => if t.isFolder p then .ok t else .error e

/-- The path of some names. -/
def pathOf (absolute : Bool) (names : List RawText) : FilePath :=
  (if absolute then [FilePath.slash] else []) ++ [FilePath.slash].intercalate names

/-- Create the folder that the names in reverse lead to, and those that lead to it. The tree keeps
what was created before a failure. -/
def createFoldersTo (absolute : Bool) (t : FileTree) : List RawText → FileTree × Option FileFault
  | [] => (t, none)
  | name :: outer =>
    let p := pathOf absolute (name :: outer).reverse
    match t.ensureFolder p with
    | .ok t => (t, none)
    | .error .notFound =>
      match createFoldersTo absolute t outer with
      | (t, some e) => (t, some e)
      | (t, none) =>
        match t.ensureFolder p with
        | .ok t => (t, none)
        | .error e => (t, some e)
    | .error e => (t, some e)

/-- Create the folder around the file of a path, and those around it. -/
def createFoldersAround (t : FileTree) (p : FilePath) : FileTree × Option FileFault :=
  let names := p.names.filter (· ≠ FilePath.dot)
  createFoldersTo p.isAbsolute t names.dropLast.reverse

end FileTree

end ChainRelay
