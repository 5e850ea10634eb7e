import ChainRelay.Files.FileTree

/-! # Places in a file tree

A place is a folder, given by the names that lead to it from the root, and a name in it. What a write or
the creation of folders does is told by the content of each place. A path is led to its place by its
names alone, provided that every step up leaves a folder that is there.
-/

namespace ChainRelay

namespace FolderEntries

theorem get?_nil (name : RawText) : get? name [] = none := rfl

theorem get?_cons (name : RawText) (old : RawText × FileEntry) (entries : FolderEntries) :
    get? name (old :: entries) = if old.1 = name then some old.2 else get? name entries := by
  by_cases same : old.1 = name <;> simp [get?, same]

theorem any_eq_isSome (name : RawText) (entries : FolderEntries) :
    entries.any (·.1 == name) = (get? name entries).isSome := by
  induction entries with
  | nil => rfl
  | cons old rest ih =>
      rw [List.any_cons, ih, get?_cons]
      by_cases same : old.1 = name <;> simp [same]

theorem get?_replace (name : RawText) (entry : FileEntry) (entries : FolderEntries) (asked : RawText) :
    get? asked (entries.map fun old => if old.1 == name then (name, entry) else old) =
      if asked = name then (get? name entries).map fun _ => entry else get? asked entries := by
  induction entries with
  | nil => by_cases same : asked = name <;> simp [get?_nil, same]
  | cons old rest ih =>
      rw [List.map_cons, get?_cons, get?_cons, get?_cons, ih]
      by_cases here : old.1 = name
      · by_cases same : asked = name
        · simp [here, same]
        · have other : ¬name = asked := fun h => same h.symm
          simp [here, same, other]
      · by_cases same : asked = name
        · simp [here, same]
        · simp [here, same]

theorem get?_append (name : RawText) (entry : FileEntry) (entries : FolderEntries) (asked : RawText) :
    get? asked (entries ++ [(name, entry)]) =
      (get? asked entries).or (if asked = name then some entry else none) := by
  induction entries with
  | nil => simp [get?_cons, get?_nil, eq_comm]
  | cons old rest ih =>
      rw [List.cons_append, get?_cons, get?_cons, ih]
      by_cases here : old.1 = asked <;> simp [here]

theorem get?_put (name : RawText) (entry : FileEntry) (entries : FolderEntries) (asked : RawText) :
    get? asked (put name entry entries) = if asked = name then some entry else get? asked entries := by
  unfold put
  rw [any_eq_isSome]
  cases found : get? name entries with
  | some old =>
      rw [Option.isSome_some, if_pos rfl, get?_replace, found]
      rfl
  | none =>
      rw [Option.isSome_none, if_neg Bool.false_ne_true, get?_append]
      by_cases same : asked = name
      · simp [same, found]
      · simp [same]

attribute [local simp] inside?

/-- The content of the file of a name in the folder that names lead to. -/
def fileAt? (folder : List RawText) (name : RawText) (entries : FolderEntries) : Option (List UInt8) :=
  match (inside? folder entries).bind (get? name) with
  | some (.file content) => some content
  | _ => none

theorem fileAt?_folder {outer : RawText} {entries inner : FolderEntries}
    (found : get? outer entries = some (.folder inner)) (folder : List RawText) (name : RawText) :
    fileAt? (outer :: folder) name entries = fileAt? folder name inner := by
  simp only [fileAt?, inside?, found]

theorem fileAt?_absent {outer : RawText} {entries : FolderEntries}
    (absent : ∀ inner, get? outer entries ≠ some (.folder inner)) (folder : List RawText)
    (name : RawText) : fileAt? (outer :: folder) name entries = none := by
  have missing : inside? (outer :: folder) entries = none := by
    unfold inside?
    split
    · rename_i inner found
      exact absurd found (absent inner)
    · rfl
  simp only [fileAt?, missing, Option.bind_none]

theorem fileAt?_empty (folder : List RawText) (name : RawText) : fileAt? folder name [] = none := by
  cases folder <;> rfl

theorem fileAt?_put_self (name : RawText) (inner entries : FolderEntries) (folder : List RawText)
    (asked : RawText) :
    fileAt? (name :: folder) asked (put name (.folder inner) entries) =
      fileAt? folder asked inner := by
  refine fileAt?_folder ?_ folder asked
  rw [get?_put, if_pos rfl]

/-- A file that is put into a folder is there. -/
theorem fileAt?_change_put {folder : List RawText} {entries found : FolderEntries}
    (exists' : inside? folder entries = some found) (name : RawText) (content : List UInt8) :
    fileAt? folder name (change (put name (.file content)) folder entries) = some content := by
  induction folder generalizing entries with
  | nil => simp [fileAt?, change, get?_put]
  | cons outer folder ih =>
      unfold inside? at exists'
      split at exists'
      · rename_i inner entered
        rw [change, entered, fileAt?_put_self]
        exact ih exists'
      · cases exists'

/-- A folder that is put where no file was leaves the files beside it as they were. -/
theorem fileAt?_put_beside {name : RawText} {entries : FolderEntries}
    (noFile : ∀ content, get? name entries ≠ some (.file content)) (inner : FolderEntries)
    (asked : RawText) :
    fileAt? [] asked (put name (.folder inner) entries) = fileAt? [] asked entries := by
  simp only [fileAt?, inside?, Option.bind_some, get?_put]
  by_cases same : asked = name
  · subst same
    rw [if_pos rfl]
    cases found : get? asked entries with
    | none => rfl
    | some entry =>
        cases entry with
        | file content => exact absurd found (noFile content)
        | folder inner => rfl
  · rw [if_neg same]

theorem fileAt?_put_other {name outer : RawText} (other : outer ≠ name) (entry : FileEntry)
    (entries : FolderEntries) (folder : List RawText) (asked : RawText) :
    fileAt? (outer :: folder) asked (put name entry entries) =
      fileAt? (outer :: folder) asked entries := by
  simp only [fileAt?, inside?, get?_put, other, if_false]

/-- An empty folder under a free name changes no file. -/
theorem fileAt?_change_folder {folder : List RawText} {name : RawText} {entries : FolderEntries}
    (free : (inside? folder entries).bind (get? name) = none) (other : List RawText)
    (asked : RawText) :
    fileAt? other asked (change (put name (.folder [])) folder entries) =
      fileAt? other asked entries := by
  induction folder generalizing entries other with
  | nil =>
      have free' : get? name entries = none := free
      rw [change]
      cases other with
      | nil => exact fileAt?_put_beside (by simp [free']) [] asked
      | cons outer other =>
          by_cases same : outer = name
          · subst same
            rw [fileAt?_put_self, fileAt?_empty, fileAt?_absent (by simp [free'])]
          · exact fileAt?_put_other same _ entries other asked
  | cons step folder ih =>
      rw [change]
      split
      · rename_i inner entered
        have free' : (inside? folder inner).bind (get? name) = none := by
          simpa only [inside?, entered] using free
        cases other with
        | nil => exact fileAt?_put_beside (by simp [entered]) _ asked
        | cons outer other =>
            by_cases same : outer = step
            · subst same
              rw [fileAt?_put_self, fileAt?_folder entered]
              exact ih free' other
            · exact fileAt?_put_other same _ entries other asked
      · rfl

theorem inside?_append {folder : List RawText} {name : RawText} {entries inner : FolderEntries} :
    inside? (folder ++ [name]) entries = some inner ↔
      ∃ found, inside? folder entries = some found ∧ get? name found = some (.folder inner) := by
  induction folder generalizing entries with
  | nil =>
      simp only [List.nil_append, inside?, Option.some.injEq, exists_eq_left']
      cases found : get? name entries with
      | none => simp
      | some entry =>
          cases entry with
          | file content => simp
          | folder inner' => simp
  | cons outer folder ih =>
      simp only [List.cons_append, inside?]
      cases get? outer entries with
      | none => simp
      | some entry =>
          cases entry with
          | file content => simp
          | folder inner' => exact ih

end FolderEntries

/-- The name is neither of the two that stand for a folder and for the one around it. -/
def FilePath.Proper (name : RawText) : Prop :=
  name ≠ dot ∧ name ≠ dots

/-- The folder that names lead to from a folder, whatever is there. -/
def FilePath.lead : List RawText → (folder : List RawText) → List RawText
  | [], folder => folder
  | name :: rest, folder =>
    if name = dot then lead rest folder
    else if name = dots then lead rest folder.dropLast
    else lead rest (folder ++ [name])

theorem FilePath.lead_append (names more : List RawText) (folder : List RawText) :
    lead (names ++ more) folder = lead more (lead names folder) := by
  induction names generalizing folder with
  | nil => rfl
  | cons name rest ih =>
      simp only [List.cons_append, lead, ih]
      split
      · rfl
      · split <;> rfl

namespace FileTree

open FolderEntries FilePath

/-- Every step up leaves a folder that is there. -/
def Steps (t : FileTree) : List RawText → (folder : List RawText) → Prop
  | [], _ => True
  | name :: rest, folder =>
    if name = dot then Steps t rest folder
    else if name = dots then (t.root.inside? folder).isSome ∧ Steps t rest folder.dropLast
    else Steps t rest (folder ++ [name])

/-- The names are short enough to be looked up. -/
def Short (names : List RawText) : Prop :=
  ∀ name ∈ names, Proper name → isTooLong name = false

/-- What one step of a walk can be. -/
theorem walk_cons_ok {t : FileTree} {name : RawText} {rest folder found : List RawText} :
    t.walk (name :: rest) folder = .ok found ↔
      (name = dot ∧ t.walk rest folder = .ok found) ∨
        (name = dots ∧ t.walk rest folder.dropLast = .ok found) ∨
          (Proper name ∧ isTooLong name = false ∧ (t.root.inside? (folder ++ [name])).isSome ∧
            t.walk rest (folder ++ [name]) = .ok found) := by
  have notDot : ¬dots = dot := by decide
  have notDots : ¬dot = dots := by decide
  rw [walk]
  by_cases here : name = dot
  · simp [here, Proper, notDots]
  by_cases up : name = dots
  · simp [up, Proper, notDot]
  have proper : Proper name := ⟨here, up⟩
  simp only [here, up, if_false, false_and, false_or, proper, true_and]
  cases isTooLong name with
  | true => simp
  | false =>
      simp only [Bool.false_eq_true, if_false, true_and, Option.isSome_iff_exists, inside?_append]
      cases (t.root.inside? folder) with
      | none => simp
      | some outer =>
          cases entry : get? name outer with
          | none => simp [entry]
          | some inner =>
              cases inner <;> simp [entry]

/-- A successful walk ends where the names lead. -/
theorem walk_ok {t : FileTree} {names folder found : List RawText}
    (walked : t.walk names folder = .ok found) : found = lead names folder ∧ Short names := by
  induction names generalizing folder with
  | nil =>
      cases walked
      exact ⟨rfl, fun name absent => nomatch absent⟩
  | cons name rest ih =>
      rw [lead]
      rcases walk_cons_ok.mp walked with ⟨here, more⟩ | ⟨up, more⟩ | ⟨proper, fits, -, more⟩
      · obtain ⟨same, short⟩ := ih more
        refine ⟨?_, List.forall_mem_cons.mpr ⟨fun proper => absurd here proper.1, short⟩⟩
        rw [if_pos here]
        exact same
      · obtain ⟨same, short⟩ := ih more
        have notHere : ¬name = dot := by rw [up]; decide
        refine ⟨by rw [if_neg notHere, if_pos up]; exact same, List.forall_mem_cons.mpr ⟨?_, short⟩⟩
        exact fun proper => absurd up proper.2
      · obtain ⟨same, short⟩ := ih more
        rw [if_neg proper.1, if_neg proper.2]
        exact ⟨same, List.forall_mem_cons.mpr ⟨fun _ => fits, short⟩⟩

/-- A walk that ends with a proper name ends in a folder that is there. -/
theorem inside?_walk {t : FileTree} {names folder found : List RawText} {last : RawText}
    (proper : Proper last) (walked : t.walk (names ++ [last]) folder = .ok found) :
    (t.root.inside? found).isSome := by
  induction names generalizing folder with
  | nil =>
      rcases walk_cons_ok.mp walked with ⟨here, -⟩ | ⟨up, -⟩ | ⟨-, -, entered, ended⟩
      · exact absurd here proper.1
      · exact absurd up proper.2
      · cases ended
        exact entered
  | cons name rest ih =>
      rcases walk_cons_ok.mp walked with ⟨-, more⟩ | ⟨-, more⟩ | ⟨-, -, -, more⟩
      · exact ih more
      · exact ih more
      · exact ih more

theorem isSome_inside?_of_append {folder : List RawText} {name : RawText} {entries : FolderEntries}
    (entered : (entries.inside? (folder ++ [name])).isSome) : (entries.inside? folder).isSome := by
  obtain ⟨inner, there⟩ := Option.isSome_iff_exists.mp entered
  obtain ⟨outer, before, -⟩ := inside?_append.mp there
  exact Option.isSome_of_eq_some before

/-- Names are followed to a folder that is there, if every step up leaves one that is there. -/
theorem walk_steps {t : FileTree} {names folder : List RawText} (steps : t.Steps names folder)
    (short : Short names) (target : (t.root.inside? (lead names folder)).isSome) :
    (t.root.inside? folder).isSome ∧ t.walk names folder = .ok (lead names folder) := by
  induction names generalizing folder with
  | nil => exact ⟨target, rfl⟩
  | cons name rest ih =>
      obtain ⟨fits, others⟩ := List.forall_mem_cons.mp short
      rw [Steps] at steps
      rw [lead] at target ⊢
      rw [walk_cons_ok]
      split at steps
      · rename_i here
        rw [if_pos here] at target ⊢
        obtain ⟨entered, walked⟩ := ih steps others target
        exact ⟨entered, .inl ⟨here, walked⟩⟩
      · rename_i notHere
        rw [if_neg notHere] at target ⊢
        split at steps
        · rename_i up
          rw [if_pos up] at target ⊢
          exact ⟨steps.1, .inr (.inl ⟨up, (ih steps.2 others target).2⟩)⟩
        · rename_i notUp
          rw [if_neg notUp] at target ⊢
          obtain ⟨entered, walked⟩ := ih steps others target
          have proper : Proper name := ⟨notHere, notUp⟩
          exact ⟨isSome_inside?_of_append entered, .inr (.inr ⟨proper, fits proper, entered, walked⟩)⟩

end FileTree

end ChainRelay
