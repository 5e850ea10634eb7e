import ChainRelay.Proofs.Files.Rereading
import Mathlib.Data.List.Flatten

/-! # Folders around a file

The text that is joined from the names of a path is a part of the path's text, and leads to the same
folder. So the folders around a file that can be read need not be created.
-/

namespace ChainRelay

open FolderEntries FilePath

namespace FilePath

/-- The text stands between slashes. -/
def Plain (name : RawText) : Prop :=
  name ≠ [] ∧ slash ∉ name

theorem slash_notMem_splitAtSlashes {current p : RawText} (none : slash ∉ current) :
    ∀ name ∈ splitAtSlashes current p, slash ∉ name := by
  induction p generalizing current with
  | nil => simpa [splitAtSlashes] using none
  | cons u rest ih =>
      rw [splitAtSlashes]
      split
      · exact List.forall_mem_cons.mpr ⟨by simpa using none, ih List.not_mem_nil⟩
      · rename_i other
        exact ih (by simp [none, Ne.symm other])

theorem plain_names (p : FilePath) : ∀ name ∈ p.names, Plain name := by
  intro name member
  obtain ⟨piece, filled⟩ := List.mem_filter.mp member
  exact ⟨by simpa using filled, slash_notMem_splitAtSlashes List.not_mem_nil name piece⟩

theorem splitAtSlashes_plain {current name : RawText} (none : slash ∉ name) :
    splitAtSlashes current name = [current.reverse ++ name] := by
  induction name generalizing current with
  | nil => simp [splitAtSlashes]
  | cons u rest ih =>
      have first : ¬u = slash := Ne.symm (List.ne_of_not_mem_cons none)
      rw [splitAtSlashes, if_neg first, ih (List.not_mem_of_not_mem_cons none)]
      simp

theorem names_plain {name : RawText} (plain : Plain name) : names name = [name] := by
  simp [names, splitAtSlashes_plain plain.2, plain.1]

theorem names_intercalate {ns : List RawText} (plain : ∀ name ∈ ns, Plain name) :
    names ([slash].intercalate ns) = ns := by
  induction ns with
  | nil => rfl
  | cons name rest ih =>
      obtain ⟨here, others⟩ := List.forall_mem_cons.mp plain
      cases rest with
      | nil => simpa using names_plain here
      | cons next rest =>
          rw [List.intercalate_cons_cons, List.append_assoc, List.singleton_append, names_append, ih others,
            names_plain here]
          rfl

end FilePath

namespace FileTree

theorem names_pathOf (absolute : Bool) {ns : List RawText} (plain : ∀ name ∈ ns, Plain name) :
    (pathOf absolute ns).names = ns := by
  cases absolute with
  | false => simpa [pathOf] using names_intercalate plain
  | true =>
      have same : pathOf true ns = [] ++ slash :: [slash].intercalate ns := rfl
      rw [same, names_append, names_intercalate plain]
      rfl

theorem isAbsolute_pathOf (absolute : Bool) {ns : List RawText} (plain : ∀ name ∈ ns, Plain name) :
    (pathOf absolute ns).isAbsolute = absolute := by
  cases absolute with
  | true => rfl
  | false =>
      cases ns with
      | nil => rfl
      | cons name rest =>
          obtain ⟨⟨filled, none⟩, -⟩ := List.forall_mem_cons.mp plain
          obtain ⟨u, name, rfl⟩ := List.exists_cons_of_ne_nil filled
          have other : ¬u = slash := fun same => none (same ▸ List.mem_cons_self)
          cases rest <;> simp [pathOf, isAbsolute, List.intercalate, other]

theorem intercalate_sublist {ns ms : List RawText} (sub : ns.Sublist ms) :
    ([slash].intercalate ns).Sublist ([slash].intercalate ms) := by
  induction sub with
  | slnil => exact .refl _
  | @cons ns ms name sub ih =>
      refine ih.trans ?_
      cases ms with
      | nil => exact List.nil_sublist _
      | cons next ms =>
          rw [List.intercalate_cons_cons]
          exact List.sublist_append_right _ _
  | @cons_cons ns ms name sub ih =>
      cases ns with
      | nil =>
          cases ms with
          | nil => exact .refl _
          | cons next ms =>
              rw [List.intercalate_cons_cons, List.append_assoc]
              simp
      | cons first ns =>
          cases ms with
          | nil => cases sub
          | cons next ms =>
              rw [List.intercalate_cons_cons, List.intercalate_cons_cons]
              exact (List.Sublist.refl _).append ih

/-- Joined again, the texts between slashes are in the path. -/
theorem intercalate_splitAtSlashes (current p : RawText) :
    ([slash].intercalate ((splitAtSlashes current p).filter (!·.isEmpty))).Sublist (current.reverse ++ p) := by
  induction p generalizing current with
  | nil => by_cases empty : current = [] <;> simp [splitAtSlashes, empty]
  | cons u rest ih =>
      rw [splitAtSlashes]
      split
      · rename_i same
        subst same
        have more := ih []
        by_cases empty : current = []
        · subst empty
          simpa using more.trans (List.sublist_cons_self _ _)
        · rw [List.filter_cons_of_pos (by simpa using empty)]
          cases split : (splitAtSlashes [] rest).filter (!·.isEmpty) with
          | nil => simp
          | cons next others =>
              rw [split] at more
              rw [List.intercalate_cons_cons, List.append_assoc, List.singleton_append]
              exact (List.Sublist.refl _).append (more.cons_cons _)
      · have more := ih (u :: current)
        simpa using more

theorem pathOf_sublist (p : FilePath) {ns : List RawText} (sub : ns.Sublist p.names) :
    (pathOf p.isAbsolute ns).Sublist p := by
  have joined : (pathOf p.isAbsolute p.names).Sublist p := by
    cases absolute : p.isAbsolute with
    | false => simpa [pathOf, names] using intercalate_splitAtSlashes [] p
    | true =>
        cases p with
        | nil => cases absolute
        | cons u rest =>
            have same : u = slash := by simpa [isAbsolute] using absolute
            subst same
            have named : names (slash :: rest) = names rest := names_append [] rest
            rw [named]
            exact (intercalate_splitAtSlashes [] rest).cons_cons slash
  exact ((List.Sublist.refl _).append (intercalate_sublist sub)).trans joined

theorem Admits.sublist {p q : FilePath} (admits : Admits p) (sub : q.Sublist p) (some' : q ≠ []) : Admits q where
  noZero := by
    rw [List.any_eq_false]
    exact fun u member => List.any_eq_false.mp admits.noZero u (sub.subset member)
  some' := by simpa using some'
  short := by
    have bytes : q.toBytes.length ≤ p.toBytes.length := (sub.flatMap _).length_le
    have short := admits.short
    omega

theorem walk_append (t : FileTree) (names more folder : List RawText) :
    t.walk (names ++ more) folder = (t.walk names folder).bind (t.walk more) := by
  induction names generalizing folder with
  | nil => rfl
  | cons name rest ih =>
      rw [List.cons_append, walk, walk]
      split
      · exact ih folder
      split
      · exact ih _
      split
      · rfl
      split
      · rfl
      · rfl
      · exact ih _

/-- Dots lead nowhere. -/
theorem walk_filter (t : FileTree) (names folder : List RawText) :
    t.walk (names.filter (· ≠ dot)) folder = t.walk names folder := by
  induction names generalizing folder with
  | nil => rfl
  | cons name rest ih =>
      by_cases here : name = dot
      · rw [List.filter_cons_of_neg (by simpa using here), ih, walk, if_pos here]
      · rw [List.filter_cons_of_pos (by simpa using here), walk, walk]
        simp only [ih]

/-- The text of names that lead to a folder leads to that folder. -/
theorem lookup_pathOf {t : FileTree} {absolute : Bool} {ns : List RawText} {last : RawText}
    (plain : ∀ name ∈ ns ++ [last], Plain name) (notDot : last ≠ dot)
    (admits : Admits (pathOf absolute (ns ++ [last]))) {found : List RawText}
    (walked : t.walk (ns ++ [last]) (if absolute then [] else t.here) = .ok found)
    (inside : (t.root.inside? found).isSome) :
    ∃ inner, t.lookup (pathOf absolute (ns ++ [last])) = .ok (.folder inner) := by
  have named := names_pathOf absolute plain
  have rooted := isAbsolute_pathOf absolute plain
  obtain ⟨entries, inside⟩ := Option.isSome_iff_exists.mp inside
  generalize pathOf absolute (ns ++ [last]) = p at *
  simp only [lookup, locate, admits.noZero, admits.some', admits.short, named, rooted, Bool.false_eq_true, if_false,
    List.getLast?_append, List.getLast?_singleton, Option.some_or, List.dropLast_concat, bind, Except.bind]
  by_cases up : last = dots
  · simp only [up, decide_true, Bool.or_true, if_true] at walked ⊢
    simp only [walked, pure, Except.pure, entryAt, inside]
    exact ⟨entries, rfl⟩
  · have proper : (decide (last = dot) || decide (last = dots)) = false := by simp [notDot, up]
    rw [walk_append] at walked
    simp only [proper, Bool.false_eq_true, if_false]
    cases before : t.walk ns (if absolute then [] else t.here) with
    | error e =>
        rw [before] at walked
        cases walked
    | ok folder =>
        rw [before] at walked
        rcases walk_cons_ok.mp walked with ⟨same, -⟩ | ⟨same, -⟩ | ⟨-, fits, -, ended⟩
        · exact absurd same notDot
        · exact absurd same up
        · cases ended
          obtain ⟨outer, there, entered⟩ := inside?_append.mp inside
          simp only [fits, pure, Except.pure, entryAt, there, entered, Bool.false_eq_true, if_false]
          exact ⟨entries, rfl⟩

theorem ensureFolder_of_lookup {t : FileTree} {p : FilePath} {inner : FolderEntries}
    (found : t.lookup p = .ok (.folder inner)) : t.ensureFolder p = .ok t := by
  obtain ⟨l, located, entry⟩ := lookup_ok_iff.mp found
  have refused : t.createFolder p = .error .exists := by
    unfold createFolder
    simp only [located, entry, bind, Except.bind]
    cases l.name <;> rfl
  unfold ensureFolder
  simp only [refused, isFolder, found, if_true]

/-- The folders around a file that can be read are there. -/
theorem createFoldersAround_of_read {t : FileTree} {p : FilePath} {content : List UInt8}
    (read : t.read p = .ok content) : t.createFoldersAround p = (t, none) := by
  obtain ⟨names, last, file, admits, walked, inside⟩ := located_of_read read
  have around : (p.names.filter (· ≠ dot)).dropLast = names.filter (· ≠ dot) := by
    rw [file.split, List.filter_append]
    simp [file.proper.1]
  rw [← walk_filter] at walked
  unfold createFoldersAround
  dsimp only
  rw [around]
  rcases List.eq_nil_or_concat (names.filter (· ≠ dot)) with none | ⟨ns, name, split⟩
  · rw [none]
    rfl
  · rw [List.concat_eq_append] at split
    have sub : (ns ++ [name]).Sublist p.names := by
      rw [← split, file.split]
      exact List.filter_sublist.trans (List.sublist_append_left _ _)
    have plain : ∀ n ∈ ns ++ [name], Plain n := fun n member => plain_names p n (sub.subset member)
    have notDot : name ≠ dot := by
      have member : name ∈ names.filter (· ≠ dot) := split ▸ List.mem_append_right ns (List.mem_singleton_self name)
      simpa using (List.mem_filter.mp member).2
    have filled : pathOf p.isAbsolute (ns ++ [name]) ≠ [] := by
      intro empty
      have named := names_pathOf p.isAbsolute plain
      rw [empty] at named
      cases ns <;> cases named
    rw [split] at walked ⊢
    obtain ⟨inner, found⟩ := lookup_pathOf plain notDot (admits.sublist (pathOf_sublist p sub) filled) walked inside
    have ensured := ensureFolder_of_lookup found
    rw [← List.reverse_reverse (ns ++ [name])] at ensured
    rw [List.reverse_append] at ensured ⊢
    rw [List.reverse_singleton, List.singleton_append] at ensured ⊢
    rw [createFoldersTo]
    simp only [ensured]

end FileTree

end ChainRelay
