import ChainRelay.Commands.Chains
import Mathlib.Data.List.Nodup
import Mathlib.Data.List.TakeWhile

/-! # Definitions in a folder

The definitions in a folder are the entries whose extension is `json`, in the byte order of their names.
-/

namespace ChainRelay

namespace FilePath

theorem splitName_append {before ext : RawText} (last : .char '.' ∉ ext) :
    (splitName (before ++ .char '.' :: ext)).2 = if before = [] then none else some ext := by
  have after : ((before ++ .char '.' :: ext).reverse.takeWhile (· ≠ .char '.')).reverse = ext := by
    have none : ∀ u ∈ ext.reverse, decide (u ≠ .char '.') = true := by
      intro u member
      exact decide_eq_true fun same => last (same ▸ List.mem_reverse.mp member)
    rw [List.reverse_append, List.reverse_cons, List.append_assoc, List.takeWhile_append_of_pos none]
    simp
  have front : (before ++ .char '.' :: ext).take ((before ++ .char '.' :: ext).length - ext.length - 1) = before := by
    have count : (before ++ .char '.' :: ext).length - ext.length - 1 = before.length := by
      rw [List.length_append, List.length_cons]
      omega
    rw [count, List.take_left]
  have longer : ¬ext.length = (before ++ .char '.' :: ext).length := by
    rw [List.length_append, List.length_cons]
    omega
  unfold splitName
  simp only [after, front, longer, decide_false, Bool.false_or, List.isEmpty_iff]
  split <;> rfl

theorem splitName_of_notMem {name : RawText} (none : .char '.' ∉ name) : (splitName name).2 = Option.none := by
  have all : name.reverse.takeWhile (· ≠ .char '.') = name.reverse := by
    rw [List.takeWhile_eq_self_iff]
    intro u member
    exact decide_eq_true fun same => none (same ▸ List.mem_reverse.mp member)
  unfold splitName
  simp only [all, List.reverse_reverse, decide_true, Bool.true_or, if_true]

/-- What follows the last dot of a name is its extension, if anything stands before that dot. -/
theorem splitName_snd_eq_some_iff {name ext : RawText} :
    (splitName name).2 = some ext ↔ ∃ before ≠ [], name = before ++ .char '.' :: ext ∧ .char '.' ∉ ext := by
  by_cases dotted : .char '.' ∈ name
  · obtain ⟨rest, front, split, last⟩ := List.eq_append_cons_of_mem (List.mem_reverse.mpr dotted)
    have same : name = front.reverse ++ .char '.' :: rest.reverse := by
      rw [← List.reverse_reverse name, split]
      simp
    have last' : .char '.' ∉ rest.reverse := by simpa using last
    rw [same, splitName_append last']
    constructor
    · intro found
      split at found
      · cases found
      · rename_i filled
        cases found
        exact ⟨_, filled, rfl, last'⟩
    · rintro ⟨before, filled, joined, free⟩
      rw [← splitName_append last', joined, splitName_append free, if_neg filled]
  · rw [splitName_of_notMem dotted]
    constructor
    · nofun
    · rintro ⟨before, -, rfl, -⟩
      exact absurd (List.mem_append_right _ List.mem_cons_self) dotted

end FilePath

namespace Commands

/-- The name is that of a definition: it ends in `.json`, and more stands before that. -/
def IsDefinition (name : RawText) : Prop :=
  ∃ before ≠ [], name = before ++ RawText.ofString ".json"

theorem isDefinition_iff {name : RawText} :
    IsDefinition name ↔ ((FilePath.splitName name).2 == some (RawText.ofString "json")) = true := by
  have free : RawUnit.char '.' ∉ RawText.ofString "json" := by decide
  rw [beq_iff_eq, FilePath.splitName_snd_eq_some_iff]
  constructor
  · rintro ⟨before, filled, same⟩
    exact ⟨before, filled, same, free⟩
  · rintro ⟨before, filled, same, -⟩
    exact ⟨before, filled, same⟩

instance : DecidablePred IsDefinition :=
  fun _ => decidable_of_iff _ isDefinition_iff.symm

/-- The names of the definitions in a listing, in byte order. -/
structure Definitions (listing names : List RawText) : Prop where
  perm : names.Perm (listing.filter IsDefinition)
  ascending : names.Pairwise fun a b => a.toBytes ≤ b.toBytes

theorem definitionFiles_eq (folder : FilePath) (listing : List RawText) :
    ∃ names, Definitions listing names ∧ definitionFiles folder listing = names.map folder.join := by
  refine ⟨(listing.filter IsDefinition).mergeSort bytesBefore, ⟨List.mergeSort_perm _ _, ?_⟩, ?_⟩
  · have trans : ∀ a b c, bytesBefore a b → bytesBefore b c → bytesBefore a c := by
      intro a b c
      simpa only [bytesBefore, decide_eq_true_eq] using List.le_trans
    have total : ∀ a b, bytesBefore a b || bytesBefore b a := by
      intro a b
      simpa only [bytesBefore, Bool.or_eq_true, decide_eq_true_eq] using List.le_total _ _
    exact (List.pairwise_mergeSort trans total _).imp of_decide_eq_true
  · have same : (listing.filter fun n => (FilePath.splitName n).2 == some (RawText.ofString "json")) =
        listing.filter IsDefinition :=
      List.filter_congr fun name _ => by rw [Bool.eq_iff_iff, ← isDefinition_iff, decide_eq_true_eq]
    simp only [definitionFiles, same]

/-- There is one byte order of names that have different bytes. -/
theorem Definitions.unique {listing names names' : List RawText} (distinct : (listing.map RawText.toBytes).Nodup)
    (first : Definitions listing names) (second : Definitions listing names') : names = names' := by
  refine (first.perm.trans second.perm.symm).eq_of_pairwise ?_ first.ascending second.ascending
  intro a b inside inside' before after
  have member : a ∈ listing := (List.mem_filter.mp (first.perm.subset inside)).1
  have member' : b ∈ listing := (List.mem_filter.mp (second.perm.subset inside')).1
  exact List.inj_on_of_nodup_map distinct member member' (List.le_antisymm before after)

end Commands

end ChainRelay
