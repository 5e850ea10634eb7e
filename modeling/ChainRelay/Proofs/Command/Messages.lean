import ChainRelay.Proofs.Command.Listing
import ChainRelay.Proofs.Command.Nearest

/-! # Messages about command paths

A tree names a command path when it refuses a fragment, and when it refuses a command line and lists the
commands below the nearest one. Its messages tell the paths apart, whatever the two refusals are, with one
exception: the id of a global option may hold the words that stand between a path and an id.
-/

namespace ChainRelay

open Args

/-! ## Collisions with a global option -/

/-- What a message says between the path of a command and the id of a global option. -/
def redefining : String :=
  "` redefines the global flag `"

/-- The longer path takes from the id what stands in front of the shorter id. -/
def GoesOn (p : CommandPath) (a : String) (q : CommandPath) (b : String) : Prop :=
  ∃ more, q.text = p.text ++ redefining ++ more ∧ a = more ++ redefining ++ b

/-- Where these words could begin anew inside themselves, a space stands in front. -/
theorem redefining_overlap : ∀ n < redefining.length, 0 < n →
    (redefining.toList.drop n).head? = some '`' → (redefining.toList.take n).getLast? = some ' ' := by
  decide

theorem length_redefining_pos : 0 < redefining.length := by
  decide

section Redefining

variable {p q : CommandPath} {a b : String}

theorem goesOn_of_parts (more : List Char) (path : q.text.toList = p.text.toList ++ redefining.toList ++ more)
    (arg : a.toList = more ++ redefining.toList ++ b.toList) : GoesOn p a q b :=
  ⟨String.ofList more, String.toList_inj.mp (by simpa using path), String.toList_inj.mp (by simpa using arg)⟩

theorem GoesOn.reads (goesOn : GoesOn p a q b) : p.text ++ redefining ++ a = q.text ++ redefining ++ b := by
  obtain ⟨more, path, rfl⟩ := goesOn
  rw [path]
  simp only [String.append_assoc]

theorem GoesOn.ne (goesOn : GoesOn p a q b) : p ≠ q := by
  rintro rfl
  obtain ⟨more, path, -⟩ := goesOn
  have longer := congrArg String.length path
  have := length_redefining_pos
  simp only [String.length_append] at longer
  omega

theorem goesOn_of_longer {tail : List Char} (well : q.isWellFormed = true)
    (longer : q.text.toList = p.text.toList ++ tail)
    (same : redefining.toList ++ a.toList = tail ++ (redefining.toList ++ b.toList)) :
    (p.text = q.text ∧ a = b) ∨ GoesOn p a q b := by
  rcases List.append_eq_append_iff.mp same with ⟨more, whole, behind⟩ | ⟨more, whole, behind⟩
  · exact .inr (goesOn_of_parts more (by rw [longer, whole, List.append_assoc]) (by rw [behind, List.append_assoc]))
  by_cases atOnce : tail = []
  · subst atOnce
    rw [List.nil_append] at whole
    rw [← whole] at behind
    exact .inl ⟨String.toList_inj.mp (by simpa using longer.symm), String.toList_inj.mp (by simpa using behind.symm)⟩
  by_cases atEnd : more = []
  · subst atEnd
    exact .inr (goesOn_of_parts [] (by simpa [whole] using longer) (by simpa using behind.symm))
  -- The words would begin anew inside themselves, and the longer path would end in a space.
  exfalso
  have front : redefining.toList.take tail.length = tail := by simp [whole]
  have back : redefining.toList.drop tail.length = more := by simp [whole]
  have again : more.head? = some '`' := by
    have opens : (redefining.toList ++ b.toList).head? = some '`' := by simp [redefining]
    rwa [behind, List.head?_append_of_ne_nil _ atEnd] at opens
  have within : tail.length < redefining.length := by
    rw [← String.length_toList, whole, List.length_append]
    exact Nat.lt_add_of_pos_right (List.length_pos_iff.mpr atEnd)
  have space := redefining_overlap tail.length within (List.length_pos_iff.mpr atOnce) (by rwa [back])
  obtain ⟨c, last, visible⟩ := CommandPath.notBlank_last well
  rw [longer, List.getLast?_append_of_ne_nil _ atOnce, ← front, space, Option.some.injEq] at last
  subst last
  cases visible

theorem redefining_eq_iff (wellP : p.isWellFormed = true) (wellQ : q.isWellFormed = true) :
    p.text ++ redefining ++ a = q.text ++ redefining ++ b ↔ (p = q ∧ a = b) ∨ GoesOn p a q b ∨ GoesOn q b p a := by
  constructor
  · intro same
    have same := congrArg String.toList same
    simp only [String.toList_append, List.append_assoc] at same
    rcases List.append_eq_append_iff.mp same with ⟨tail, longer, behind⟩ | ⟨tail, longer, behind⟩
    · rcases goesOn_of_longer wellQ longer behind with ⟨texts, args⟩ | goesOn
      · exact .inl ⟨(CommandPath.text_eq_iff wellP wellQ).mp texts, args⟩
      · exact .inr (.inl goesOn)
    · rcases goesOn_of_longer wellP longer behind with ⟨texts, args⟩ | goesOn
      · exact .inl ⟨(CommandPath.text_eq_iff wellP wellQ).mp texts.symm, args.symm⟩
      · exact .inr (.inr goesOn)
  · rintro (⟨rfl, rfl⟩ | goesOn | goesOn)
    · rfl
    · exact goesOn.reads
    · exact goesOn.reads.symm

end Redefining

/-! ## Messages that show a path -/

namespace Error

/-- The message of an error shows a command path. -/
inductive Shows : Error → CommandPath → Prop where
  | sealed {p : CommandPath} (well : p.isWellFormed = true) : Shows (.sealed p) p
  | command {p : CommandPath} (well : p.isWellFormed = true) : Shows (.collision (.command p)) p
  | globalArg {p : CommandPath} (well : p.isWellFormed = true) (arg : String) :
    Shows (.collision (.globalArg p arg)) p
  | usage {u : UsageError} (lists : u.Lists) : Shows (.usage u) u.nearest

/-- Two collisions over global options read the same, though the path of the second one is longer. -/
inductive Blurs : Error → Error → Prop where
  | globalArg {p q : CommandPath} {a b : String} (goesOn : GoesOn p a q b) :
    Blurs (.collision (.globalArg p a)) (.collision (.globalArg q b))

/-- The first letters of a message that shows a path. They tell what kind of error it is. -/
def opening : Error → List Char
  | .sealed _ => ['c', 'o', 'm']
  | .collision _ => ['c', 'o', 'l']
  | .usage _ => ['e']
  | _ => []

section Wording

variable {p q : CommandPath} {a b : String}

theorem message_sealed (p : CommandPath) :
    (Error.sealed p).message = "command tree is sealed, cannot insert `" ++ p.text ++ "`" := rfl

theorem message_command (p : CommandPath) : (Error.collision (.command p)).message =
    "collision: " ++ ("command `" ++ p.text ++ "` is defined more than once") := rfl

theorem message_globalArg (p : CommandPath) (a : String) : (Error.collision (.globalArg p a)).message =
    "collision: command `" ++ (p.text ++ redefining ++ a) ++ "`" := by
  have parts : (Error.collision (.globalArg p a)).message =
      "collision: " ++ ("command `" ++ p.text ++ redefining ++ a ++ "`") := rfl
  have front : "collision: command `" = "collision: " ++ "command `" := by simp
  rw [parts, front]
  simp only [String.append_assoc]

theorem message_sealed_inj (wellP : p.isWellFormed = true) (wellQ : q.isWellFormed = true)
    (same : (Error.sealed p).message = (Error.sealed q).message) : p = q := by
  rw [message_sealed, message_sealed, String.append_left_inj, String.append_right_inj] at same
  exact (CommandPath.text_eq_iff wellP wellQ).mp same

theorem message_command_inj (wellP : p.isWellFormed = true) (wellQ : q.isWellFormed = true)
    (same : (Error.collision (.command p)).message = (Error.collision (.command q)).message) : p = q := by
  rw [message_command, message_command, String.append_right_inj, String.append_left_inj,
    String.append_right_inj] at same
  exact (CommandPath.text_eq_iff wellP wellQ).mp same

theorem message_globalArg_eq_iff (wellP : p.isWellFormed = true) (wellQ : q.isWellFormed = true) :
    (Error.collision (.globalArg p a)).message = (Error.collision (.globalArg q b)).message ↔
      (p = q ∧ a = b) ∨ GoesOn p a q b ∨ GoesOn q b p a := by
  rw [message_globalArg, message_globalArg, String.append_left_inj, String.append_right_inj,
    redefining_eq_iff wellP wellQ]

/-- The two kinds of collisions end differently. -/
theorem message_command_ne (p q : CommandPath) (a : String) :
    (Error.collision (.command p)).message ≠ (Error.collision (.globalArg q a)).message := by
  intro same
  have last := congrArg (·.toList.getLast?) same
  simp only [message_command, message_globalArg, String.toList_append, List.getLast?_append] at last
  cases last

end Wording

variable {e e' : Error} {p q : CommandPath}

theorem Shows.unique (shows : e.Shows p) (shows' : e.Shows q) : p = q := by
  cases shows <;> cases shows' <;> rfl

theorem Shows.opening_prefix (shows : e.Shows p) : e.opening <+: e.message.toList := by
  cases shows with
  | sealed => simp [opening, message_sealed]
  | command => simp [opening, message_command]
  | globalArg => simp [opening, message_globalArg]
  | usage lists =>
      obtain ⟨rest, opens⟩ := List.head?_eq_some_iff.mp lists.opens
      unfold message UsageError.text
      simp [opening, opens]

theorem Shows.opening_eq (shows : e.Shows p) (shows' : e'.Shows q) (same : e.message = e'.message) :
    e.opening = e'.opening := by
  have comparable := List.prefix_or_prefix_of_prefix (same ▸ shows.opening_prefix) shows'.opening_prefix
  cases shows <;> cases shows' <;> simp [opening] at comparable ⊢

theorem Blurs.message_eq (blurs : e.Blurs e') : e.message = e'.message := by
  obtain ⟨goesOn⟩ := blurs
  rw [message_globalArg, message_globalArg, goesOn.reads]

theorem Blurs.ne (blurs : e.Blurs e') (shows : e.Shows p) (shows' : e'.Shows q) : p ≠ q := by
  obtain ⟨goesOn⟩ := blurs
  cases shows
  cases shows'
  exact goesOn.ne

theorem Shows.message_eq_iff (shows : e.Shows p) (shows' : e'.Shows q) :
    e.message = e'.message ↔ e = e' ∨ e.Blurs e' ∨ e'.Blurs e := by
  constructor
  · intro same
    -- Errors of different kinds fall to their first letters.
    have opening := shows.opening_eq shows' same
    cases shows with
    | sealed well =>
        cases shows' with
        | sealed well' => exact .inl (congrArg Error.sealed (message_sealed_inj well well' same))
        | command | globalArg | usage => cases opening
    | command well =>
        cases shows' with
        | command well' =>
            exact .inl (congrArg (Error.collision ∘ .command) (message_command_inj well well' same))
        | globalArg => exact (message_command_ne _ _ _ same).elim
        | sealed | usage => cases opening
    | globalArg well a =>
        cases shows' with
        | globalArg well' b =>
            rcases (message_globalArg_eq_iff well well').mp same with ⟨rfl, rfl⟩ | goesOn | goesOn
            · exact .inl rfl
            · exact .inr (.inl ⟨goesOn⟩)
            · exact .inr (.inr ⟨goesOn⟩)
        | command => exact (message_command_ne _ _ _ same.symm).elim
        | sealed | usage => cases opening
    | usage lists =>
        cases shows' with
        | usage lists' => exact .inl (congrArg Error.usage (lists.text_inj lists' same))
        | sealed | command | globalArg => cases opening
  · rintro (rfl | blurs | blurs)
    · rfl
    · exact blurs.message_eq
    · exact blurs.message_eq.symm

theorem Shows.same_path_iff (shows : e.Shows p) (shows' : e'.Shows q) :
    e.message = e'.message ∧ p = q ↔ e = e' := by
  constructor
  · rintro ⟨same, path⟩
    rcases (shows.message_eq_iff shows').mp same with one | blurs | blurs
    · exact one
    · exact absurd path (blurs.ne shows shows')
    · exact absurd path.symm (blurs.ne shows' shows)
  · rintro rfl
    exact ⟨rfl, shows.unique shows'⟩

theorem Shows.other_path_iff (shows : e.Shows p) (shows' : e'.Shows q) :
    e.message = e'.message ∧ p ≠ q ↔ e.Blurs e' ∨ e'.Blurs e := by
  constructor
  · rintro ⟨same, other⟩
    refine ((shows.message_eq_iff shows').mp same).resolve_left ?_
    rintro rfl
    exact other (shows.unique shows')
  · rintro (blurs | blurs)
    · exact ⟨blurs.message_eq, blurs.ne shows shows'⟩
    · exact ⟨blurs.message_eq.symm, (blurs.ne shows' shows).symm⟩

end Error

/-! ## Refusals of a tree -/

namespace Tree

variable {H : Type u} {t t' : Tree H} {xs xs' : List (Offer H)}

/-- A tree refuses a fragment for a well-formed path, or a command line for which it lists the commands
below the nearest one. -/
inductive Refuses (t : Tree H) : Error → CommandPath → Prop where
  | fragment {x : Offer H} {e : Error} (well : x.path.isWellFormed = true)
    (refused : t.insert x.1 x.2 = .error e) : Refuses t e x.path
  | commandLine {argv : List RawText} {u : UsageError} (refused : (t.parse argv).1 = .error u)
    (given : u.suggestions ≠ []) : Refuses t (.usage u) u.nearest

theorem Refuses.shows (grown : t.Grown xs) {e : Error} {p : CommandPath} (refuses : t.Refuses e p) : e.Shows p := by
  cases refuses with
  | fragment well refused =>
      cases grown.holds.insert_eq_error_iff.mp refused with
      | late => exact .sealed well
      | malformed _ unsound => exact absurd (isWellFormed_iff_sound.mp well) unsound
      | claimed => exact .command well
      | shadows => exact .globalArg well _
  | commandLine refused given => exact .usage (grown.sealed.lists refused given)

/-- The text of a well-formed path belongs to it alone and gives its names back. Two refusals that show
paths have one message for one path only if they are the same, and one message for two paths exactly if
they are collisions over global options that blur. -/
theorem messages_identify_paths (grown : t.Grown xs) (grown' : t'.Grown xs') :
    (∀ p q : CommandPath, p.isWellFormed = true → q.isWellFormed = true → (p.text = q.text ↔ p = q)) ∧
    (∀ p : CommandPath, p.isWellFormed = true →
      (p.text.split ' ').toList.map (·.copy) = p ∧ p.text ≠ "" ∧ p.text ≠ CommandPath.text []) ∧
    ∀ (e e' : Error) (p q : CommandPath), t.Refuses e p → t'.Refuses e' q →
      (e.message = e'.message ∧ p = q ↔ e = e') ∧
      (e.message = e'.message ∧ p ≠ q ↔ e.Blurs e' ∨ e'.Blurs e) := by
  refine ⟨fun p q => CommandPath.text_eq_iff, ?_, ?_⟩
  · intro p well
    have some := CommandPath.text_ne_empty well
    exact ⟨CommandPath.split_text well, some, some⟩
  · intro e e' p q refuses refuses'
    have shows := refuses.shows grown
    have shows' := refuses'.shows grown'
    exact ⟨shows.same_path_iff shows', shows.other_path_iff shows'⟩

/-- Two commands with an option of the same name, and global options one of which has an id that goes on
like a message. -/
def wordyOffers : List (Offer Unit) :=
  [("relay", { path := ["keys"], about := "", args := [{ id := "name", long := some "name" }], handler := some () }),
    ("relay", { path := ["nodes"], about := "", args := [{ id := "name", long := some "name" }], handler := some () })]

def wordyGlobals : List ArgSpec :=
  [{ id := "log", long := some "log" }, { id := "dir` redefines the global flag `log", long := some "trace" }]

def wordyTree : Tree Unit :=
  wordyOffers.foldl (fun t x => { t with root := t.root.insert x.claim x.path })
    (empty "relayer" none none wordyGlobals)

theorem grown_wordyTree : wordyTree.Grown wordyOffers :=
  Grown.insertEach (.empty "relayer" none none wordyGlobals) rfl

/-- A list of all commands and a late fragment are told apart, though the list is for no path. -/
theorem messages_identify_paths_root : wordyTree.Grown wordyOffers ∧ wordyTree.sealed.Grown wordyOffers ∧
    ∃ u, wordyTree.Refuses (.usage u) [] ∧ u.suggestions = ["keys", "nodes"] ∧
      wordyTree.sealed.Refuses (.sealed ["keys", "add"]) ["keys", "add"] ∧
      (CommandPath.text ["keys", "add"] |>.split ' ').toList.map (·.copy) = ["keys", "add"] ∧
      (Error.usage u).message ≠ (Error.sealed ["keys", "add"]).message := by
  have identify := messages_identify_paths grown_wordyTree grown_wordyTree.sealed
  have failed : wordyTree.cause? (["relayer"].map RawText.ofString) = some .missingCommand := by cbv
  obtain ⟨f, -, refused⟩ := refused_of_cause failed
  have listed : (wordyTree.usageError (["relayer"].map RawText.ofString).tail f.message).suggestions =
      ["keys", "nodes"] := rfl
  have usage : wordyTree.Refuses (.usage _) [] := .commandLine refused (listed ▸ List.cons_ne_nil _ _)
  have late : wordyTree.sealed.Refuses (.sealed ["keys", "add"]) ["keys", "add"] :=
    .fragment (x := ("relay", { path := ["keys", "add"], about := "" })) (by decide) rfl
  refine ⟨grown_wordyTree, grown_wordyTree.sealed, _, usage, listed, late, (identify.2.1 _ (by decide)).1, ?_⟩
  intro same
  rcases ((identify.2.2 _ _ _ _ usage late).2.mp ⟨same, by decide⟩) with blurs | blurs <;> cases blurs

/-- A fragment that shadows the option with the long id. -/
def listOffer : Offer Unit :=
  ("relay", { path := ["list"], about := "", args := [{ id := "trace", long := some "trace" }] })

/-- A fragment that shadows the other option. Its path has the words of a message. -/
def wordyOffer : Offer Unit :=
  ("relay", { path := ["list`", "redefines", "the", "global", "flag", "`dir"], about := "", args := [{ id := "log" }] })

theorem message_missing {f g : Failure} {a : ArgSpec} (why : f.cause = .value a .missing)
    (why' : g.cause = .value a .missing) : f.message = g.message := by
  unfold Failure.message Failure.headline Failure.tips Failure.usage?
  rw [why, why']

/-- Two collisions over global options can have one message for two paths, and so can two refusals of
command lines where there are no commands to list. -/
theorem messages_coincide : wordyTree.Grown wordyOffers ∧
    (listOffer.path.isWellFormed = true ∧ wordyOffer.path.isWellFormed = true ∧ listOffer.path ≠ wordyOffer.path ∧
      ∃ e e', wordyTree.insert listOffer.1 listOffer.2 = .error e ∧
        wordyTree.insert wordyOffer.1 wordyOffer.2 = .error e' ∧ e.message = e'.message) ∧
    ∃ u u', (wordyTree.parse (["relayer", "keys", "--name"].map RawText.ofString)).1 = .error u ∧
      (wordyTree.parse (["relayer", "nodes", "--name"].map RawText.ofString)).1 = .error u' ∧
      u.nearest = ["keys"] ∧ u'.nearest = ["nodes"] ∧ (Error.usage u).message = (Error.usage u').message := by
  refine ⟨grown_wordyTree, ⟨by decide, by decide, by decide, _, _, rfl, rfl, ?_⟩, ?_⟩
  · exact Error.Blurs.message_eq ⟨"dir", by decide, by decide⟩
  · have failed : wordyTree.cause? (["relayer", "keys", "--name"].map RawText.ofString) =
        some (.value { id := "name", long := some "name" } .missing) := by cbv
    have failed' : wordyTree.cause? (["relayer", "nodes", "--name"].map RawText.ofString) =
        some (.value { id := "name", long := some "name" } .missing) := by cbv
    obtain ⟨f, why, refused⟩ := refused_of_cause failed
    obtain ⟨f', why', refused'⟩ := refused_of_cause failed'
    refine ⟨_, _, refused, refused', rfl, rfl, ?_⟩
    change UsageError.text _ = UsageError.text _
    rw [UsageError.text_silent rfl, UsageError.text_silent rfl, message_usageError, message_usageError,
      message_missing why why']

end Tree

end ChainRelay
