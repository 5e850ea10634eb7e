import ChainRelay.Proofs.Config.Storing
import ChainRelay.Proofs.Json.Closing
import ChainRelay.Proofs.Json.RecordTexts

/-! # What follows the settings in a file

Settings are loaded from the document in front of a file, and what follows it is not looked at. So a file that
is accepted is a document as a whole only if nothing but blanks follows.
-/

namespace ChainRelay

open Json (Spaced ContainerText)

/-! ## The texts of settings -/

theorem BackendConfig.shape_takes (room : Nat) : (shape.read room).Takes true fun _ => Spaced ContainerText := by
  refine Json.Shape.read_takes ?_ room
  intro slot member room
  simp only [shape, List.mem_cons, List.not_mem_nil, or_false] at member
  rcases member with rfl | rfl
  · exact Json.readText_takes.then_pure
  · exact (Json.readValue_takes room).then_pure

theorem ChainConfig.shape_takes (room : Nat) : (shape.read room).Takes true fun _ => Spaced ContainerText := by
  refine Json.Shape.read_takes ?_ room
  intro slot member room
  have backend := (BackendConfig.shape_takes room).value
  simp only [shape, List.mem_cons, List.not_mem_nil, or_false] at member
  rcases member with rfl | rfl | rfl | rfl | rfl
  · exact Json.readText_takes.then_pure
  · exact Json.readBool_takes.then_pure
  · exact backend.then_pure
  · exact (Json.readOptional_takes backend).then_pure
  · exact backend.then_pure

theorem RelayerConfig.shape_takes (room : Nat) : (shape.read room).Takes true fun _ => Spaced ContainerText := by
  refine Json.Shape.read_takes ?_ room
  intro slot member room
  simp only [shape, List.mem_singleton] at member
  subst member
  exact (Json.readList_takes (fun inner => (ChainConfig.shape_takes inner).value) room).then_pure

/-! ## The front of a file -/

/-- A reader that takes containers gives what it reads from the one in front, whatever follows. -/
theorem Json.runReader_takes {r : Json.Reader α} (takes : r.Takes true fun _ => Spaced ContainerText)
    {content : List UInt8} {a : α} (decoded : Json.runReader r content = .ok a) :
    ∃ doc rest, content = doc ++ rest ∧ Spaced ContainerText doc ∧
      ∀ rest', Json.runReader r (doc ++ rest') = .ok a := by
  obtain ⟨rest, read⟩ := Json.runReader_eq_ok_iff.mp decoded
  obtain ⟨doc, rfl, container, -, same⟩ := takes _ content a rest rfl read
  refine ⟨doc, rest, rfl, container, fun rest' => ?_⟩
  exact Json.runReader_eq_ok_iff.mpr ⟨rest', same doc.length rest' (Nat.le_refl _) (.inl rfl)⟩

theorem RelayerConfig.ofContent_front {file : FilePath} {content : List UInt8} {s : RelayerConfig}
    (held : RelayerConfig.ofContent file content = .ok s) : ∃ doc rest, content = doc ++ rest ∧
      Spaced ContainerText doc ∧ ∀ rest', RelayerConfig.ofContent file (doc ++ rest') = .ok s := by
  obtain ⟨decoded, once⟩ := ofContent_eq_ok_iff.mp held
  obtain ⟨doc, rest, split, container, same⟩ := Json.runReader_takes (shape_takes Json.depthLimit) decoded
  exact ⟨doc, rest, split, container, fun rest' => ofContent_eq_ok_iff.mpr ⟨same rest', once⟩⟩

theorem ChainConfig.ofContent_front {file : FilePath} {content : List UInt8} {c : ChainConfig}
    (held : ChainConfig.ofContent file content = .ok c) : ∃ doc rest, content = doc ++ rest ∧
      Spaced ContainerText doc ∧ ∀ rest', ChainConfig.ofContent file (doc ++ rest') = .ok c := by
  have decoded := ofContent_eq_ok_iff.mp held
  obtain ⟨doc, rest, split, container, same⟩ := Json.runReader_takes (shape_takes Json.depthLimit) decoded
  exact ⟨doc, rest, split, container, fun rest' => ofContent_eq_ok_iff.mpr (same rest')⟩

theorem ChainConfig.ofContent_append {file : FilePath} {content : List UInt8} {c : ChainConfig}
    (held : ChainConfig.ofContent file content = .ok c) (more : List UInt8) :
    ChainConfig.ofContent file (content ++ more) = .ok c := by
  obtain ⟨doc, rest, rfl, -, same⟩ := ofContent_front held
  rw [List.append_assoc]
  exact same (rest ++ more)

/-- What is loaded from a file is loaded from a document in front of its content, whatever follows; and the
content is a document itself exactly if only blanks follow. -/
def LoadsFromFront (load : Program (Except ConfigError α)) (file : FilePath) (content : List UInt8) (a : α) : Prop :=
  ∃ doc rest, content = doc ++ rest ∧ Json.Document doc ∧ (Json.Document content ↔ Json.Blank rest) ∧
    ∀ w rest', w.files.read file = .ok (doc ++ rest') → World.run load w = (.finished (.ok a), w)

theorem loadsFromFront_of_run {load : Program (Except ConfigError α)} {of : List UInt8 → Except ConfigError α}
    {file : FilePath}
    (runs : ∀ w content, w.files.read file = .ok content → World.run load w = (.finished (of content), w))
    (front : ∀ content a, of content = .ok a →
      ∃ doc rest, content = doc ++ rest ∧ Spaced ContainerText doc ∧ ∀ rest', of (doc ++ rest') = .ok a)
    {w : World} {content : List UInt8} (here : w.files.read file = .ok content) {a : α}
    (loaded : (World.run load w).1 = .finished (.ok a)) : LoadsFromFront load file content a := by
  rw [runs w content here, Ending.finished.injEq] at loaded
  obtain ⟨doc, rest, rfl, container, same⟩ := front content a loaded
  have whole : Json.Document (doc ++ []) := (Json.document_append_iff container).mpr Json.blank_nil
  rw [List.append_nil] at whole
  refine ⟨doc, rest, rfl, whole, Json.document_append_iff container, fun w' rest' here' => ?_⟩
  rw [runs w' _ here', same]

/-- Settings and definitions are loaded from the front of their files. -/
theorem loads_from_front {file : FilePath} {w : World} {content : List UInt8}
    (here : w.files.read file = .ok content) :
    (∀ s, (World.run (loadSettings file) w).1 = .finished (.ok s) →
      LoadsFromFront (loadSettings file) file content s) ∧
    (∀ c, (World.run (loadChain file) w).1 = .finished (.ok c) →
      LoadsFromFront (loadChain file) file content c) := by
  refine ⟨fun s loaded => ?_, fun c loaded => ?_⟩
  · refine loadsFromFront_of_run (fun w _ => run_loadSettingsIn file w) ?_ here loaded
    exact fun _ _ => RelayerConfig.ofContent_front
  · refine loadsFromFront_of_run (fun w _ => run_loadChainIn file w) ?_ here loaded
    exact fun _ _ => ChainConfig.ofContent_front

/-! ## A file with something behind its document -/

/-- Settings without chains, with a letter behind them. -/
def trailing : List UInt8 :=
  utf8Bytes "\x7b\x7d x"

/-- A chain that no transaction is sent to. -/
def plainChain : ChainConfig where
  name := "a"
  enabled := true
  chain := ⟨"m", .null⟩
  signer := none
  prover := ⟨"m", .null⟩

/-- Both kinds of settings with a letter behind them. -/
def trailingWorld : World :=
  .holding ⟨[(FilePath.ofString "c", .file trailing),
    (FilePath.ofString "d", .file (utf8Bytes plainChain.toValue.pretty ++ [0x78]))], []⟩

theorem ofContent_trailing (file : FilePath) : RelayerConfig.ofContent file trailing = .ok .empty := by
  rfl

theorem ofContent_plainChain (file : FilePath) (more : List UInt8) :
    ChainConfig.ofContent file (utf8Bytes plainChain.toValue.pretty ++ more) = .ok plainChain := by
  have fits : plainChain.Each (·.config.Fits 125) := ⟨.null, nofun, .null⟩
  exact ChainConfig.ofContent_append (ChainConfig.ofContent_pretty fits file) more

theorem loads_from_front_trailing :
    LoadsFromFront (loadSettings (FilePath.ofString "c")) (FilePath.ofString "c") trailing .empty ∧
      LoadsFromFront (loadChain (FilePath.ofString "d")) (FilePath.ofString "d")
        (utf8Bytes plainChain.toValue.pretty ++ [0x78]) plainChain := by
  have settings : trailingWorld.files.read (FilePath.ofString "c") = .ok trailing := rfl
  have chain : trailingWorld.files.read (FilePath.ofString "d") =
      .ok (utf8Bytes plainChain.toValue.pretty ++ [0x78]) := rfl
  refine ⟨(loads_from_front settings).1 _ ?_, (loads_from_front chain).2 _ ?_⟩
  · rw [run_loadSettingsIn _ _ settings, ofContent_trailing]
  · rw [run_loadChainIn _ _ chain, ofContent_plainChain]

/-- What is accepted need not be a document. -/
theorem loads_no_document : trailingWorld.files.read (FilePath.ofString "c") = .ok trailing ∧
    (World.run (loadSettings (FilePath.ofString "c")) trailingWorld).1 = .finished (.ok .empty) ∧
      ¬Json.Document trailing := by
  have settings : trailingWorld.files.read (FilePath.ofString "c") = .ok trailing := rfl
  refine ⟨settings, ?_, fun document => ?_⟩
  · rw [run_loadSettingsIn _ _ settings, ofContent_trailing]
  · have container : Spaced ContainerText [0x7B, 0x7D] := .intro Json.blank_nil (.object (.done Json.blank_nil))
    have blank : Json.Blank [0x20, 0x78] := (Json.document_append_iff container).mp document
    exact absurd (blank 0x78 (by decide)) (by decide)

end ChainRelay
