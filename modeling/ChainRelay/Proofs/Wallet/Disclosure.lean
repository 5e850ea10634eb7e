import ChainRelay.Hd.Signer
import ChainRelay.Proofs.Json.Refusing
import ChainRelay.Proofs.Registration.Building
import ChainRelay.Proofs.Wallet.Words

/-! # What the wallet module tells about a phrase

A signer is refused at one of five checks. What is then reported depends on the path and on the check,
but also on the word that is not in the list, or on the whole phrase when its words do not fit together.
The texts for diagnostics show nothing of the phrase.
-/

namespace ChainRelay.Hd

open Wallet

/-- Where a configuration is refused. -/
inductive Check where
  | path
  /-- The word at this place is not in the list; those before it are. -/
  | word (place : Nat)
  /-- No phrase has so many words. -/
  | count (words : Nat)
  /-- The words, so many of them, are no phrase. -/
  | checksum (words : Nat)
  | derivation
  deriving DecidableEq, Repr

namespace Config

variable {c c' : Config} {k : Check}

/-- The words of the phrase. -/
def words (c : Config) : List String :=
  c.phrase.splitOn " "

/-- The configuration passes the checks before this one, and fails this one. -/
inductive RefusedAt (c : Config) : Check → Prop where
  | path (unreadable : readPath? c.path = none) : RefusedAt c .path
  | word {steps : DerivationPath} {front rest : List String} {word : String} {place : Nat}
      (readable : readPath? c.path = some steps) (split : c.words = front ++ word :: rest)
      (known : ∀ w ∈ front, (wordIndex? w).isSome) (unknown : wordIndex? word = none) (here : front.length = place) :
      RefusedAt c (.word place)
  | count {steps : DerivationPath} {words : Nat} (readable : readPath? c.path = some steps)
      (known : ∀ w ∈ c.words, (wordIndex? w).isSome) (count : c.words.length = words)
      (wrong : entropySize? (byteCount words) = none) : RefusedAt c (.count words)
  | checksum {steps : DerivationPath} {words size : Nat} (readable : readPath? c.path = some steps)
      (known : ∀ w ∈ c.words, (wordIndex? w).isSome) (count : c.words.length = words)
      (fits : entropySize? (byteCount words) = some size) (wrong : checkPhrase c.phrase ≠ .ok ()) :
      RefusedAt c (.checksum words)
  | derivation {steps : DerivationPath} (readable : readPath? c.path = some steps)
      (good : checkPhrase c.phrase = .ok ())
      (none : (ExtendedKey.master? (seedOf c.phrase)).bind (·.derive? steps) = none) : RefusedAt c .derivation

/-- What is wrong, as far as the path tells. -/
def headline (path : String) : Check → String
  | .path => "invalid derivation path `" ++ path ++ "`"
  | _ => "invalid mnemonic"

/-- Why it is wrong. -/
def detail (c : Config) : Check → String
  | .path => "Malformatted index during derivation: " ++ c.path
  | .word place => (PhraseError.unknownWord (c.words.getD place "")).message
  | .count words => (PhraseError.wrongLength (byteCount words)).message
  | .checksum _ => (PhraseError.wrongPhrase c.phrase).message
  | .derivation => "signature error"

/-- The report of a check. -/
def reportAt (c : Config) (k : Check) : Report :=
  .because (headline c.path k) (.plain (c.detail k))

/-- The check finds the same in both: the same unknown word, or the same words that are no phrase. -/
def Alike (c c' : Config) : Check → Prop
  | .word place => c.words[place]? = c'.words[place]?
  | .checksum _ => c.phrase = c'.phrase
  | _ => True

theorem getD_words {front rest : List String} {word : String} {place : Nat} (split : c.words = front ++ word :: rest)
    (here : front.length = place) : c.words.getD place "" = word := by
  rw [split, ← here]
  simp

theorem detail_word {front rest : List String} {word : String} {place : Nat} (split : c.words = front ++ word :: rest)
    (here : front.length = place) : c.detail (.word place) = (PhraseError.unknownWord word).message :=
  congrArg (fun word => (PhraseError.unknownWord word).message) (getD_words split here)

theorem ofChecks_wrong {steps : DerivationPath} {e : PhraseError} {derived : DerivationPath → Option ExtendedKey} :
    Signer.ofChecks c (some steps) (.error e) derived = .error (.because "invalid mnemonic" (.plain e.message)) := rfl

theorem ofChecks_underived {steps : DerivationPath} {derived : DerivationPath → Option ExtendedKey}
    (none : derived steps = none) : Signer.ofChecks c (some steps) (.ok ()) derived =
      .error (.because "invalid mnemonic" (.plain "signature error")) := by
  simp [Signer.ofChecks, none]

theorem ofConfig_of_refusedAt (refused : c.RefusedAt k) : Signer.ofConfig c = .error (c.reportAt k) := by
  rw [Signer.ofConfig]
  cases refused with
  | path unreadable =>
      rw [unreadable]
      rfl
  | word readable split known unknown here =>
      have checked : checkPhrase c.phrase = .error (.unknownWord _) := checkPhrase_unknown split known unknown
      rw [readable, checked, ofChecks_wrong, reportAt, detail_word split here]
      rfl
  | count readable known count wrong =>
      subst count
      have checked := checkPhrase_known known
      rw [words] at wrong
      simp only [wrong] at checked
      rw [readable, checked]
      rfl
  | checksum readable known count fits wrong =>
      subst count
      have checked := checkPhrase_known known
      rw [words] at fits
      simp only [fits] at checked
      rw [readable, checked.resolve_left wrong]
      rfl
  | derivation readable good none =>
      rw [readable, good]
      exact ofChecks_underived none

theorem underived_of_ofChecks {steps : DerivationPath} {derived : DerivationPath → Option ExtendedKey} {report : Report}
    (refused : Signer.ofChecks c (some steps) (.ok ()) derived = .error report) : derived steps = none := by
  cases found : derived steps with
  | none => rfl
  | some key =>
      unfold Signer.ofChecks at refused
      dsimp only at refused
      rw [found] at refused
      cases refused

theorem refusedAt_of_readable {steps : DerivationPath} {report : Report} (readable : readPath? c.path = some steps)
    (refused : Signer.ofConfig c = .error report) : ∃ k, c.RefusedAt k := by
  cases first : c.words.find? (fun w => (wordIndex? w).isNone) with
  | some word =>
      obtain ⟨unknown, front, rest, split, known⟩ := List.find?_eq_some_iff_append.mp first
      exact ⟨_, .word readable split (by simpa [Option.isSome_iff_ne_none] using known) (by simpa using unknown) rfl⟩
  | none =>
      have known : ∀ w ∈ c.words, (wordIndex? w).isSome := by
        simpa [Option.isSome_iff_ne_none] using List.find?_eq_none.mp first
      cases size : entropySize? (byteCount c.words.length) with
      | none => exact ⟨_, .count readable known rfl size⟩
      | some size' =>
          by_cases good : checkPhrase c.phrase = .ok ()
          · rw [Signer.ofConfig, readable, good] at refused
            have none := underived_of_ofChecks refused
            exact ⟨_, .derivation readable good none⟩
          · exact ⟨_, .checksum readable known rfl size good⟩

/-- Whatever is refused is refused at one of the checks. -/
theorem ofConfig_error_iff : (∃ report, Signer.ofConfig c = .error report) ↔ ∃ k, c.RefusedAt k := by
  constructor
  · intro ⟨report, refused⟩
    cases readable : readPath? c.path with
    | none => exact ⟨_, .path readable⟩
    | some steps => exact refusedAt_of_readable readable refused
  · intro ⟨k, refused⟩
    exact ⟨_, ofConfig_of_refusedAt refused⟩

theorem getElem?_words {front rest : List String} {word : String} {place : Nat}
    (split : c.words = front ++ word :: rest)
    (here : front.length = place) : c.words[place]? = some word := by
  rw [split, ← here]
  simp

theorem unknownWord_message_inj {word word' : String} :
    (PhraseError.unknownWord word).message = (PhraseError.unknownWord word').message ↔ word = word' := by
  change "the word `" ++ word ++ "` is invalid" = "the word `" ++ word' ++ "` is invalid" ↔ _
  rw [String.append_left_inj, String.append_right_inj]

theorem wrongPhrase_message_inj {phrase phrase' : String} :
    (PhraseError.wrongPhrase phrase).message = (PhraseError.wrongPhrase phrase').message ↔ phrase = phrase' := by
  change "the phrase `" ++ phrase ++ "` is invalid" = "the phrase `" ++ phrase' ++ "` is invalid" ↔ _
  rw [String.append_left_inj, String.append_right_inj]

/-- What the reports of one check tell apart is what the check finds. -/
theorem detail_eq_iff (path : c.path = c'.path) (first : c.RefusedAt k) (second : c'.RefusedAt k) :
    c.detail k = c'.detail k ↔ c.Alike c' k := by
  cases first with
  | path => exact iff_of_true (congrArg ("Malformatted index during derivation: " ++ ·) path) trivial
  | count | derivation => exact iff_of_true rfl trivial
  | checksum => exact wrongPhrase_message_inj
  | word _ split _ _ here =>
      cases second with
      | word _ split' _ _ here' =>
          rw [detail_word split here, detail_word split' here', unknownWord_message_inj, Alike,
            getElem?_words split here, getElem?_words split' here', Option.some.injEq]

theorem chain_reportAt (c : Config) (k : Check) : (c.reportAt k).chain = [headline c.path k, c.detail k] := rfl

theorem line_reportAt (c : Config) (k : Check) : (c.reportAt k).line = headline c.path k ++ ": " ++ c.detail k := rfl

theorem chain_eq_iff (path : c.path = c'.path) (first : c.RefusedAt k) (second : c'.RefusedAt k) :
    (c.reportAt k).chain = (c'.reportAt k).chain ↔ c.Alike c' k := by
  rw [← detail_eq_iff path first second, chain_reportAt, chain_reportAt, path, List.cons.injEq, List.cons.injEq]
  simp only [true_and, and_true]

theorem message_eq_iff (path : c.path = c'.path) (first : c.RefusedAt k) (second : c'.RefusedAt k) (id : String) :
    (Error.configuration .signer id (c.reportAt k)).message =
      (Error.configuration .signer id (c'.reportAt k)).message ↔ c.Alike c' k := by
  rw [← detail_eq_iff path first second]
  change _ ++ (c.reportAt k).line = _ ++ (c'.reportAt k).line ↔ _
  rw [String.append_right_inj, line_reportAt, line_reportAt, path, String.append_right_inj]

theorem causes_eq_iff (path : c.path = c'.path) (first : c.RefusedAt k) (second : c'.RefusedAt k) (id : String) :
    (Error.configuration .signer id (c.reportAt k)).report.chain =
      (Error.configuration .signer id (c'.reportAt k)).report.chain ↔ c.Alike c' k := by
  have told : (Error.configuration .signer id (c.reportAt k)).report.chain =
      (Error.configuration .signer id (c.reportAt k)).message :: (c.reportAt k).chain := rfl
  have told' : (Error.configuration .signer id (c'.reportAt k)).report.chain =
      (Error.configuration .signer id (c'.reportAt k)).message :: (c'.reportAt k).chain := rfl
  rw [told, told', List.cons.injEq, chain_eq_iff path first second, message_eq_iff path first second, and_self]

end Config

/-- The registry builds the signer of a configuration from a value under this id. -/
structure Builds (r : Registry) (id : String) (v : Json.Value) (c : Config) : Prop where
  found : ∃ n, r.resolve .signer id = .ok (n, hdModule.provider)
  valid : r.validate .signer ⟨id, v⟩ = .ok ()
  read : Config.ofValue v = .ok c

/-- To derive a key changes nothing but the log. -/
theorem run_deriveSigner (c : Config) (w : World) :
    ∃ entries, World.run (deriveSigner c) w = (.finished (Signer.ofConfig c), w.relog entries) := by
  unfold deriveSigner
  cases Signer.ofConfig c with
  | error report => exact ⟨w.logged, rfl⟩
  | ok s =>
      obtain ⟨entries, logged⟩ := World.run_log .debug .hd
        ("derived hd key address=" ++ s.address.checksumText ++ " path=" ++ c.path) w
      exact ⟨entries, World.run_bind_finished logged⟩

theorem run_factory {v : Json.Value} {c : Config} (read : Config.ofValue v = .ok c) (w : World) :
    ∃ entries, World.run (factory v) w = (.finished ((Signer.ofConfig c).map Signer.backend), w.relog entries) := by
  obtain ⟨entries, derived⟩ := run_deriveSigner c w
  unfold factory
  rw [read]
  exact ⟨entries, World.run_bind_finished derived⟩

/-- The registry hands on what the derivation ends with. -/
theorem Builds.ending {r : Registry} {id : String} {v : Json.Value} {c : Config} (builds : Builds r id v c)
    (w : World) : (World.run (r.buildBackend .signer ⟨id, v⟩) w).1 =
      .finished (Registry.accept .signer id ((Signer.ofConfig c).map Signer.backend)) := by
  obtain ⟨n, found⟩ := builds.found
  obtain ⟨n', p, same, offered⟩ := Registry.factoryFor_of_valid builds.valid
  cases found.symm.trans same
  obtain ⟨entries, ran⟩ := Registry.run_buildBackend offered w
  obtain ⟨_, made⟩ := run_factory builds.read (w.noting ⟨n, .signer, v⟩)
  rw [ran, Registry.called, made]
  rfl

/-- A refused configuration makes the registry fail with its report. -/
theorem Builds.run_buildBackend {r : Registry} {id : String} {v : Json.Value} {c : Config} {report : Report}
    (builds : Builds r id v c) (refused : Signer.ofConfig c = .error report) (w : World) :
    (World.run (r.buildBackend .signer ⟨id, v⟩) w).1 = .finished (.error (.configuration .signer id report)) := by
  rw [builds.ending, refused]
  rfl

theorem Config.debugText_eq {c c' : Config} (path : c.path = c'.path) : c.debugText = c'.debugText := by
  obtain ⟨mnemonic, _⟩ := c
  cases path
  rfl

theorem Signer.path_ofChecks {c : Config} {s : Signer} {path : Option DerivationPath}
    {checked : Except PhraseError Unit}
    {derived : DerivationPath → Option ExtendedKey} (made : ofChecks c path checked derived = .ok s) :
    s.path = c.path := by
  unfold ofChecks at made
  match path, checked, made with
  | some steps, .ok (), made =>
      cases found : derived steps <;> simp only [found] at made <;> cases made
      rfl

theorem Signer.debugText_eq {s s' : Signer} (path : s.path = s'.path) (address : s.address = s'.address) :
    s.debugText = s'.debugText := by
  obtain ⟨secret, _, _⟩ := s
  cases path
  cases address
  rfl

/-- Two configurations with one path. If they are refused at one check, then the registry and the module report
the same of both exactly when the check finds the same: the word that is not in the list, or the words that are
no phrase. Diagnostics show the path, and the address of a signer. -/
theorem refusals_tell (c c' : Config) (path : c.path = c'.path) :
    (∀ k, c.RefusedAt k → c'.RefusedAt k →
      ∃ report report', Signer.ofConfig c = .error report ∧ Signer.ofConfig c' = .error report' ∧
        (report.chain = report'.chain ↔ c.Alike c' k) ∧
        ∀ r id v v' w w', Builds r id v c → Builds r id v' c' →
          ∃ e e', (World.run (r.buildBackend .signer ⟨id, v⟩) w).1 = .finished (.error e) ∧
            (World.run (r.buildBackend .signer ⟨id, v'⟩) w').1 = .finished (.error e') ∧
            (e.message = e'.message ↔ c.Alike c' k) ∧ (e.report.chain = e'.report.chain ↔ c.Alike c' k)) ∧
    ((∃ report, Signer.ofConfig c = .error report) ↔ ∃ k, c.RefusedAt k) ∧
    c.debugText = c'.debugText ∧
    ∀ s s', Signer.ofConfig c = .ok s → Signer.ofConfig c' = .ok s' → s.address = s'.address →
      s.debugText = s'.debugText := by
  refine ⟨?_, Config.ofConfig_error_iff, Config.debugText_eq path, ?_⟩
  · intro k first second
    have refused := Config.ofConfig_of_refusedAt first
    have refused' := Config.ofConfig_of_refusedAt second
    refine ⟨_, _, refused, refused', Config.chain_eq_iff path first second, ?_⟩
    intro r id v v' w w' builds builds'
    exact ⟨_, _, builds.run_buildBackend refused w, builds'.run_buildBackend refused' w',
      Config.message_eq_iff path first second id, Config.causes_eq_iff path first second id⟩
  · intro s s' made made' address
    refine Signer.debugText_eq ?_ address
    rw [Signer.path_ofChecks made, Signer.path_ofChecks made', path]

/-- A configuration is read back as it is written. -/
theorem Config.ofValue_toValue (c : Config) : ofValue c.toValue = .ok c := by
  have mnemonic := (Json.readText_reads c.mnemonic).then_pure fun s (d : Draft) => { d with mnemonic := some s }
  have path := (Json.readText_reads c.path).then_pure fun s (d : Draft) => { d with path := some s }
  have reads : Json.Reader.Reads (shape.read Json.depthLimit) c.toValue c :=
    Json.Shape.read_reads (.next rfl rfl mnemonic (.next rfl rfl path .done)) rfl rfl
  simp only [ofValue, readConfig, decodeConfig, Json.runReader, reads.run_compact]

/-- The registry of the wallet module alone. -/
def walletRegistry : Registry :=
  ⟨[hdModule.provider], [((.signer, moduleId), 0)]⟩

theorem walletRegistry_builds (c : Config) : Builds walletRegistry moduleId c.toValue c where
  found := ⟨0, rfl⟩
  valid := rfl
  read := c.ofValue_toValue

section

variable {phrase word : String} {rest : List String}

theorem words_of_splitOn (trimmed : trimBlanks phrase = phrase) (split : phrase.splitOn " " = word :: rest) :
    Config.words ⟨phrase, "m"⟩ = [] ++ word :: rest := by
  rw [Config.words, Config.phrase, trimmed, split]
  rfl

/-- A word with a digit in it is not in the list. -/
theorem refusedAt_first (trimmed : trimBlanks phrase = phrase) (split : phrase.splitOn " " = word :: rest)
    (digit : '7' ∈ word.toList) : Config.RefusedAt ⟨phrase, "m"⟩ (.word 0) := by
  have steps : readPath? "m" = some [] := by
    simp +decide [readPath?, String.splitOn, String.splitOnAux]
  have unknown : wordIndex? word = none := wordIndex?_eq_none digit (by decide) (by decide)
  exact .word steps (words_of_splitOn trimmed split) (by simp) unknown rfl

theorem reportAt_first (trimmed : trimBlanks phrase = phrase) (split : phrase.splitOn " " = word :: rest) :
    Config.reportAt ⟨phrase, "m"⟩ (.word 0) = ⟨"invalid mnemonic", ["the word `" ++ word ++ "` is invalid"]⟩ := by
  have detail : Config.detail ⟨phrase, "m"⟩ (.word 0) = _ := Config.detail_word (words_of_splitOn trimmed split) rfl
  rw [Config.reportAt, detail]
  rfl

end

/-- Two phrases with the same unknown word in front are told alike. -/
theorem refusals_tell_front :
    ∃ e e',
      (World.run (walletRegistry.buildBackend .signer ⟨moduleId, Config.toValue ⟨"7up zoo", "m"⟩⟩)
        (.holding ⟨[], []⟩)).1 = .finished (.error e) ∧
      (World.run (walletRegistry.buildBackend .signer ⟨moduleId, Config.toValue ⟨"7up abandon", "m"⟩⟩)
        (.holding ⟨[], []⟩)).1 = .finished (.error e') ∧
      e.message = e'.message := by
  have split : "7up zoo".splitOn " " = ["7up", "zoo"] := by simp +decide [String.splitOn, String.splitOnAux]
  have split' : "7up abandon".splitOn " " = ["7up", "abandon"] := by
    simp +decide [String.splitOn, String.splitOnAux]
  have first := refusedAt_first (by decide) split (by decide)
  have second := refusedAt_first (by decide) split' (by decide)
  have alike : Config.Alike ⟨"7up zoo", "m"⟩ ⟨"7up abandon", "m"⟩ (.word 0) := by
    rw [Config.Alike, words_of_splitOn (by decide) split, words_of_splitOn (by decide) split']
    rfl
  obtain ⟨_, _, -, -, -, told⟩ :=
    (refusals_tell ⟨"7up zoo", "m"⟩ ⟨"7up abandon", "m"⟩ rfl).1 (.word 0) first second
  obtain ⟨e, e', ran, ran', message, -⟩ := told walletRegistry moduleId _ _ (.holding ⟨[], []⟩)
    (.holding ⟨[], []⟩) (walletRegistry_builds _) (walletRegistry_builds _)
  exact ⟨e, e', ran, ran', message.mpr alike⟩

/-- Two phrases with a wrong first word each: what is reported has that word. -/
theorem refusals_differ :
    Config.RefusedAt ⟨"hunter7", "m"⟩ (.word 0) ∧ Config.RefusedAt ⟨"swordfish7", "m"⟩ (.word 0) ∧
    Signer.ofConfig ⟨"hunter7", "m"⟩ = .error ⟨"invalid mnemonic", ["the word `hunter7` is invalid"]⟩ ∧
    Signer.ofConfig ⟨"swordfish7", "m"⟩ = .error ⟨"invalid mnemonic", ["the word `swordfish7` is invalid"]⟩ := by
  have split : "hunter7".splitOn " " = ["hunter7"] := by simp +decide [String.splitOn, String.splitOnAux]
  have split' : "swordfish7".splitOn " " = ["swordfish7"] := by simp +decide [String.splitOn, String.splitOnAux]
  have first := refusedAt_first (by decide) split (by decide)
  have second := refusedAt_first (by decide) split' (by decide)
  refine ⟨first, second, ?_, ?_⟩
  · rw [Config.ofConfig_of_refusedAt first, reportAt_first (by decide) split]
    rfl
  · rw [Config.ofConfig_of_refusedAt second, reportAt_first (by decide) split']
    rfl

end ChainRelay.Hd
