import ChainRelay.Proofs.Json.ContainerTexts
import ChainRelay.Proofs.Json.Refusing

/-! # Whole documents

A text that is read as a whole is one document, with nothing but blanks behind its value. A value that fits is
read back from the text that is printed of it, so different values have different texts.
-/

namespace ChainRelay.Json

open Reader

theorem readEnd_blank {ws : List UInt8} (blank : Blank ws) : readEnd ws = .ok ((), []) := by
  have ended : nextToken (ws ++ []) = .ok (none, []) := nextToken_append blank nofun
  rw [List.append_nil] at ended
  rw [readEnd, run_bind ended]
  rfl

theorem readEnd_eq_ok_iff {bytes rest : List UInt8} :
    readEnd bytes = .ok ((), rest) ↔ Blank bytes ∧ rest = [] := by
  constructor
  · intro read
    obtain ⟨token, middle, first, later⟩ := bind_eq_ok_iff.mp read
    obtain ⟨rfl, rfl⟩ : (bytes.dropWhile isJsonBlank).head? = token ∧ bytes.dropWhile isJsonBlank = middle := by
      simpa [nextToken] using first
    cases passed : bytes.dropWhile isJsonBlank with
    | nil =>
        rw [passed] at later
        cases later
        exact ⟨List.dropWhile_eq_nil_iff.mp passed, rfl⟩
    | cons b rest =>
        rw [passed] at later
        cases later
  · rintro ⟨blank, rfl⟩
    exact readEnd_blank blank

namespace Value

/-- A text is read as a value exactly if it begins with the value and only blanks follow. -/
theorem parse_eq_ok_iff {input : List UInt8} {v : Value} :
    parse input = .ok v ↔ ∃ ws, readValue depthLimit input = .ok (v, ws) ∧ Blank ws := by
  rw [parse, runReader_eq_ok_iff]
  constructor
  · rintro ⟨rest, read⟩
    obtain ⟨w, ws, first, later⟩ := bind_eq_ok_iff.mp read
    obtain ⟨_, _, ended, ⟨⟩⟩ := bind_eq_ok_iff.mp later
    exact ⟨ws, first, (readEnd_eq_ok_iff.mp ended).1⟩
  · rintro ⟨ws, read, blank⟩
    exact ⟨[], bind_eq_ok_iff.mpr ⟨v, ws, read, bind_eq_ok_iff.mpr ⟨(), [], readEnd_blank blank, rfl⟩⟩⟩

/-- What is read as a value is a document. -/
theorem document_of_parse {input : List UInt8} {v : Value} (parsed : parse input = .ok v) : Document input := by
  obtain ⟨ws, read, blank⟩ := parse_eq_ok_iff.mp parsed
  obtain ⟨text, rfl, spaced, -⟩ := readValue_takes depthLimit _ input v ws rfl read
  exact ⟨text, ws, spaced, blank, rfl⟩

/-- A value that fits is read back from its text. -/
theorem Fits.parse_compact {v : Value} (fits : v.Fits depthLimit) : parse (utf8Bytes v.compact) = .ok v :=
  parse_eq_ok_iff.mpr ⟨[], fits.reads.run_compact, blank_nil⟩

end Value

end ChainRelay.Json
