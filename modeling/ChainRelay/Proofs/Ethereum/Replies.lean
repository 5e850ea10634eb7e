import ChainRelay.Ethereum.Rpc
import ChainRelay.Proofs.Json.Documents
import ChainRelay.Proofs.Json.Fields
import ChainRelay.Proofs.Json.WholeTexts

/-! # What the replies of a node mean

The body of a reply is an object. Its `result` counts if it is a string, its `error` if it has a whole number
as code and a string as message; other members and their order count for nothing, and neither do blanks and
escapes. An error counts more than a result.
-/

namespace ChainRelay.Ethereum

open Json Json.Reader

variable {text body : List UInt8} {entries : List (String × List UInt8)}

/-! ## Reported errors -/

/-- The text of a whole number of 64 bits with sign. -/
def Int64Text (text : List UInt8) (n : Int) : Prop :=
  text = utf8Bytes (Number.intText n) ∧ -0x8000000000000000 ≤ n ∧ n < 0x8000000000000000

theorem number_of_head {b : UInt8} (value : ValueText text) (head : text.head? = some b)
    (begins : b = 0x2D ∨ isDigit b = true) : NumberText text := by
  cases value with
  | number number => exact number
  | null | yes | no | string | array | object =>
      cases head
      simp [isDigit] at begins

theorem readInt64_decodes : readInt64.Decodes Int64Text := by
  intro ws text rest blank value ends ⟨n, left⟩
  obtain ⟨b, more, split, token, -⟩ := value.head
  rw [List.append_assoc, split, List.cons_append, readInt64, run_bind (firstOfValue_token blank token _),
    ← List.cons_append, ← split]
  -- The first byte tells numbers from all other values.
  by_cases begins : b = 0x2D ∨ isDigit b = true
  · have number := number_of_head value (split ▸ rfl) begins
    rw [if_pos begins, bind_eq_ok_iff]
    constructor
    · rintro ⟨m, middle, read, later⟩
      cases m with
      | float x => cases later
      | int m fits =>
          obtain ⟨rfl, rfl⟩ := (readNumber_int_iff number ends).mp read
          dsimp only at later
          split at later
          · rename_i small
            cases later
            exact ⟨⟨rfl, fits.1, small⟩, rfl⟩
          · cases later
    · rintro ⟨⟨written, least, small⟩, rfl⟩
      have fits : -0x8000000000000000 ≤ n ∧ n < 0x10000000000000000 := by
        dsimp only at least small
        omega
      refine ⟨.int n fits, left, (readNumber_int_iff number ends).mpr ⟨written, rfl⟩, ?_⟩
      dsimp only at small ⊢
      rw [if_pos small]
      rfl
  · rw [if_neg begins]
    refine iff_of_false not_failOnNext ?_
    rintro ⟨⟨written, -⟩, -⟩
    refine begins ?_
    obtain ⟨c, others, same, starts⟩ := startsNumber_intText n
    rw [← written, split] at same
    exact (List.cons.inj same).1 ▸ starts

/-- The text of an error that a node reports: an object with one code and one message, whatever else it holds, or
a list of these two. -/
def NodeError.Text (text : List UInt8) (e : NodeError) : Prop :=
  (∃ body entries, text = 0x7B :: body ++ [0x7D] ∧ Entries true entries body ∧
    Member Int64Text "code" entries (some e.code) ∧ Member StringLiteral "message" entries (some e.message)) ∨
  ∃ body code message, text = 0x5B :: body ++ [0x5D] ∧ Items true [code, message] body ∧
    Int64Text code e.code ∧ StringLiteral message e.message

namespace NodeError

def codePlace : Shape.Place Draft Int where
  name := "code"
  means := Int64Text
  get := (·.code)
  put n d := { d with code := some n }

def messagePlace : Shape.Place Draft String where
  name := "message"
  means := StringLiteral
  get := (·.message)
  put s d := { d with message := some s }

theorem decodes (room : Nat) : shape.Decodes room (Shape.Puts codePlace messagePlace) := by
  intro slot member
  simp only [shape, List.mem_cons, List.not_mem_nil, or_false] at member
  rcases member with rfl | rfl
  · refine (readInt64_decodes.then_pure _).congr fun text put => ?_
    simp [Shape.Puts, codePlace, messagePlace]
  · refine (readText_decodes.then_pure _).congr fun text put => ?_
    simp [Shape.Puts, codePlace, messagePlace]

theorem code_beside_message : shape.Beside codePlace messagePlace where
  declared := ⟨_, List.mem_cons_self, rfl⟩
  shows := by simp [shape, codePlace]
  apart := by decide
  got _ _ := rfl
  kept _ _ := rfl
  unique := readInt64_decodes.unique

theorem message_beside_code : shape.Beside messagePlace codePlace where
  declared := ⟨_, List.mem_cons_of_mem _ List.mem_cons_self, rfl⟩
  shows := by simp [shape, messagePlace]
  apart := by decide
  got _ _ := rfl
  kept _ _ := rfl
  unique := readText_decodes.unique

theorem completes_iff {d : Draft} {e : NodeError} :
    shape.Completes d e ↔ d.code = some e.code ∧ d.message = some e.message := by
  obtain ⟨code, message⟩ := d
  obtain ⟨n, s⟩ := e
  cases code <;> cases message <;> simp [Shape.Completes, shape]

theorem inOrder_iff {texts : List (List UInt8)} {e : NodeError} :
    (∃ record, Shape.InOrder (Shape.Puts codePlace messagePlace) shape.slots shape.empty texts record ∧
      shape.Completes record e) ↔
      ∃ code message, texts = [code, message] ∧ Int64Text code e.code ∧ StringLiteral message e.message := by
  constructor
  · rintro ⟨record, inOrder, completes⟩
    obtain ⟨hasCode, hasMessage⟩ := completes_iff.mp completes
    cases inOrder with
    | @next _ _ _ _ code _ _ reads more =>
        cases more with
        | @next _ _ _ _ message _ _ reads' more =>
            cases more
            obtain ⟨-, n, written, rfl⟩ | ⟨named, -⟩ := reads
            · obtain ⟨named, -⟩ | ⟨-, s, literal, rfl⟩ := reads'
              · simp [codePlace] at named
              · cases hasCode
                cases hasMessage
                exact ⟨code, message, rfl, written, literal⟩
            · simp [messagePlace] at named
  · rintro ⟨code, message, rfl, written, literal⟩
    refine ⟨_, .next (.inl ⟨rfl, e.code, written, rfl⟩) (.next (.inr ⟨rfl, e.message, literal, rfl⟩) .done), ?_⟩
    exact completes_iff.mpr ⟨rfl, rfl⟩

theorem recordText_iff {e : NodeError} : shape.RecordText (Shape.Puts codePlace messagePlace) text e ↔ Text text e := by
  have objects {body : List UInt8} {entries : List (String × List UInt8)} (listed : Entries true entries body) :
      (∃ record, shape.Gathers (Shape.Puts codePlace messagePlace) shape.empty entries record ∧
        record.code = some e.code ∧ record.message = some e.message) ↔
      Member Int64Text "code" entries (some e.code) ∧ Member StringLiteral "message" entries (some e.message) :=
    Shape.gathers_iff code_beside_message.keeps message_beside_code.keeps_second
      (by simp [shape, codePlace, messagePlace]) rfl rfl listed.values
  constructor
  · rintro (⟨body, entries, record, rfl, listed, gathers, completes⟩ | ⟨body, texts, record, rfl, listed, filled⟩)
    · exact .inl ⟨body, entries, rfl, listed, (objects listed).mp ⟨record, gathers, completes_iff.mp completes⟩⟩
    · obtain ⟨code, message, rfl, fields⟩ := inOrder_iff.mp ⟨record, filled⟩
      exact .inr ⟨body, code, message, rfl, listed, fields⟩
  · rintro (⟨body, entries, rfl, listed, members⟩ | ⟨body, code, message, rfl, listed, fields⟩)
    · obtain ⟨record, gathers, fields⟩ := (objects listed).mpr members
      exact .inl ⟨body, entries, record, rfl, listed, gathers, completes_iff.mpr fields⟩
    · obtain ⟨record, filled⟩ := inOrder_iff.mpr ⟨code, message, rfl, fields⟩
      exact .inr ⟨body, _, record, rfl, listed, filled⟩

/-- A reported error is read from its texts. -/
theorem read_decodes (room : Nat) : (shape.read (room + 1)).Decodes Text :=
  (Shape.read_decodes rfl (by simp [shape]) (by simp [shape]) (decodes room)).congr fun _ _ => recordText_iff

end NodeError

/-! ## Bodies -/

namespace Answer

def resultPlace : Shape.Place Draft (Option String) where
  name := "result"
  means := OptionalText StringLiteral
  get := (·.result)
  put r d := { d with result := some r }

def errorPlace : Shape.Place Draft (Option NodeError) where
  name := "error"
  means := OptionalText NodeError.Text
  get := (·.error)
  put e d := { d with error := some e }

theorem decodes (room : Nat) : shape.Decodes (room + 1) (Shape.Puts resultPlace errorPlace) := by
  intro slot member
  simp only [shape, List.mem_cons, List.not_mem_nil, or_false] at member
  rcases member with rfl | rfl
  · refine ((readOptional_decodes readText_decodes).then_pure _).congr fun text put => ?_
    simp [Shape.Puts, resultPlace, errorPlace]
  · refine ((readOptional_decodes (NodeError.read_decodes room)).then_pure _).congr fun text put => ?_
    simp [Shape.Puts, resultPlace, errorPlace]

theorem result_beside_error : shape.Beside resultPlace errorPlace where
  declared := ⟨_, List.mem_cons_self, rfl⟩
  shows := by simp [shape, resultPlace]
  apart := by decide
  got _ _ := rfl
  kept _ _ := rfl
  unique := (readOptional_decodes readText_decodes).unique

theorem error_beside_result : shape.Beside errorPlace resultPlace where
  declared := ⟨_, List.mem_cons_of_mem _ List.mem_cons_self, rfl⟩
  shows := by simp [shape, errorPlace]
  apart := by decide
  got _ _ := rfl
  kept _ _ := rfl
  unique := (readOptional_decodes (NodeError.read_decodes 0)).unique

theorem completes_iff {d : Draft} {a : Answer} :
    shape.Completes d a ↔ a = ⟨d.result.getD none, d.error.getD none⟩ := by
  have finish : shape.finish d = some ⟨d.result.getD none, d.error.getD none⟩ := rfl
  rw [Shape.Completes, finish, Option.some.injEq, eq_comm (b := a), and_iff_right]
  simp [shape]

end Answer

/-- A body that is one object with these members, and blanks around it. -/
def IsObject (entries : List (String × List UInt8)) (body : List UInt8) : Prop :=
  ∃ ws text ws', Blank ws ∧ Blank ws' ∧ Entries true entries text ∧ body = ws ++ (0x7B :: text ++ [0x7D]) ++ ws'

/-- A body without repeated names is read as what its two members hold. -/
theorem Answer.decode_eq_ok_iff (object : IsObject entries body) (distinct : (entries.map (·.1)).Nodup)
    {a : Answer} : Answer.decode body = .ok a ↔
      Holds StringLiteral "result" entries a.result ∧ Holds NodeError.Text "error" entries a.error := by
  obtain ⟨ws, text, ws', blank, blank', listed, rfl⟩ := object
  have members {o : Option (Option String)} {o' : Option (Option NodeError)} :
      (∃ record, shape.Gathers (Shape.Puts resultPlace errorPlace) shape.empty entries record ∧ record.result = o ∧
        record.error = o') ↔
      Member (OptionalText StringLiteral) "result" entries o ∧
        Member (OptionalText NodeError.Text) "error" entries o' :=
    Shape.gathers_iff result_beside_error.keeps error_beside_result.keeps_second
      (by simp [shape, resultPlace, errorPlace]) rfl rfl listed.values
  have read {result : Answer × List UInt8} :
      shape.read depthLimit (ws ++ (0x7B :: text ++ [0x7D]) ++ ws') = .ok result ↔ _ :=
    Shape.read_object_iff rfl (decodes 125) listed blank
  rw [holds_iff distinct, holds_iff distinct, decode, runReader_eq_ok_iff]
  constructor
  · rintro ⟨left, whole⟩
    obtain ⟨b, middle, first, later⟩ := bind_eq_ok_iff.mp whole
    obtain ⟨_, _, _, ⟨⟩⟩ := bind_eq_ok_iff.mp later
    obtain ⟨⟨record, gathers, completes⟩, -⟩ := read.mp first
    obtain ⟨result, error⟩ := members.mp ⟨record, gathers, rfl, rfl⟩
    obtain rfl : a = _ := completes_iff.mp completes
    exact ⟨⟨record.result, result, rfl⟩, ⟨record.error, error, rfl⟩⟩
  · obtain ⟨held, held'⟩ := a
    rintro ⟨⟨r, result, rfl⟩, ⟨e, error, rfl⟩⟩
    obtain ⟨record, gathers, rfl, rfl⟩ := members.mpr ⟨result, error⟩
    refine ⟨[], bind_eq_ok_iff.mpr ⟨_, ws', read.mpr ⟨⟨record, gathers, completes_iff.mpr rfl⟩, rfl⟩, ?_⟩⟩
    exact bind_eq_ok_iff.mpr ⟨(), [], readEnd_blank blank', rfl⟩

end ChainRelay.Ethereum
