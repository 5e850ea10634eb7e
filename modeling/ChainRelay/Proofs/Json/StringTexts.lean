import ChainRelay.Json.Skip
import ChainRelay.Proofs.Json.Taking

/-! # The texts of strings

A string ends at the first quote that is not escaped. It is read, and passed over, up to there.
-/

namespace ChainRelay.Json

open Reader

/-- The letters of the short escapes, and the bytes that they stand for. -/
def shortEscapes : List (UInt8 × UInt8) :=
  [(0x22, 0x22), (0x5C, 0x5C), (0x2F, 0x2F), (0x62, 0x08), (0x66, 0x0C), (0x6E, 0x0A), (0x72, 0x0D), (0x74, 0x09)]

/-- What follows a backslash, both halves of a surrogate pair together, and the bytes of its character. -/
inductive EscapeDenotes : List UInt8 → List UInt8 → Prop where
  | short {b out : UInt8} (known : (b, out) ∈ shortEscapes) : EscapeDenotes [b] [out]
  | single {a b c d : UInt8} {n : Nat} (quad : hexQuad a b c d = some n) (scalar : n < 0xD800 ∨ 0xDFFF < n) :
      EscapeDenotes [0x75, a, b, c, d] (String.utf8EncodeChar (Char.ofNat n))
  | pair {a b c d a' b' c' d' : UInt8} {high low : Nat} (quad : hexQuad a b c d = some high)
      (first : 0xD800 ≤ high ∧ high ≤ 0xDBFF) (quad' : hexQuad a' b' c' d' = some low)
      (second : 0xDC00 ≤ low ∧ low ≤ 0xDFFF) :
      EscapeDenotes [0x75, a, b, c, d, 0x5C, 0x75, a', b', c', d']
        (String.utf8EncodeChar (Char.ofNat ((high - 0xD800) * 1024 + (low - 0xDC00) + 0x10000)))

/-- A string after its opening quote, and the bytes of its characters. -/
inductive StringDenotes : List UInt8 → List UInt8 → Prop where
  | close : StringDenotes [0x22] []
  | plain {b : UInt8} {rest out : List UInt8} (quote : b ≠ 0x22) (slash : b ≠ 0x5C) (seen : ¬b < 0x20)
      (more : StringDenotes rest out) : StringDenotes (b :: rest) (b :: out)
  | escape {text rest char out : List UInt8} (escape : EscapeDenotes text char) (more : StringDenotes rest out) :
      StringDenotes (0x5C :: text ++ rest) (char ++ out)

/-- A string in quotes that writes a text. -/
def StringLiteral (text : List UInt8) (s : String) : Prop :=
  ∃ rest, text = 0x22 :: rest ∧ StringDenotes rest (utf8Bytes s)

theorem EscapeDenotes.stringRest {text char more : List UInt8} (escape : EscapeDenotes text char)
    (string : StringRest more) : StringRest (0x5C :: text ++ more) := by
  cases escape with
  | @short b _ known =>
      have letter : b ∈ shortEscapes.map (·.1) := List.mem_map.mpr ⟨_, known, rfl⟩
      exact .escape (.short letter) string
  | single quad => exact .escape (.unicode quad) string
  | pair quad _ quad' =>
      simpa using StringRest.escape (.unicode quad) (.escape (.unicode quad') string)

theorem StringDenotes.stringRest {text out : List UInt8} (denotes : StringDenotes text out) : StringRest text := by
  induction denotes with
  | close => exact .close
  | plain quote slash seen _ ih => exact .plain quote slash seen ih
  | escape escape _ ih => exact escape.stringRest ih

/-- Without quotes, backslashes and control bytes, a string is written as it is. -/
theorem StringDenotes.verbatim {out : List UInt8} (plain : ∀ b ∈ out, b ≠ 0x22 ∧ b ≠ 0x5C ∧ ¬b < 0x20) :
    StringDenotes (out ++ [0x22]) out := by
  induction out with
  | nil => exact .close
  | cons b out ih =>
      obtain ⟨⟨quote, slash, seen⟩, plain⟩ := List.forall_mem_cons.mp plain
      exact .plain quote slash seen (ih plain)

/-! ## Escapes -/

theorem readQuad_eq_ok_iff {bytes rest : List UInt8} {n : Nat} : readQuad bytes = .ok (n, rest) ↔
    ∃ a b c d, bytes = a :: b :: c :: d :: rest ∧ hexQuad a b c d = some n := by
  constructor
  · intro read
    unfold readQuad at read
    split at read
    · rename_i a b c d more
      split at read
      · rename_i m quad
        cases read
        exact ⟨a, b, c, d, rfl, quad⟩
      · cases read
    · cases read
  · rintro ⟨a, b, c, d, rfl, quad⟩
    simp only [readQuad, quad]

theorem readEscape_denotes {text char : List UInt8} (escape : EscapeDenotes text char) (rest : List UInt8) :
    readEscape (text ++ rest) = .ok (char, rest) := by
  have quoted {a b c d : UInt8} {n : Nat} (quad : hexQuad a b c d = some n) (more : List UInt8) :
      readQuad (a :: b :: c :: d :: more) = .ok (n, more) := readQuad_eq_ok_iff.mpr ⟨a, b, c, d, rfl, quad⟩
  have unicode (more : List UInt8) : readEscape (0x75 :: more) = readUnicodeEscape more := rfl
  cases escape with
  | short known =>
      simp only [shortEscapes, List.mem_cons, Prod.mk.injEq, List.not_mem_nil, or_false] at known
      rcases known with ⟨rfl, rfl⟩ | ⟨rfl, rfl⟩ | ⟨rfl, rfl⟩ | ⟨rfl, rfl⟩ | ⟨rfl, rfl⟩ | ⟨rfl, rfl⟩ | ⟨rfl, rfl⟩ |
        ⟨rfl, rfl⟩ <;> rfl
  | single quad scalar =>
      have noLow (n : Nat) (scalar : n < 0xD800 ∨ 0xDFFF < n) : ¬(0xDC00 ≤ n ∧ n ≤ 0xDFFF) := by omega
      have noHigh (n : Nat) (scalar : n < 0xD800 ∨ 0xDFFF < n) (noLow : ¬(0xDC00 ≤ n ∧ n ≤ 0xDFFF)) :
          n < 0xD800 ∨ 0xDBFF < n := by omega
      have low := noLow _ scalar
      simp only [List.cons_append, List.nil_append, unicode, readUnicodeEscape, quoted quad, low, if_false,
        noHigh _ scalar low, if_true]
  | @pair _ _ _ _ _ _ _ _ high low quad first quad' second =>
      have noLow : ¬(0xDC00 ≤ high ∧ high ≤ 0xDFFF) := by omega
      have isHigh : ¬(high < 0xD800 ∨ 0xDBFF < high) := by omega
      simp only [List.cons_append, List.nil_append, unicode, readUnicodeEscape, quoted quad, noLow, isHigh,
        if_false, readSecondSurrogate, ne_eq, not_true_eq_false, readLowSurrogate, quoted quad', second, and_self,
        if_true]

theorem denotes_of_readUnicodeEscape {bytes char rest : List UInt8}
    (read : readUnicodeEscape bytes = .ok (char, rest)) :
    ∃ text, bytes = text ++ rest ∧ EscapeDenotes (0x75 :: text) char := by
  unfold readUnicodeEscape at read
  split at read
  · cases read
  rename_i high after found
  obtain ⟨a, b, c, d, rfl, quad⟩ := readQuad_eq_ok_iff.mp found
  split at read
  · cases read
  split at read
  · rename_i noLow single
    cases read
    exact ⟨[a, b, c, d], rfl, .single quad (by omega)⟩
  -- The second half has a backslash, an `u` and digits of its own.
  rename_i noLow isHigh
  unfold readSecondSurrogate at read
  split at read
  · cases read
  · split at read <;> cases read
  rename_i x y more
  split at read
  · cases read
  split at read
  · cases read
  rename_i slash letter
  obtain rfl := not_not.mp slash
  obtain rfl := not_not.mp letter
  unfold readLowSurrogate at read
  split at read
  · cases read
  rename_i low after found'
  obtain ⟨a', b', c', d', rfl, quad'⟩ := readQuad_eq_ok_iff.mp found'
  split at read
  · rename_i second
    obtain ⟨rfl, rfl⟩ := Prod.mk.inj (Except.ok.inj read)
    exact ⟨[a, b, c, d, 0x5C, 0x75, a', b', c', d'], rfl, .pair quad (by omega) quad' second⟩
  · cases read

theorem denotes_of_readEscape {bytes char rest : List UInt8} (read : readEscape bytes = .ok (char, rest)) :
    ∃ text, bytes = text ++ rest ∧ EscapeDenotes text char := by
  cases bytes with
  | nil => cases read
  | cons b after =>
      by_cases known : b ∈ shortEscapes.map (·.1)
      · obtain ⟨⟨b, out⟩, listed, rfl⟩ := List.mem_map.mp known
        have short : EscapeDenotes [b] [out] := .short listed
        obtain ⟨rfl, rfl⟩ := Prod.mk.inj (Except.ok.inj ((readEscape_denotes short after).symm.trans read))
        exact ⟨[b], rfl, short⟩
      · have other : b ≠ 0x22 ∧ b ≠ 0x5C ∧ b ≠ 0x2F ∧ b ≠ 0x62 ∧ b ≠ 0x66 ∧ b ≠ 0x6E ∧ b ≠ 0x72 ∧ b ≠ 0x74 := by
          simpa [shortEscapes, not_or] using known
        simp only [readEscape, other, or_self, if_false] at read
        split at read
        · rename_i letter
          obtain ⟨text, rfl, escape⟩ := denotes_of_readUnicodeEscape read
          exact ⟨b :: text, rfl, letter ▸ escape⟩
        · cases read

/-! ## Strings that are read -/

theorem readContent_denotes {text out : List UInt8} (denotes : StringDenotes text out) (done rest : List UInt8) :
    readContent done (text ++ rest) = .ok (done.reverse ++ out, rest) := by
  induction denotes generalizing done with
  | close => simp [readContent]
  | plain quote slash seen _ ih =>
      rw [List.cons_append, readContent_plain quote slash seen, ih]
      simp
  | escape escape _ ih =>
      rw [List.append_assoc, List.cons_append, readContent_escape (readEscape_denotes escape _), ih]
      simp

theorem denotes_of_readContent {done bytes out rest : List UInt8} (read : readContent done bytes = .ok (out, rest)) :
    ∃ text more, bytes = text ++ rest ∧ StringDenotes text more ∧ out = done.reverse ++ more := by
  induction done, bytes using readContent.induct with
  | case1 done => simp [readContent] at read
  | case2 done after =>
      simp only [readContent, if_true] at read
      cases read
      exact ⟨[0x22], [], rfl, .close, (List.append_nil _).symm⟩
  | case3 done after char rest' found _ ih =>
      rw [readContent_escape found] at read
      obtain ⟨text, more, rfl, denotes, rfl⟩ := ih read
      obtain ⟨front, rfl, escape⟩ := denotes_of_readEscape found
      exact ⟨0x5C :: front ++ text, char ++ more, by simp, .escape escape denotes, by simp⟩
  | case4 done after f refused quote =>
      rw [readContent] at read
      simp only [quote, if_false, if_true] at read
      split at read
      · rename_i found
        rw [refused] at found
        cases found
      · cases read
  | case5 done b after quote slash control => simp [readContent, quote, slash, control] at read
  | case6 done b after quote slash seen ih =>
      rw [readContent_plain quote slash seen] at read
      obtain ⟨text, more, rfl, denotes, rfl⟩ := ih read
      exact ⟨b :: text, b :: more, rfl, .plain quote slash seen denotes, by simp⟩

theorem liftM_eq_ok_iff {e : Except Fault α} {bytes rest : List UInt8} {a : α} :
    (liftM e : Reader α) bytes = .ok (a, rest) ↔ e = .ok a ∧ rest = bytes := by
  cases e with
  | error f => exact ⟨nofun, nofun⟩
  | ok a' =>
      have lifted : (liftM (.ok a' : Except Fault α) : Reader α) bytes = .ok (a', bytes) := rfl
      rw [lifted]
      simp [eq_comm]

theorem readString_eq_ok_iff {bytes rest : List UInt8} {s : String} : readString bytes = .ok (s, rest) ↔
    ∃ out, readContent [] bytes = .ok (out, rest) ∧ String.fromUTF8? ⟨out.toArray⟩ = some s := by
  have started : (get : Reader (List UInt8)) bytes = .ok (bytes, bytes) := rfl
  unfold readString
  rw [run_bind started, bind_eq_ok_iff]
  constructor
  · rintro ⟨⟨out, after⟩, middle, found, read⟩
    obtain ⟨content, rfl⟩ := liftM_eq_ok_iff.mp found
    obtain ⟨⟨⟩, _, moved, read⟩ := bind_eq_ok_iff.mp read
    cases moved
    cases decoded : String.fromUTF8? ⟨out.toArray⟩ with
    | none =>
        rw [decoded] at read
        cases read
    | some s' =>
        rw [decoded] at read
        cases read
        exact ⟨out, content, decoded⟩
  · rintro ⟨out, content, decoded⟩
    have moved : (set rest : Reader Unit) bytes = .ok ((), rest) := rfl
    refine ⟨(out, rest), bytes, liftM_eq_ok_iff.mpr ⟨content, rfl⟩, ?_⟩
    dsimp only
    rw [run_bind moved, decoded]
    rfl

theorem readString_takes : readString.Takes true fun _ text => StringRest text := by
  intro next bytes s rest _ read
  obtain ⟨out, found, decoded⟩ := readString_eq_ok_iff.mp read
  obtain ⟨text, more, rfl, denotes, rfl⟩ := denotes_of_readContent found
  refine ⟨text, rfl, denotes.stringRest, fun _ => denotes.stringRest.ne_nil, fun _ rest' _ _ => ?_⟩
  exact readString_eq_ok_iff.mpr ⟨_, readContent_denotes denotes [] rest', decoded⟩

/-! ## Strings that are left out -/

theorem afterString_quote (rest : List UInt8) : afterString (0x22 :: rest) = .ok rest := by
  cases rest with
  | nil => simp [afterString]
  | cons => simp [afterString]

theorem afterString_plain {b : UInt8} (quote : b ≠ 0x22) (slash : b ≠ 0x5C) (seen : ¬b < 0x20)
    (rest : List UInt8) : afterString (b :: rest) = afterString rest := by
  cases rest with
  | nil => simp [afterString, quote, slash, seen]
  | cons c rest =>
      rw [afterString]
      simp only [quote, slash, seen, if_false]

theorem afterString_escape {text : List UInt8} (escape : Escape text) (rest : List UInt8) :
    afterString (0x5C :: text ++ rest) = afterString rest := by
  have quote : ¬(0x5C : UInt8) = 0x22 := by decide
  cases escape with
  | @short b known =>
      have letter : b ≠ 0x75 := by rintro rfl; revert known; decide
      simp only [List.cons_append, List.nil_append]
      rw [afterString]
      simp only [quote, letter, if_false, if_true, List.contains_iff_mem.mpr known]
  | @unicode a b c d n quad =>
      have found : readQuad (a :: b :: c :: d :: rest) = .ok (n, rest) := by simp only [readQuad, quad]
      simp only [List.cons_append, List.nil_append]
      rw [afterString]
      simp only [quote, if_false, if_true]
      split
      · rename_i found'
        rw [found] at found'
        cases found'
        rfl
      · rename_i found'
        rw [found] at found'
        cases found'

/-- Each string is passed over. -/
theorem afterString_text {text : List UInt8} (string : StringRest text) (rest : List UInt8) :
    afterString (text ++ rest) = .ok rest := by
  induction string with
  | close => exact afterString_quote rest
  | plain quote slash seen _ ih => rw [List.cons_append, afterString_plain quote slash seen, ih]
  | escape escape _ ih => rw [List.append_assoc, List.cons_append, ← List.cons_append, afterString_escape escape, ih]

/-- Nothing but a string is passed over. -/
theorem text_of_afterString {bytes rest : List UInt8} (read : afterString bytes = .ok rest) :
    ∃ text, bytes = text ++ rest ∧ StringRest text := by
  have quoteSlash : ¬(0x5C : UInt8) = 0x22 := by decide
  induction bytes using afterString.induct with
  | case1 => simp [afterString] at read
  | case2 =>
      rw [afterString_quote] at read
      cases read
      exact ⟨[0x22], rfl, .close⟩
  | case3 => simp [afterString] at read
  | case4 b quote slash control => simp [afterString, quote, slash, control] at read
  | case5 b quote slash seen => simp [afterString, quote, slash, seen] at read
  | case6 c after =>
      rw [afterString_quote] at read
      cases read
      exact ⟨[0x22], rfl, .close⟩
  | case7 after n behind found _ ih =>
      obtain ⟨a, b, c, d, rfl, quad⟩ := readQuad_eq_ok_iff.mp found
      have escape : Escape [0x75, a, b, c, d] := .unicode quad
      obtain ⟨text, rfl, string⟩ := ih ((afterString_escape escape behind).symm.trans read)
      exact ⟨_, rfl, .escape escape string⟩
  | case8 after f refused _ =>
      rw [afterString] at read
      simp only [quoteSlash, if_false, if_true] at read
      split at read
      · rename_i found
        rw [refused] at found
        cases found
      · cases read
  | case9 c after letter known _ ih =>
      have escape : Escape [c] := .short (List.contains_iff_mem.mp known)
      obtain ⟨text, rfl, string⟩ := ih ((afterString_escape escape after).symm.trans read)
      exact ⟨_, rfl, .escape escape string⟩
  | case10 c after letter unknown _ =>
      rw [afterString] at read
      simp only [quoteSlash, letter, unknown, if_false, if_true] at read
      cases read
  | case11 b c after quote slash control => simp [afterString, quote, slash, control] at read
  | case12 b c after quote slash seen ih =>
      obtain ⟨text, same, string⟩ := ih ((afterString_plain quote slash seen _).symm.trans read)
      exact ⟨b :: text, same ▸ rfl, .plain quote slash seen string⟩

theorem skipString_eq_ok_iff {bytes rest : List UInt8} {u : Unit} :
    skipString bytes = .ok (u, rest) ↔ afterString bytes = .ok rest := by
  have started : (get : Reader (List UInt8)) bytes = .ok (bytes, bytes) := rfl
  unfold skipString
  rw [run_bind started, bind_eq_ok_iff]
  constructor
  · rintro ⟨after, _, found, moved⟩
    cases moved
    exact (liftM_eq_ok_iff.mp found).1
  · exact fun found => ⟨rest, bytes, liftM_eq_ok_iff.mpr ⟨found, rfl⟩, rfl⟩

theorem skipString_takes : skipString.Takes true fun _ text => StringRest text := by
  intro next bytes u rest _ read
  obtain ⟨text, rfl, string⟩ := text_of_afterString (skipString_eq_ok_iff.mp read)
  refine ⟨text, rfl, string, fun _ => string.ne_nil, fun _ rest' _ _ => ?_⟩
  exact skipString_eq_ok_iff.mpr (afterString_text string rest')

/-! ## What a string denotes -/

/-- A string ends in one place only. -/
theorem StringRest.append_inj {text text' rest rest' : List UInt8} (string : StringRest text)
    (string' : StringRest text') (same : text ++ rest = text' ++ rest') : text = text' ∧ rest = rest' := by
  have behind := afterString_text string rest
  rw [same, afterString_text string', Except.ok.injEq] at behind
  subst behind
  exact ⟨List.append_cancel_right same, rfl⟩

/-- A string denotes one text. -/
theorem StringDenotes.injective {text : List UInt8} {s t : String} (denotes : StringDenotes text (utf8Bytes s))
    (denotes' : StringDenotes text (utf8Bytes t)) : s = t := by
  have read := readContent_denotes denotes [] []
  rw [readContent_denotes denotes'] at read
  exact (utf8Bytes_injective (congrArg Prod.fst (Except.ok.inj read))).symm

/-- A string is read as the text whose bytes it denotes, and in no other way. -/
theorem readString_iff {text : List UInt8} (string : StringRest text) {rest : List UInt8}
    {result : String × List UInt8} :
    readString (text ++ rest) = .ok result ↔ StringDenotes text (utf8Bytes result.1) ∧ result.2 = rest := by
  obtain ⟨s, left⟩ := result
  simp only [readString_eq_ok_iff, fromUTF8?_eq_some_iff]
  constructor
  · rintro ⟨out, found, rfl⟩
    obtain ⟨text', more, same, denotes, out⟩ := denotes_of_readContent found
    obtain ⟨rfl, rfl⟩ := string.append_inj denotes.stringRest same
    exact ⟨out ▸ denotes, rfl⟩
  · rintro ⟨denotes, rfl⟩
    exact ⟨_, readContent_denotes denotes [] left, rfl⟩

end ChainRelay.Json
