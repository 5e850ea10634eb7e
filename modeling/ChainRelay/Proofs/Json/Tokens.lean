import ChainRelay.Proofs.Json.Grammar

/-! # Reading the tokens of JSON text

Strings and whole numbers are read back from the text that is written for them: escapes stand for one
character each, and digits for the number they came from.
-/

namespace ChainRelay.Json

open Reader

namespace Reader

/-- A part that is read can be left out of a reading. -/
theorem run_bind {r : Reader α} {f : α → Reader β} {bytes rest : List UInt8} {a : α}
    (first : r bytes = .ok (a, rest)) : (r >>= f) bytes = f a rest := by
  simp [bind, StateT.bind, first, Except.bind]

theorem run_peek (f : Option UInt8 → Reader α) (bytes : List UInt8) : (peek >>= f) bytes = f bytes.head? bytes :=
  rfl

theorem run_advance (f : Unit → Reader α) (b : UInt8) (rest : List UInt8) :
    (advance >>= f) (b :: rest) = f () rest :=
  rfl

theorem bind_eq_ok_iff {r : Reader α} {f : α → Reader β} {bytes rest : List UInt8} {b : β} :
    (r >>= f) bytes = .ok (b, rest) ↔
      ∃ a middle, r bytes = .ok (a, middle) ∧ f a middle = .ok (b, rest) := by
  cases read : r bytes with
  | error e => simp [bind, StateT.bind, read, Except.bind]
  | ok result =>
      obtain ⟨a, middle⟩ := result
      simp only [bind, StateT.bind, read, Except.bind, Except.ok.injEq, Prod.mk.injEq]
      constructor
      · exact fun later => ⟨a, middle, ⟨rfl, rfl⟩, later⟩
      · rintro ⟨a', middle', ⟨rfl, rfl⟩, later⟩
        exact later

end Reader

/-- Blanks before a token are passed over. -/
theorem nextToken_blank {ws : List UInt8} (blank : Blank ws) {b : UInt8} (token : isJsonBlank b = false)
    (rest : List UInt8) : nextToken (ws ++ b :: rest) = .ok (some b, b :: rest) := by
  have passed : (ws ++ b :: rest).dropWhile isJsonBlank = b :: rest := by
    induction ws with
    | nil => simp [token]
    | cons w ws ih =>
        obtain ⟨here, others⟩ := List.forall_mem_cons.mp blank
        simpa [here] using ih others
  simp [nextToken, passed]

/-! ## Strings -/

/-- The bytes of a string between its quotes. -/
def content (s : String) : List UInt8 :=
  (s.toList.flatMap escaped).flatMap String.utf8EncodeChar

theorem utf8Bytes_quoted (s : String) : utf8Bytes (quoted s) = 0x22 :: content s ++ [0x22] := by
  have quote : utf8Bytes "\"" = [0x22] := by decide
  rw [quoted, utf8Bytes_append, utf8Bytes_append, utf8Bytes_ofList (List.flatMap _ _), quote]
  rfl

theorem readContent_plain {b : UInt8} (quote : b ≠ 0x22) (slash : b ≠ 0x5C) (seen : ¬b < 0x20)
    (done rest : List UInt8) : readContent done (b :: rest) = readContent (b :: done) rest := by
  rw [readContent]
  simp only [quote, slash, seen, if_false]

theorem readContent_all {bytes : List UInt8} (plain : ∀ b ∈ bytes, b ≠ 0x22 ∧ b ≠ 0x5C ∧ ¬b < 0x20)
    (done rest : List UInt8) :
    readContent done (bytes ++ rest) = readContent (bytes.reverse ++ done) rest := by
  induction bytes generalizing done with
  | nil => rfl
  | cons b bytes ih =>
      obtain ⟨⟨quote, slash, seen⟩, others⟩ := List.forall_mem_cons.mp plain
      rw [List.cons_append, readContent_plain quote slash seen, ih others, List.reverse_cons,
        List.append_assoc, List.singleton_append]

/-- The bytes of a character that needs no escape need none. -/
theorem plain_bytes {c : Char} (quote : c ≠ '"') (slash : c ≠ '\\') (seen : ¬c.toNat < 0x20) :
    ∀ b ∈ String.utf8EncodeChar c, b ≠ 0x22 ∧ b ≠ 0x5C ∧ ¬b < 0x20 := by
  intro b member
  by_cases small : c.toNat < 0x80
  · rw [utf8EncodeChar_ascii small, List.mem_singleton] at member
    subst member
    have quoteCode : c.toNat ≠ 0x22 := fun same => quote (Char.toNat_inj.mp same)
    have slashCode : c.toNat ≠ 0x5C := fun same => slash (Char.toNat_inj.mp same)
    have value : (UInt8.ofNat c.toNat).toNat = c.toNat := by simp; omega
    refine ⟨?_, ?_, ?_⟩
    · exact fun same => quoteCode (value ▸ congrArg UInt8.toNat same)
    · exact fun same => slashCode (value ▸ congrArg UInt8.toNat same)
    · rw [UInt8.lt_iff_toNat_lt, value]
      exact seen
  · have large := large_of_mem_utf8EncodeChar (Nat.le_of_not_lt small) member
    refine ⟨?_, ?_, ?_⟩
    · rintro rfl
      simp at large
    · rintro rfl
      simp at large
    · rw [UInt8.lt_iff_toNat_lt]
      simp
      omega

theorem readContent_escape {out rest rest' : List UInt8}
    (escape : readEscape rest = .ok (out, rest')) (done : List UInt8) :
    readContent done (0x5C :: rest) = readContent (out.reverse ++ done) rest' := by
  rw [readContent]
  have quote : ¬(0x5C : UInt8) = 0x22 := by decide
  simp only [quote, if_false, if_true]
  split
  · rename_i out' after found
    rw [escape, Except.ok.injEq, Prod.mk.injEq] at found
    obtain ⟨rfl, rfl⟩ := found
    rfl
  · rename_i f found
    rw [escape] at found
    cases found

theorem readContent_short (b out : UInt8) (escape : ∀ rest, readEscape (b :: rest) = .ok ([out], rest))
    (done rest : List UInt8) : readContent done (0x5C :: b :: rest) = readContent (out :: done) rest :=
  readContent_escape (escape rest) done

/-- The four digits of a control character. -/
theorem hexQuad_control : ∀ n < 32, hexQuad 0x30 0x30 (UInt8.ofNat (hexDigit (n / 16)).toNat)
    (UInt8.ofNat (hexDigit (n % 16)).toNat) = some n := by decide

theorem utf8EncodeChar_hexDigit : ∀ n < 16,
    String.utf8EncodeChar (hexDigit n) = [UInt8.ofNat (hexDigit n).toNat] := by decide

theorem readEscape_control {c : Char} (control : c.toNat < 0x20) (rest : List UInt8) :
    readEscape (0x75 :: 0x30 :: 0x30 :: UInt8.ofNat (hexDigit (c.toNat / 16)).toNat ::
      UInt8.ofNat (hexDigit (c.toNat % 16)).toNat :: rest) = .ok (String.utf8EncodeChar c, rest) := by
  have quad := hexQuad_control c.toNat control
  have low : ¬(0xDC00 ≤ c.toNat ∧ c.toNat ≤ 0xDFFF) := by omega
  have high : c.toNat < 0xD800 ∨ 0xDBFF < c.toNat := by omega
  have unicode : readUnicodeEscape (0x30 :: 0x30 :: UInt8.ofNat (hexDigit (c.toNat / 16)).toNat ::
      UInt8.ofNat (hexDigit (c.toNat % 16)).toNat :: rest) = .ok (String.utf8EncodeChar c, rest) := by
    simp only [readUnicodeEscape, readQuad, quad, low, high, if_false, if_true, Char.ofNat_toNat]
  exact unicode

/-- The text of one character is read as that character. -/
theorem readContent_escaped (c : Char) (done rest : List UInt8) :
    readContent done ((escaped c).flatMap String.utf8EncodeChar ++ rest) =
      readContent ((String.utf8EncodeChar c).reverse ++ done) rest := by
  unfold escaped
  split
  · rename_i same
    subst same
    exact readContent_short 0x22 0x22 (fun _ => rfl) done rest
  split
  · rename_i same
    subst same
    exact readContent_short 0x5C 0x5C (fun _ => rfl) done rest
  split
  · rename_i same
    subst same
    exact readContent_short 0x62 0x08 (fun _ => rfl) done rest
  split
  · rename_i same
    subst same
    exact readContent_short 0x74 0x09 (fun _ => rfl) done rest
  split
  · rename_i same
    subst same
    exact readContent_short 0x6E 0x0A (fun _ => rfl) done rest
  split
  · rename_i same
    subst same
    exact readContent_short 0x66 0x0C (fun _ => rfl) done rest
  split
  · rename_i same
    subst same
    exact readContent_short 0x72 0x0D (fun _ => rfl) done rest
  split
  · rename_i control
    have first := utf8EncodeChar_hexDigit (c.toNat / 16) (by omega)
    have second := utf8EncodeChar_hexDigit (c.toNat % 16) (by omega)
    have bytes : ['\\', 'u', '0', '0', hexDigit (c.toNat / 16), hexDigit (c.toNat % 16)].flatMap
        String.utf8EncodeChar = [0x5C, 0x75, 0x30, 0x30, UInt8.ofNat (hexDigit (c.toNat / 16)).toNat,
          UInt8.ofNat (hexDigit (c.toNat % 16)).toNat] := by
      simp only [List.flatMap_cons, List.flatMap_nil, first, second]
      rfl
    rw [bytes]
    exact readContent_escape (readEscape_control control rest) done
  · rename_i quote slash _ _ _ _ _ seen
    rw [List.flatMap_singleton]
    exact readContent_all (plain_bytes quote slash seen) done rest

/-- The text of a string is read as that string. -/
theorem readContent_content (s : String) (rest : List UInt8) :
    readContent [] (content s ++ 0x22 :: rest) = .ok (utf8Bytes s, rest) := by
  have chars (cs : List Char) (done : List UInt8) :
      readContent done ((cs.flatMap escaped).flatMap String.utf8EncodeChar ++ 0x22 :: rest) =
        .ok (done.reverse ++ cs.flatMap String.utf8EncodeChar, rest) := by
    induction cs generalizing done with
    | nil => simp [readContent]
    | cons c cs ih =>
        simp only [List.flatMap_cons, List.flatMap_append, List.append_assoc, readContent_escaped, ih]
        simp
  rw [utf8Bytes_eq]
  exact chars s.toList []

theorem readString_content (s : String) (rest : List UInt8) :
    readString (content s ++ 0x22 :: rest) = .ok (s, rest) := by
  generalize text : content s ++ 0x22 :: rest = bytes
  have started : (get : Reader (List UInt8)) bytes = .ok (bytes, bytes) := rfl
  have taken : (liftM (readContent [] bytes) : Reader (List UInt8 × List UInt8)) bytes =
      .ok ((utf8Bytes s, rest), bytes) := by
    rw [← text, readContent_content]
    rfl
  have moved : (set rest : Reader Unit) bytes = .ok ((), rest) := rfl
  unfold readString
  rw [run_bind started, run_bind taken]
  dsimp only
  rw [run_bind moved, fromUTF8?_utf8Bytes]
  rfl

/-! ## Numbers -/

/-- The bytes do not go on with a number. -/
def EndsNumber (bytes : List UInt8) : Prop :=
  ∀ b, bytes.head? = some b → isDigit b = false ∧ b ≠ 0x2E ∧ b ≠ 0x65 ∧ b ≠ 0x45

/-- The bytes of the decimal digits of a number. -/
def digitBytes (n : Nat) : List UInt8 :=
  (Nat.toDigits 10 n).map fun c => UInt8.ofNat c.toNat

theorem toNat_of_isDigit {c : Char} (digit : c.isDigit = true) : 48 ≤ c.toNat ∧ c.toNat ≤ 57 := by
  simpa [Char.isDigit, UInt32.le_iff_toNat_le] using digit

theorem digit_of_mem {n : Nat} {c : Char} (member : c ∈ Nat.toDigits 10 n) :
    48 ≤ c.toNat ∧ c.toNat ≤ 57 :=
  toNat_of_isDigit (Nat.isDigit_of_mem_toDigits (by decide) (by decide) member)

theorem utf8Bytes_repr (n : Nat) : utf8Bytes (Nat.repr n) = digitBytes n := by
  rw [utf8Bytes_eq, Nat.toList_repr, digitBytes]
  refine flatMap_utf8EncodeChar_ascii fun c member => ?_
  have bounds := digit_of_mem member
  omega

theorem isDigit_digitBytes (n : Nat) : ∀ b ∈ digitBytes n, isDigit b = true := by
  intro b member
  obtain ⟨c, inside, rfl⟩ := List.mem_map.mp member
  have bounds := digit_of_mem inside
  simp [isDigit, UInt8.le_iff_toNat_le]
  omega

theorem digitBytes_ne_nil (n : Nat) : digitBytes n ≠ [] := by
  simp [digitBytes]

/-- Digits are read up to their end. -/
theorem readDigits_append {digits rest : List UInt8} (each : ∀ b ∈ digits, isDigit b = true)
    (ends : ∀ b, rest.head? = some b → isDigit b = false) :
    readDigits (digits ++ rest) = .ok (digits.map digitValue, rest) := by
  have none : rest.takeWhile isDigit = [] ∧ rest.dropWhile isDigit = rest := by
    cases rest with
    | nil => exact ⟨rfl, rfl⟩
    | cons b rest => simp [ends b rfl]
  rw [readDigits, List.takeWhile_append_of_pos each, List.dropWhile_append_of_pos each, none.1, none.2,
    List.append_nil]

/-- The number that digits write. -/
def digitsValue (start : Nat) (digits : List Nat) : Nat :=
  digits.foldl (fun n d => n * 10 + d) start

theorem digitsValue_digitBytes (n : Nat) : digitsValue 0 ((digitBytes n).map digitValue) = n := by
  have chars (cs : List Char) (digits : ∀ c ∈ cs, 48 ≤ c.toNat ∧ c.toNat ≤ 57) (start : Nat) :
      digitsValue start ((cs.map fun c => UInt8.ofNat c.toNat).map digitValue) =
        Nat.ofDigitChars 10 cs start := by
    induction cs generalizing start with
    | nil => rfl
    | cons c rest ih =>
        obtain ⟨here, others⟩ := List.forall_mem_cons.mp digits
        have value : digitValue (UInt8.ofNat c.toNat) = c.toNat - '0'.toNat := by
          simp [digitValue]
          omega
        rw [Nat.ofDigitChars_cons, ← ih others, Nat.mul_comm, ← value]
        rfl
  rw [digitBytes, chars _ fun c member => digit_of_mem member]
  exact Nat.ofDigitChars_ten_toDigits

theorem le_digitsValue (start : Nat) (digits : List Nat) : start ≤ digitsValue start digits := by
  induction digits generalizing start with
  | nil => exact Nat.le_refl _
  | cons d rest ih =>
      have later : start * 10 + d ≤ digitsValue start (d :: rest) := ih _
      omega

theorem absorb_eq {digits : List Nat} {start : Nat} (fits : digitsValue start digits < UInt64.size) :
    absorb start digits = (digitsValue start digits, 0) := by
  induction digits generalizing start with
  | nil => rfl
  | cons d rest ih =>
      have here : start * 10 + d < UInt64.size :=
        Nat.lt_of_le_of_lt (le_digitsValue (start * 10 + d) rest) fits
      rw [absorb, if_pos here, ih fits]
      rfl

/-- A positive number has no zero in front. -/
theorem head_toDigits {n : Nat} (positive : 0 < n) : ∃ c cs, Nat.toDigits 10 n = c :: cs ∧ c ≠ '0' := by
  induction n using Nat.strongRecOn with
  | ind n ih =>
      rw [Nat.toDigits_eq_if (by decide)]
      by_cases small : n < 10
      · refine ⟨n.digitChar, [], if_pos small, ?_⟩
        intro zero
        have value := Nat.toNat_digitChar_sub_48_of_lt_ten small
        rw [zero] at value
        have : '0'.toNat = 48 := rfl
        omega
      · obtain ⟨c, cs, split, nonzero⟩ := ih (n / 10) (by omega) (by omega)
        exact ⟨c, cs ++ [(n % 10).digitChar], by rw [if_neg small, split, List.cons_append], nonzero⟩

theorem head_digitBytes {n : Nat} (positive : 0 < n) :
    ∃ b rest, digitBytes n = b :: rest ∧ b ≠ 0x30 := by
  obtain ⟨c, cs, split, nonzero⟩ := head_toDigits positive
  refine ⟨UInt8.ofNat c.toNat, cs.map fun c => UInt8.ofNat c.toNat, ?_, ?_⟩
  · rw [digitBytes, split, List.map_cons]
  intro zero
  have bounds := digit_of_mem (split ▸ List.mem_cons_self : c ∈ Nat.toDigits 10 n)
  have code := congrArg UInt8.toNat zero
  simp at code
  exact nonzero (Char.toNat_inj.mp (by rw [show '0'.toNat = 48 from rfl]; omega))

theorem readAfterDigits_ends {negative : Bool} {n : Nat} {rest : List UInt8} (ends : EndsNumber rest) :
    readAfterDigits negative n 0 rest = .ok (wholeNumber negative n, rest) := by
  cases rest with
  | nil => rfl
  | cons b rest =>
      obtain ⟨-, point, lower, upper⟩ := ends b rfl
      have peeked : peek (b :: rest) = .ok (some b, b :: rest) := rfl
      simp only [readAfterDigits, run_bind peeked, point, lower, upper, or_self, if_false, if_true]
      rfl

/-- Digits without point and exponent are a whole number. -/
theorem readUnsigned_digitBytes {n : Nat} (small : n < 0x10000000000000000) (negative : Bool)
    {rest : List UInt8} (ends : EndsNumber rest) :
    readUnsigned negative (digitBytes n ++ rest) = .ok (wholeNumber negative n, rest) := by
  have after : readAfterDigits negative n 0 rest = .ok (wholeNumber negative n, rest) :=
    readAfterDigits_ends ends
  rcases Nat.eq_zero_or_pos n with rfl | positive
  · have peeked : peek (digitBytes 0 ++ rest) = .ok (some 0x30, digitBytes 0 ++ rest) := rfl
    have advanced : advance (digitBytes 0 ++ rest) = .ok ((), rest) := rfl
    simp only [readUnsigned, run_bind peeked, if_true, run_bind advanced]
    cases rest with
    | nil => exact after
    | cons b rest =>
        obtain ⟨noDigit, -⟩ := ends b rfl
        have peeked : peek (b :: rest) = .ok (some b, b :: rest) := rfl
        simp only [run_bind peeked, noDigit, Bool.false_eq_true, if_false]
        exact after
  · obtain ⟨b, others, split, nonzero⟩ := head_digitBytes positive
    have peeked : peek (digitBytes n ++ rest) = .ok (some b, digitBytes n ++ rest) := by rw [split]; rfl
    have digit : isDigit b = true := isDigit_digitBytes n b (split ▸ List.mem_cons_self)
    have value := digitsValue_digitBytes n
    simp only [readUnsigned, run_bind peeked, nonzero, if_false, digit, if_true,
      run_bind (readDigits_append (isDigit_digitBytes n) fun b head => (ends b head).1),
      absorb_eq (value.symm ▸ small), value]
    exact after

/-- The text of a whole number is read as that number. -/
theorem readNumber_intText {n : Int} (fits) {rest : List UInt8} (ends : EndsNumber rest) :
    readNumber (utf8Bytes (Number.intText n) ++ rest) = .ok (.int n fits, rest) := by
  by_cases negative : n < 0
  · have dash : utf8Bytes "-" = [0x2D] := by decide
    have bytes : utf8Bytes (Number.intText n) ++ rest = 0x2D :: (digitBytes n.natAbs ++ rest) := by
      rw [Number.intText, if_pos negative, utf8Bytes_append, utf8Bytes_repr, dash]
      rfl
    have peeked : peek (0x2D :: (digitBytes n.natAbs ++ rest)) =
        .ok (some 0x2D, 0x2D :: (digitBytes n.natAbs ++ rest)) := rfl
    have advanced : advance (0x2D :: (digitBytes n.natAbs ++ rest)) =
        .ok ((), digitBytes n.natAbs ++ rest) := rfl
    rw [bytes, readNumber, run_bind peeked, if_pos (by rfl), run_bind advanced,
      readUnsigned_digitBytes (by omega) true ends]
    have range : 0 < n.natAbs ∧ n.natAbs ≤ 0x8000000000000000 := by omega
    simp only [wholeNumber, if_true, dif_pos range]
    congr 3
    omega
  · have bytes : utf8Bytes (Number.intText n) = digitBytes n.natAbs := by
      rw [Number.intText, if_neg negative, utf8Bytes_repr]
    obtain ⟨b, others, split⟩ := List.exists_cons_of_ne_nil (digitBytes_ne_nil n.natAbs)
    have digit : isDigit b = true := isDigit_digitBytes n.natAbs b (split ▸ List.mem_cons_self)
    have noDash : ((some b : Option UInt8) == some 0x2D) = false := by
      cases same : (some b : Option UInt8) == some 0x2D with
      | false => rfl
      | true =>
          rw [beq_iff_eq, Option.some.injEq] at same
          subst same
          cases digit
    have peeked : peek (digitBytes n.natAbs ++ rest) = .ok (some b, digitBytes n.natAbs ++ rest) := by
      rw [split]
      rfl
    rw [bytes, readNumber, run_bind peeked, noDash, if_neg (by decide),
      readUnsigned_digitBytes (by omega) false ends]
    have range : n.natAbs < 0x10000000000000000 := by omega
    simp only [wholeNumber, Bool.false_eq_true, if_false, dif_pos range]
    congr 3
    omega

end ChainRelay.Json
