import ChainRelay.Proofs.Json.Refusing
import ChainRelay.Wallet.AddressText

/-! # Which texts are addresses

An address is read from forty digits of base sixteen, in upper or lower case, behind `0x` or `0X` or alone.
-/

namespace ChainRelay

open Json Json.Reader

theorem ofHexChars?_isSome {cs : List Char} {n : Nat} (even : cs.length = 2 * n)
    (digits : ∀ c ∈ cs, (hexValue? c).isSome) : ∃ bytes, ofHexChars? cs = some bytes ∧ bytes.length = n := by
  induction n generalizing cs with
  | zero =>
      obtain rfl := List.eq_nil_of_length_eq_zero even
      exact ⟨[], rfl, rfl⟩
  | succ n ih =>
      match cs, even with
      | a :: b :: rest, even =>
          obtain ⟨here, digits⟩ := List.forall_mem_cons.mp digits
          obtain ⟨next, others⟩ := List.forall_mem_cons.mp digits
          obtain ⟨high, first⟩ := Option.isSome_iff_exists.mp here
          obtain ⟨low, second⟩ := Option.isSome_iff_exists.mp next
          obtain ⟨bytes, read, count⟩ := ih (by simp at even; omega) others
          exact ⟨UInt8.ofNat (high * 16 + low) :: bytes, by simp [ofHexChars?, first, second, read], by simp [count]⟩

theorem hexValue?_bounds {c : Char} (digit : (hexValue? c).isSome) :
    48 ≤ c.toNat ∧ c.toNat ≤ 57 ∨ 97 ≤ c.toNat ∧ c.toNat ≤ 102 ∨ 65 ≤ c.toNat ∧ c.toNat ≤ 70 := by
  unfold hexValue? at digit
  simp only [Char.le_def, UInt32.le_iff_toNat_le] at digit
  split at digit
  · exact .inl ‹_›
  split at digit
  · exact .inr (.inl ‹_›)
  split at digit
  · exact .inr (.inr ‹_›)
  · cases digit

namespace Address

/-- Forty digits of base sixteen behind one of the marks. -/
def WritesBehind (marks : List String) (s : String) : Prop :=
  ∃ mark ∈ marks, ∃ digits, s = mark ++ String.ofList digits ∧ digits.length = 2 * size ∧
    ∀ c ∈ digits, (hexValue? c).isSome

/-- What may stand in front of the digits. -/
def marks : List String :=
  ["", "0x", "0X"]

/-- Forty digits of base sixteen, perhaps behind a mark. -/
def Writes (s : String) : Prop :=
  WritesBehind marks s

/-- The byte of an ASCII character. -/
def byteOf (c : Char) : UInt8 :=
  UInt8.ofNat c.toNat

theorem ofNat_byteOf {c : Char} (digit : (hexValue? c).isSome) : Char.ofNat (byteOf c).toNat = c := by
  have small : (byteOf c).toNat = c.toNat := by
    have bounds := hexValue?_bounds digit
    simp [byteOf]
    omega
  rw [small, Char.ofNat_toNat]

theorem utf8Bytes_digits {digits : List Char} (each : ∀ c ∈ digits, (hexValue? c).isSome) :
    utf8Bytes (String.ofList digits) = digits.map byteOf := by
  rw [utf8Bytes_ofList]
  refine flatMap_utf8EncodeChar_ascii fun c member => ?_
  have bounds := hexValue?_bounds (each c member)
  omega

theorem byteOf_ofNat (b : UInt8) : byteOf (Char.ofNat b.toNat) = b := by
  have small : b.toNat < 0xD800 := Nat.lt_trans b.toNat_lt (by decide)
  have code : (Char.ofNat b.toNat).toNat = b.toNat := by
    rw [Char.ofNat, dif_pos (.inl small)]
    rfl
  rw [byteOf, code, UInt8.ofNat_toNat]

theorem dropMark_split (bytes : List UInt8) :
    ∃ mark ∈ marks, bytes = utf8Bytes mark ++ dropMark bytes := by
  have none : utf8Bytes "" = [] := by decide
  have lower : utf8Bytes "0x" = [0x30, 0x78] := by decide
  have upper : utf8Bytes "0X" = [0x30, 0x58] := by decide
  unfold dropMark
  split
  · exact ⟨"0x", by simp [marks], by rw [lower]; rfl⟩
  · exact ⟨"0X", by simp [marks], by rw [upper]; rfl⟩
  · exact ⟨"", by simp [marks], by rw [none]; rfl⟩

/-- The letter of a mark is no digit. -/
theorem dropMark_digits {digits : List Char} (each : ∀ c ∈ digits, (hexValue? c).isSome) :
    dropMark (digits.map byteOf) = digits.map byteOf := by
  have noDigit {c : Char} (letter : byteOf c = 0x78 ∨ byteOf c = 0x58) (digit : (hexValue? c).isSome) : False := by
    rw [← ofNat_byteOf digit] at digit
    rcases letter with same | same <;> rw [same] at digit <;> revert digit <;> decide
  match digits, each with
  | [], _ => rfl
  | [c], _ =>
      unfold dropMark
      split <;> simp_all
  | c :: d :: rest, each =>
      have second := each d (by simp)
      unfold dropMark
      split
      · rename_i split
        simp only [List.map_cons, List.cons.injEq] at split
        exact (noDigit (.inl split.2.1) second).elim
      · rename_i split
        simp only [List.map_cons, List.cons.injEq] at split
        exact (noDigit (.inr split.2.1) second).elim
      · rfl

/-- Only number and kind of the digits matter. -/
theorem ofText_ok_iff {s : String} : (∃ a, ofText s = .ok a) ↔
    (dropMark (utf8Bytes s)).length = 2 * size ∧ ∀ b ∈ dropMark (utf8Bytes s), (digit? b).isSome := by
  unfold ofText
  generalize dropMark (utf8Bytes s) = digits
  dsimp only
  by_cases odd : digits.length % 2 = 1
  · have different : digits.length ≠ 2 * size := by unfold size; omega
    simp [odd, different]
  by_cases count : digits.length = 2 * size
  · have known : (digits.zipIdx.find? fun entry => (digit? entry.1).isNone) = none ↔
        ∀ b ∈ digits, (digit? b).isSome := by
      have each : (∀ entry ∈ digits.zipIdx, (digit? entry.1).isSome) ↔
          ∀ b ∈ digits.zipIdx.map Prod.fst, (digit? b).isSome := by rw [List.forall_mem_map]
      rw [List.zipIdx_map_fst] at each
      rw [List.find?_eq_none, ← each]
      simp [Option.isSome_iff_ne_none]
    rw [if_neg odd, if_neg (not_not_intro count)]
    split
    · rename_i position found
      have wrong : ¬ ∀ b ∈ digits, (digit? b).isSome := by
        intro each
        exact absurd (found.symm.trans (known.mpr each)) (Option.some_ne_none _)
      simp [wrong]
    · rename_i found
      have each := known.mp found
      have pairs : (digits.map fun b => Char.ofNat b.toNat).length = 2 * size := (List.length_map _).trans count
      obtain ⟨bytes, read, twenty⟩ := ofHexChars?_isSome pairs (by simpa [digit?] using each)
      have address : (ofBytes? bytes) = some ⟨bytes, twenty⟩ := dif_pos twenty
      simp only [read, Option.bind_some, address]
      exact ⟨fun _ => ⟨count, each⟩, fun _ => ⟨_, rfl⟩⟩
  · simp [odd, count]

theorem ofText_ok_iff_writes {s : String} : (∃ a, ofText s = .ok a) ↔ Writes s := by
  rw [ofText_ok_iff]
  constructor
  · intro ⟨count, each⟩
    obtain ⟨mark, marked, split⟩ := dropMark_split (utf8Bytes s)
    have digits : ∀ c ∈ (dropMark (utf8Bytes s)).map fun b => Char.ofNat b.toNat, (hexValue? c).isSome := by
      intro c member
      obtain ⟨b, inside, rfl⟩ := List.mem_map.mp member
      exact each b inside
    refine ⟨mark, marked, _, utf8Bytes_injective ?_, (List.length_map _).trans count, digits⟩
    rw [utf8Bytes_append, utf8Bytes_digits digits, List.map_map]
    simpa [Function.comp_def, byteOf_ofNat] using split
  · intro ⟨mark, marked, digits, same, count, each⟩
    have dropped : dropMark (utf8Bytes s) = digits.map byteOf := by
      rw [same, utf8Bytes_append, utf8Bytes_digits each]
      simp only [marks, List.mem_cons, List.not_mem_nil, or_false] at marked
      rcases marked with rfl | rfl | rfl
      · exact dropMark_digits each
      · have mark : utf8Bytes "0x" = [0x30, 0x78] := by decide
        rw [mark]
        rfl
      · have mark : utf8Bytes "0X" = [0x30, 0x58] := by decide
        rw [mark]
        rfl
    rw [dropped, List.length_map]
    refine ⟨count, fun b member => ?_⟩
    obtain ⟨c, inside, rfl⟩ := List.mem_map.mp member
    rw [digit?, ofNat_byteOf (each c inside)]
    exact each c inside

/-- A string is read as the address that it writes. -/
theorem run_read {s : String} {ws text rest : List UInt8} (blank : Blank ws) (spelled : Spells (.string s) text)
    (room : Nat) : read room (ws ++ text ++ rest) =
      (match ofText s with
        | .ok a => pure a
        | .error e => failHere (.refused e.message) : Reader Address) rest := by
  obtain ⟨b, begins, first⟩ := run_firstOfValue blank spelled rest
  cases begins
  cases spelled
  have opened : advance (utf8Bytes (quoted s) ++ rest) = .ok ((), content s ++ 0x22 :: rest) := by
    rw [utf8Bytes_quoted]
    simp [advance]
  rw [read, first, if_pos rfl, run_bind opened]
  apply (run_bind (readString_content s rest)).trans
  cases ofText s <;> rfl

theorem read_settles (room : Nat) (s : String) : (read room).Settles (.string s) := by
  cases written : ofText s with
  | ok a =>
      refine .inl ⟨a, fun ws text rest blank spelled _ => ?_⟩
      rw [run_read blank spelled, written]
      rfl
  | error e =>
      refine .inr fun ws text rest blank spelled _ result => ?_
      rw [run_read blank spelled, written]
      nofun

theorem read_iff (room : Nat) (s : String) : (∃ a, (read room).Reads (.string s) a) ↔ Writes s := by
  rw [← ofText_ok_iff_writes]
  constructor
  · intro ⟨a, reads⟩
    have taken := reads [] _ [] blank_nil .string endsNumber_nil
    rw [run_read blank_nil .string] at taken
    cases written : ofText s with
    | ok a => exact ⟨a, rfl⟩
    | error e =>
        rw [written] at taken
        cases taken
  · intro ⟨a, written⟩
    refine ⟨a, fun ws text rest blank spelled _ => ?_⟩
    rw [run_read blank spelled, written]
    rfl

end Address

end ChainRelay
