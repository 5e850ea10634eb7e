import Mathlib.Algebra.Group.Nat.Defs
import ChainRelay.Mock.Prover
import ChainRelay.Proofs.Wallet.AddressText

/-! # What a commitment binds

The height stands in front with a width of its own, so it can be read back from what is hashed. The
prefix, the path and the value follow it with nothing between them: what is hashed says what they are
in a row, and where one of them ends only for those who know it from elsewhere.
-/

namespace ChainRelay

theorem Digest.length_toBigEndian (size n : Nat) : (toBigEndian size n).length = size := by
  induction size generalizing n with
  | zero => rfl
  | succ size ih => simp [toBigEndian, ih]

theorem Digest.bigEndian_toBigEndian {size n : Nat} (fits : n < 256 ^ size) :
    bigEndian (toBigEndian size n) = n := by
  induction size generalizing n with
  | zero =>
      have zero : n = 0 := by simpa using fits
      rw [zero]
      rfl
  | succ size ih =>
      have front := ih (n := n / 256) (Nat.div_lt_of_lt_mul (by rwa [Nat.pow_succ, Nat.mul_comm] at fits))
      unfold bigEndian at front ⊢
      rw [toBigEndian, List.foldl_append, front]
      simp
      omega

theorem Digest.toBigEndian_word_injective {a b : UInt64}
    (same : toBigEndian 8 a.toNat = toBigEndian 8 b.toNat) : a = b := by
  have read := congrArg bigEndian same
  rw [bigEndian_toBigEndian a.toNat_lt, bigEndian_toBigEndian b.toNat_lt] at read
  exact UInt64.toNat_inj.mp read

/-- Behind the bytes of a character, a text goes on with a text. -/
theorem text_behind_char {c : Char} {tail : List UInt8} {t : String}
    (same : String.utf8EncodeChar c ++ tail = utf8Bytes t) : ∃ more, tail = utf8Bytes more := by
  have whole : [c].utf8Encode ++ ⟨tail.toArray⟩ = t.toByteArray := by
    apply ByteArray.ext
    apply Array.toList_inj.mp
    simpa [List.utf8Encode, utf8Bytes] using same
  have valid := ByteArray.isValidUTF8_utf8Encode_singleton_append_iff.mp (whole ▸ t.isValidUTF8)
  exact ⟨.ofByteArray _ valid, rfl⟩

/-- Behind the bytes of a text, a longer text goes on with a text. -/
theorem text_behind {s t : String} {tail : List UInt8} (same : utf8Bytes s ++ tail = utf8Bytes t) :
    ∃ more, t = s ++ more ∧ tail = utf8Bytes more := by
  -- One character of the front after the other, so that what is behind it stays a text.
  have goesOn (cs : List Char) {t : String} (same : cs.flatMap String.utf8EncodeChar ++ tail = utf8Bytes t) :
      ∃ more, tail = utf8Bytes more := by
    induction cs generalizing t with
    | nil => exact ⟨t, same⟩
    | cons c rest ih =>
        rw [List.flatMap_cons, List.append_assoc] at same
        obtain ⟨others, behind⟩ := text_behind_char same
        exact ih behind
  obtain ⟨more, rfl⟩ := goesOn s.toList (by rwa [← utf8Bytes_eq])
  refine ⟨more, utf8Bytes_injective ?_, rfl⟩
  rw [← same, utf8Bytes_append]

namespace Mock

variable {c c₁ c₂ : Config} {h h₁ h₂ : UInt64} {p p₁ p₂ : String} {v v₁ v₂ : List UInt8}

/-- One text goes on where the other stops, and what it goes on with stands in front of the other's value. -/
def Extends (s : String) (v : List UInt8) (t : String) (w : List UInt8) : Prop :=
  ∃ more, t = s ++ more ∧ v = utf8Bytes more ++ w

theorem append_eq_append_iff_extends {s t : String} {v w : List UInt8} :
    utf8Bytes s ++ v = utf8Bytes t ++ w ↔ Extends s v t w ∨ Extends t w s v := by
  rw [List.append_eq_append_iff]
  constructor
  · rintro (⟨tail, whole, rfl⟩ | ⟨tail, whole, rfl⟩)
    · obtain ⟨more, rfl, rfl⟩ := text_behind whole.symm
      exact .inl ⟨more, rfl, rfl⟩
    · obtain ⟨more, rfl, rfl⟩ := text_behind whole.symm
      exact .inr ⟨more, rfl, rfl⟩
  · rintro (⟨more, rfl, rfl⟩ | ⟨more, rfl, rfl⟩)
    · exact .inl ⟨utf8Bytes more, utf8Bytes_append s more, rfl⟩
    · exact .inr ⟨utf8Bytes more, utf8Bytes_append t more, rfl⟩

theorem Extends.cancel {front s t : String} {v w : List UInt8} :
    Extends (front ++ s) v (front ++ t) w ↔ Extends s v t w := by
  simp only [Extends, String.append_assoc, String.append_right_inj]

/-- The height is read back; the rest is known as one row of bytes. -/
theorem commitmentInput_eq_iff : commitmentInput c₁ h₁ p₁ v₁ = commitmentInput c₂ h₂ p₂ v₂ ↔
    h₁ = h₂ ∧ utf8Bytes (c₁.commitmentPrefix ++ p₁) ++ v₁ = utf8Bytes (c₂.commitmentPrefix ++ p₂) ++ v₂ := by
  simp only [commitmentInput, utf8Bytes_append, List.append_assoc]
  constructor
  · intro same
    obtain ⟨heights, rest⟩ := List.append_inj same (by simp only [Digest.length_toBigEndian])
    exact ⟨Digest.toBigEndian_word_injective heights, rest⟩
  · rintro ⟨rfl, rest⟩
    rw [rest]

/-- Whoever knows how long two of the three parts are knows all of them. -/
theorem commitmentInput_inj (same : commitmentInput c₁ h₁ p₁ v₁ = commitmentInput c₂ h₂ p₂ v₂)
    (prefixes : (utf8Bytes c₁.commitmentPrefix).length = (utf8Bytes c₂.commitmentPrefix).length)
    (lengths : (utf8Bytes p₁).length = (utf8Bytes p₂).length ∨ v₁.length = v₂.length) :
    h₁ = h₂ ∧ c₁.commitmentPrefix = c₂.commitmentPrefix ∧ p₁ = p₂ ∧ v₁ = v₂ := by
  obtain ⟨heights, row⟩ := commitmentInput_eq_iff.mp same
  rw [utf8Bytes_append, utf8Bytes_append, List.append_assoc, List.append_assoc] at row
  obtain ⟨front, row⟩ := List.append_inj row prefixes
  have ⟨path, value⟩ : utf8Bytes p₁ = utf8Bytes p₂ ∧ v₁ = v₂ := by
    rcases lengths with paths | values
    · exact List.append_inj row paths
    · exact List.append_inj' row values
  exact ⟨heights, utf8Bytes_injective front, utf8Bytes_injective path, value⟩

theorem commitmentInput_eq_iff_extends : commitmentInput c₁ h₁ p₁ v₁ = commitmentInput c₂ h₂ p₂ v₂ ↔
    h₁ = h₂ ∧ (Extends (c₁.commitmentPrefix ++ p₁) v₁ (c₂.commitmentPrefix ++ p₂) v₂ ∨
      Extends (c₂.commitmentPrefix ++ p₂) v₂ (c₁.commitmentPrefix ++ p₁) v₁) := by
  rw [commitmentInput_eq_iff, append_eq_append_iff_extends]

theorem proveState_of_path (given : p ≠ "") :
    proveState c h p v = .ok { proof := Digest.sha256 (commitmentInput c h p v), height := h } := by
  have given : p.isEmpty = false := by simpa [String.isEmpty_iff] using given
  simp [proveState, given, commitment]

/-- Every proof is the digest of what is hashed for it. Two proofs share what is hashed for them exactly
when their heights are the same and the text of one, its prefix and its path, goes on where that of the
other stops with bytes from the other's value. -/
theorem proofs_bind (c₁ c₂ : Config) (h₁ h₂ : UInt64) (p₁ p₂ : String) (v₁ v₂ : List UInt8) :
    (p₁ ≠ "" → proveState c₁ h₁ p₁ v₁ =
      .ok { proof := Digest.sha256 (commitmentInput c₁ h₁ p₁ v₁), height := h₁ }) ∧
    (commitmentInput c₁ h₁ p₁ v₁ = commitmentInput c₂ h₂ p₂ v₂ ↔
      h₁ = h₂ ∧ (Extends (c₁.commitmentPrefix ++ p₁) v₁ (c₂.commitmentPrefix ++ p₂) v₂ ∨
        Extends (c₂.commitmentPrefix ++ p₂) v₂ (c₁.commitmentPrefix ++ p₁) v₁)) ∧
    (commitmentInput c₁ h₁ p₁ v₁ = commitmentInput c₁ h₂ p₂ v₂ ↔
      h₁ = h₂ ∧ (Extends p₁ v₁ p₂ v₂ ∨ Extends p₂ v₂ p₁ v₁)) ∧
    (commitmentInput c₁ h₁ p₁ v₁ = commitmentInput c₂ h₂ p₂ v₂ →
      (utf8Bytes c₁.commitmentPrefix).length = (utf8Bytes c₂.commitmentPrefix).length →
      (utf8Bytes p₁).length = (utf8Bytes p₂).length ∨ v₁.length = v₂.length →
      h₁ = h₂ ∧ c₁.commitmentPrefix = c₂.commitmentPrefix ∧ p₁ = p₂ ∧ v₁ = v₂) := by
  refine ⟨proveState_of_path, commitmentInput_eq_iff_extends, ?_, commitmentInput_inj⟩
  rw [commitmentInput_eq_iff_extends, Extends.cancel, Extends.cancel]

/-- Two values under two paths can have one proof. -/
theorem proofs_collide :
    commitmentInput .default 1 "ab" [0x63] = commitmentInput .default 1 "a" [0x62, 0x63] ∧
      ∃ r, proveState .default 1 "ab" [0x63] = .ok r ∧ proveState .default 1 "a" [0x62, 0x63] = .ok r := by
  have same : commitmentInput .default 1 "ab" [0x63] = commitmentInput .default 1 "a" [0x62, 0x63] := by decide
  refine ⟨same, _, proveState_of_path (by decide), ?_⟩
  rw [proveState_of_path (by decide), ← same]

end Mock

end ChainRelay
