import ChainRelay.Text.Raw

/-! # Text and its bytes

The bytes of a text are those of its characters in a row, and the text can be read back from them.
Characters of ASCII are one byte each; all other characters have large bytes only. Texts and their bytes
have the same order.
-/

namespace ChainRelay

@[simp] theorem utf8Bytes_append (s t : String) : utf8Bytes (s ++ t) = utf8Bytes s ++ utf8Bytes t := by
  simp [utf8Bytes]

theorem utf8Bytes_ofList (cs : List Char) :
    utf8Bytes (String.ofList cs) = cs.flatMap String.utf8EncodeChar := by
  simp [utf8Bytes, String.toByteArray_ofList, List.utf8Encode]

theorem utf8Bytes_eq (s : String) : utf8Bytes s = s.toList.flatMap String.utf8EncodeChar := by
  rw [← utf8Bytes_ofList, String.ofList_toList]

/-- A text can be read back from its bytes. -/
theorem fromUTF8?_utf8Bytes (s : String) :
    String.fromUTF8? (ByteArray.mk (utf8Bytes s).toArray) = some s := by
  have same : ByteArray.mk (utf8Bytes s).toArray = s.toByteArray := by simp [utf8Bytes]
  rw [same, String.fromUTF8?, dif_pos s.isValidUTF8]
  rfl

theorem utf8Bytes_injective {s t : String} (same : utf8Bytes s = utf8Bytes t) : s = t := by
  have back := fromUTF8?_utf8Bytes s
  rw [same, fromUTF8?_utf8Bytes, Option.some.injEq] at back
  exact back.symm

/-- Only the bytes of a text are read back as it. -/
theorem fromUTF8?_eq_some_iff {bytes : List UInt8} {s : String} :
    String.fromUTF8? (ByteArray.mk bytes.toArray) = some s ↔ bytes = utf8Bytes s := by
  constructor
  · intro read
    unfold String.fromUTF8? at read
    split at read
    · cases read
      rfl
    · cases read
  · rintro rfl
    exact fromUTF8?_utf8Bytes s

theorem utf8EncodeChar_ascii {c : Char} (small : c.toNat < 0x80) :
    String.utf8EncodeChar c = [UInt8.ofNat c.toNat] :=
  if_pos (Nat.le_of_lt_succ small)

theorem flatMap_utf8EncodeChar_ascii {cs : List Char} (small : ∀ c ∈ cs, c.toNat < 0x80) :
    cs.flatMap String.utf8EncodeChar = cs.map fun c => UInt8.ofNat c.toNat := by
  induction cs with
  | nil => rfl
  | cons c rest ih =>
      obtain ⟨here, others⟩ := List.forall_mem_cons.mp small
      rw [List.flatMap_cons, utf8EncodeChar_ascii here, ih others, List.map_cons, List.singleton_append]

/-- The bytes of a character beyond ASCII are beyond ASCII. -/
theorem large_of_mem_utf8EncodeChar {c : Char} (large : 0x80 ≤ c.toNat) {b : UInt8}
    (member : b ∈ String.utf8EncodeChar c) : 0x80 ≤ b.toNat := by
  have notSmall : ¬c.val.toNat ≤ 0x7f := Nat.not_le_of_lt large
  unfold String.utf8EncodeChar at member
  simp only [notSmall, if_false] at member
  split at member
  · simp only [List.mem_cons, List.not_mem_nil, or_false] at member
    rcases member with rfl | rfl <;> simp <;> omega
  · split at member
    · simp only [List.mem_cons, List.not_mem_nil, or_false] at member
      rcases member with rfl | rfl | rfl <;> simp <;> omega
    · simp only [List.mem_cons, List.not_mem_nil, or_false] at member
      rcases member with rfl | rfl | rfl | rfl <;> simp <;> omega

/-- The bytes of characters are in the order of the characters, whatever follows them. -/
theorem utf8EncodeChar_lt {c d : Char} (less : c < d) (cs ds : List UInt8) :
    String.utf8EncodeChar c ++ cs < String.utf8EncodeChar d ++ ds := by
  have less : c.val.toNat < d.val.toNat := less
  have bound : d.val.toNat < 0x110000 := by
    have := d.valid
    unfold UInt32.isValidChar Nat.isValidChar at this
    omega
  unfold String.utf8EncodeChar
  dsimp only
  repeat' split
  all_goals
    simp only [List.cons_append, List.nil_append, List.cons_lt_cons_iff, UInt8.lt_iff_toNat_lt, ← UInt8.toNat_inj,
      UInt8.toNat_ofNat']
    simp (disch := omega) only [Nat.mod_eq_of_lt]
    omega

/-- The order of texts is that of their bytes. -/
theorem utf8Bytes_lt {s t : String} (less : s < t) : utf8Bytes s < utf8Bytes t := by
  have ordered {cs ds : List Char} (less : cs < ds) :
      cs.flatMap String.utf8EncodeChar < ds.flatMap String.utf8EncodeChar := by
    induction less with
    | @nil d ds =>
        obtain ⟨b, bs, first⟩ := List.exists_cons_of_ne_nil (String.utf8EncodeChar_ne_nil (c := d))
        rw [List.flatMap_cons, first]
        exact List.nil_lt_cons b _
    | rel here => exact utf8EncodeChar_lt here _ _
    | cons _ ih => exact List.append_left_lt ih
  rw [utf8Bytes_eq, utf8Bytes_eq]
  exact ordered less

end ChainRelay
