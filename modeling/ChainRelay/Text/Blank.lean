/-! # White space

The characters with the Unicode property `White_Space`. -/

namespace ChainRelay

/-- A character is blank when it has the Unicode property `White_Space`. -/
def isBlank (c : Char) : Bool :=
  let n := c.toNat
  (0x09 ≤ n && n ≤ 0x0D) || n == 0x20 || n == 0x85 || n == 0xA0 || n == 0x1680 ||
    (0x2000 ≤ n && n ≤ 0x200A) || n == 0x2028 || n == 0x2029 || n == 0x202F || n == 0x205F ||
    n == 0x3000

/-- Cut blank characters off both ends. -/
def trimBlanks (s : String) : String :=
  String.ofList ((s.toList.dropWhile isBlank).reverse.dropWhile isBlank).reverse

/-- Blank characters around a text are cut off with its own. -/
theorem trimBlanks_around {before after : String} (front : ∀ c ∈ before.toList, isBlank c)
    (back : ∀ c ∈ after.toList, isBlank c) (s : String) : trimBlanks (before ++ s ++ after) = trimBlanks s := by
  simp only [trimBlanks, String.toList_append, List.append_assoc, List.dropWhile_append_of_pos front]
  rw [List.dropWhile_append]
  split
  · next blank =>
      have none : (after.toList ++ []).dropWhile isBlank = [] := List.dropWhile_append_of_pos back
      rw [List.append_nil] at none
      rw [none, List.isEmpty_iff.mp blank]
  · rw [List.reverse_append, List.dropWhile_append_of_pos (by simpa using back)]

/-- Cut blank characters off the right end. -/
def trimBlanksRight (s : String) : String :=
  String.ofList (s.toList.reverse.dropWhile isBlank).reverse

/-- A text that begins with a visible character keeps it. -/
theorem head?_trimBlanksRight {s : String} {c : Char} (opens : s.toList.head? = some c)
    (visible : isBlank c = false) : (trimBlanksRight s).toList.head? = some c := by
  obtain ⟨rest, whole⟩ := List.head?_eq_some_iff.mp opens
  rw [trimBlanksRight, whole, String.toList_ofList, List.reverse_cons, List.dropWhile_append]
  split
  · simp [visible]
  · simp

/-- Pad with spaces on the right up to `width` characters. -/
def padRight (width : Nat) (s : String) : String :=
  s ++ String.ofList (List.replicate (width - s.length) ' ')

/-- Pad with spaces on the left up to `width` characters. -/
def padLeft (width : Nat) (s : String) : String :=
  String.ofList (List.replicate (width - s.length) ' ') ++ s

end ChainRelay
