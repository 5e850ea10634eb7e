import ChainRelay.Proofs.Json.Syntax

/-! # Where a container ends

A list or an object ends at the bracket that closes it. So no document goes on behind a container in front of
it, but with blanks.
-/

namespace ChainRelay.Json

/-- Where a scan for brackets stands. -/
inductive Scan where
  /-- Inside containers, but not inside a string. -/
  | among (depth : Nat)
  | quoted (depth : Nat)
  /-- Behind a backslash. -/
  | escaped (depth : Nat)
  /-- Right behind the outermost container. -/
  | closed
  | beyond

namespace Scan

/-- One byte further. -/
def step : Scan → UInt8 → Scan
  | .among depth, b =>
    if b = 0x22 then .quoted depth
    else if b = 0x5B ∨ b = 0x7B then .among (depth + 1)
    else if b = 0x5D ∨ b = 0x7D then (if depth ≤ 1 then .closed else .among (depth - 1))
    else .among depth
  | .quoted depth, b => if b = 0x22 then .among depth else if b = 0x5C then .escaped depth else .quoted depth
  | .escaped depth, _ => .quoted depth
  | .closed, _ => .beyond
  | .beyond, _ => .beyond

/-- Over all the bytes. -/
def run (s : Scan) (bytes : List UInt8) : Scan :=
  bytes.foldl step s

theorem run_append (s : Scan) (front text : List UInt8) : s.run (front ++ text) = (s.run front).run text :=
  List.foldl_append

theorem run_cons (s : Scan) (b : UInt8) (text : List UInt8) : s.run (b :: text) = (s.step b).run text :=
  rfl

theorem run_beyond (text : List UInt8) : beyond.run text = .beyond := by
  induction text with
  | nil => rfl
  | cons b text ih => exact ih

/-- A container closes at its end and is gone beyond by everything else. -/
theorem eq_nil_of_run_closed {text : List UInt8} (still : closed.run text ≠ .beyond) : text = [] := by
  cases text with
  | nil => rfl
  | cons b text => exact absurd (run_beyond text) still

/-- Where the scan stands behind a container inside as many others. -/
def behind : Nat → Scan
  | 0 => .closed
  | depth + 1 => .among (depth + 1)

end Scan

/-- Neither quotes nor brackets. -/
def Plain (bytes : List UInt8) : Prop :=
  ∀ b ∈ bytes, b ∉ [0x22, 0x5B, 0x5D, 0x7B, 0x7D]

theorem Plain.run {text : List UInt8} (plain : Plain text) (depth : Nat) :
    (Scan.among depth).run text = .among depth := by
  induction text with
  | nil => rfl
  | cons b text ih =>
      obtain ⟨here, others⟩ := List.forall_mem_cons.mp plain
      simp only [List.mem_cons, List.not_mem_nil, or_false, not_or] at here
      obtain ⟨quote, openList, closeList, openObject, closeObject⟩ := here
      have stays : (Scan.among depth).step b = .among depth := by
        simp only [Scan.step, quote, openList, closeList, openObject, closeObject, or_self, if_false]
      rw [Scan.run_cons, stays, ih others]

theorem Plain.append {text text' : List UInt8} (plain : Plain text) (plain' : Plain text') : Plain (text ++ text') :=
  List.forall_mem_append.mpr ⟨plain, plain'⟩

theorem Plain.cons {b : UInt8} {text : List UInt8} (here : b ∉ [0x22, 0x5B, 0x5D, 0x7B, 0x7D]) (plain : Plain text) :
    Plain (b :: text) :=
  List.forall_mem_cons.mpr ⟨here, plain⟩

theorem plain_nil : Plain [] :=
  List.forall_mem_nil _

/-! ## Tokens -/

theorem Blank.plain {ws : List UInt8} (blank : Blank ws) : Plain ws := by
  have none : ∀ b ∈ [0x22, 0x5B, 0x5D, 0x7B, 0x7D], isJsonBlank b = false := by simp [isJsonBlank]
  intro b member special
  exact Bool.false_ne_true ((none b special).symm.trans (blank b member))

theorem Digits.plain {ds : List UInt8} (digits : Digits ds) : Plain ds := by
  have none : ∀ b ∈ [0x22, 0x5B, 0x5D, 0x7B, 0x7D], isDigit b = false := by simp [isDigit]
  intro b member special
  exact Bool.false_ne_true ((none b special).symm.trans (digits.2 b member))

theorem Exponent.plain {text : List UInt8} (exponent : Exponent text) : Plain text := by
  cases exponent with
  | none => exact plain_nil
  | some letter digits =>
      refine .cons (by rcases letter with rfl | rfl <;> decide) ?_
      cases digits with
      | plain digits => exact digits.plain
      | signed either digits => exact .cons (by rcases either with rfl | rfl <;> decide) digits.plain

theorem NumberEnd.plain {text : List UInt8} (more : NumberEnd text) : Plain text := by
  cases more with
  | whole exponent => exact exponent.plain
  | decimals digits exponent => exact .cons (by decide) (digits.plain.append exponent.plain)

theorem Unsigned.plain {text : List UInt8} (unsigned : Unsigned text) : Plain text := by
  cases unsigned with
  | zero more => exact .cons (by decide) more.plain
  | digits _ digits more => exact digits.plain.append more.plain

theorem NumberText.isPlain {text : List UInt8} (number : NumberText text) : Plain text := by
  cases number with
  | plain unsigned => exact unsigned.plain
  | negative unsigned => exact .cons (by decide) unsigned.plain

theorem quoted_step {b : UInt8} (quote : b ≠ 0x22) (slash : b ≠ 0x5C) (depth : Nat) :
    (Scan.quoted depth).step b = .quoted depth := by
  simp only [Scan.step, quote, slash, if_false]

/-- A hexadecimal digit is neither a quote nor a backslash. -/
theorem quoted_step_hex {b : UInt8} {n : Nat} (hex : hexValue? (Char.ofNat b.toNat) = some n) (depth : Nat) :
    (Scan.quoted depth).step b = .quoted depth := by
  have quote : hexValue? (Char.ofNat (0x22 : UInt8).toNat) = none := by decide
  have slash : hexValue? (Char.ofNat (0x5C : UInt8).toNat) = none := by decide
  refine quoted_step ?_ ?_ depth
  · rintro rfl
    exact absurd (quote.symm.trans hex) nofun
  · rintro rfl
    exact absurd (slash.symm.trans hex) nofun

theorem Escape.run {text : List UInt8} (escape : Escape text) (depth : Nat) :
    (Scan.escaped depth).run text = .quoted depth := by
  cases escape with
  | short => rfl
  | @unicode a b c d n quad =>
      simp only [hexQuad, Option.bind_eq_bind, Option.bind_eq_some_iff] at quad
      obtain ⟨_, hexA, _, hexB, _, hexC, _, hexD, -⟩ := quad
      simp only [Scan.run, List.foldl_cons, List.foldl_nil]
      have letter : (Scan.escaped depth).step 0x75 = .quoted depth := rfl
      rw [letter, quoted_step_hex hexA, quoted_step_hex hexB, quoted_step_hex hexC, quoted_step_hex hexD]

theorem StringRest.run {text : List UInt8} (string : StringRest text) (depth : Nat) :
    (Scan.quoted depth).run text = .among depth := by
  induction string with
  | close => rfl
  | plain quote slash _ _ ih => rw [Scan.run_cons, quoted_step quote slash, ih]
  | escape escape _ ih =>
      rw [Scan.run_append, Scan.run_cons]
      exact (congrArg (Scan.run · _) (escape.run depth)).trans ih

/-! ## Values -/

theorem Lead.plain {first : Bool} {front : List UInt8} (lead : Lead first front) : Plain front := by
  obtain ⟨before, after, blank, blank', rfl⟩ := lead
  have separator : Plain (comma first) := by
    cases first with
    | true => exact plain_nil
    | false => exact .cons (by decide) plain_nil
  exact (blank.plain.append separator).append blank'.plain

theorem Colon.plain {gap : List UInt8} (colon : Colon gap) : Plain gap := by
  obtain ⟨before, after, blank, blank', rfl⟩ := colon
  exact blank.plain.append (.cons (by decide) blank'.plain)

theorem Scan.run_brackets {opening ending : UInt8} (opens : opening = 0x5B ∨ opening = 0x7B)
    (ends : ending = 0x5D ∨ ending = 0x7D) {body : List UInt8}
    (inside : ∀ depth, (among (depth + 1)).run body = .among (depth + 1)) (depth : Nat) :
    (among depth).run (opening :: body ++ [ending]) = behind depth := by
  have first : (among depth).step opening = .among (depth + 1) := by
    rcases opens with rfl | rfl <;> rfl
  have last : (among (depth + 1)).step ending = behind depth := by
    cases depth with
    | zero => rcases ends with rfl | rfl <;> rfl
    | succ depth => rcases ends with rfl | rfl <;> rfl
  have within : (among depth).run (opening :: body) = .among (depth + 1) := by rw [run_cons, first, inside]
  rw [run_append, within]
  exact last

mutual

/-- Behind a value inside a container, the scan is where it was. -/
theorem ValueText.run : ∀ {text : List UInt8}, ValueText text → ∀ depth : Nat,
    (Scan.among (depth + 1)).run text = .among (depth + 1)
  | _, .null, _ => rfl
  | _, .yes, _ => rfl
  | _, .no, _ => rfl
  | _, .number number, _ => number.isPlain.run _
  | _, .string string, _ => string.run _
  | _, .array items, depth => Scan.run_brackets (.inl rfl) (.inl rfl) items.run (depth + 1)
  | _, .object members, depth => Scan.run_brackets (.inr rfl) (.inr rfl) members.run (depth + 1)

theorem ItemsText.run : ∀ {first : Bool} {body : List UInt8}, ItemsText first body → ∀ depth : Nat,
    (Scan.among (depth + 1)).run body = .among (depth + 1)
  | _, _, .done blank, _ => blank.plain.run _
  | _, _, .next lead item more, depth => by
      rw [Scan.run_append, Scan.run_append, lead.plain.run, item.run, more.run]

theorem MembersText.run : ∀ {first : Bool} {body : List UInt8}, MembersText first body → ∀ depth : Nat,
    (Scan.among (depth + 1)).run body = .among (depth + 1)
  | _, _, .done blank, _ => blank.plain.run _
  | _, _, @MembersText.next _ front name gap text others lead named colon value more, depth => by
      have quoted : (Scan.among (depth + 1)).run (0x22 :: name) = .among (depth + 1) := named.run _
      rw [Scan.run_append, Scan.run_append, Scan.run_append, Scan.run_append, lead.plain.run, quoted, colon.plain.run,
        value.run, more.run]

end

theorem ContainerText.run {text : List UInt8} (container : ContainerText text) : (Scan.among 0).run text = .closed := by
  cases container with
  | array items => exact Scan.run_brackets (.inl rfl) (.inl rfl) items.run 0
  | object members => exact Scan.run_brackets (.inr rfl) (.inr rfl) members.run 0

/-- No value goes on behind a container. -/
theorem ValueText.run_ne_beyond {text : List UInt8} (value : ValueText text) : (Scan.among 0).run text ≠ .beyond := by
  have inside : Scan.among 0 ≠ .beyond := nofun
  have behind : Scan.closed ≠ .beyond := nofun
  cases value with
  | null => exact inside
  | yes => exact inside
  | no => exact inside
  | number number => rwa [number.isPlain.run]
  | string string =>
      have quoted : (Scan.among 0).run (0x22 :: _) = .among 0 := string.run 0
      rwa [quoted]
  | array items => rwa [(ContainerText.array items).run]
  | object members => rwa [(ContainerText.object members).run]

/-- What begins with a container is a document exactly if nothing but blanks follow. -/
theorem document_append_iff {text rest : List UInt8} (container : Spaced ContainerText text) :
    Document (text ++ rest) ↔ Blank rest := by
  constructor
  · rintro ⟨text', ws, spaced, blank, same⟩
    rcases List.append_eq_append_iff.mp same with ⟨more, rfl, rfl⟩ | ⟨more, rfl, rfl⟩
    · obtain ⟨before, inside, blankBefore, holds, rfl⟩ := container
      obtain ⟨before', value, blankBefore', holds', same'⟩ := spaced
      have ended : (Scan.among 0).run (before ++ inside ++ more) ≠ .beyond := by
        rw [same', Scan.run_append, blankBefore'.plain.run]
        exact holds'.run_ne_beyond
      rw [Scan.run_append, Scan.run_append, blankBefore.plain.run, holds.run] at ended
      rwa [Scan.eq_nil_of_run_closed ended]
    · exact (List.forall_mem_append.mp blank).2
  · exact fun blank => ⟨text, rest, container.mono fun _ => ContainerText.value, blank, rfl⟩

end ChainRelay.Json
