import ChainRelay.Json.Reader
import ChainRelay.Proofs.Text.Encoding

/-! # What JSON text spells

The grammar of the texts of a value, with blanks between the tokens as one likes and with numbers and strings
as they are printed. Both layouts of the printer are spelled by it; a reader that takes every spelling of a
value does not depend on the layout.
-/

namespace ChainRelay.Json

/-- Bytes that separate tokens. -/
def Blank (bytes : List UInt8) : Prop :=
  ∀ b ∈ bytes, isJsonBlank b = true

/-- What stands before an item: a comma, unless it is the first. -/
def comma (first : Bool) : List UInt8 :=
  if first then [] else [0x2C]

mutual

/-- The bytes are a text of the value, without blanks around it. -/
inductive Spells : Value → List UInt8 → Prop where
  | null : Spells .null (utf8Bytes "null")
  | yes : Spells (.bool true) (utf8Bytes "true")
  | no : Spells (.bool false) (utf8Bytes "false")
  | int {n : Int} {fits} : Spells (.number (.int n fits)) (utf8Bytes (Number.intText n))
  | float {x : Float} : Spells (.number (.float x)) (utf8Bytes (Number.floatText x))
  | string {s : String} : Spells (.string s) (utf8Bytes (quoted s))
  | array {items : List Value} {body : List UInt8} (spelled : SpellsItems true items body) :
      Spells (.array items) (0x5B :: body ++ [0x5D])
  | object {members : Members} {body : List UInt8} (spelled : SpellsMembers true members body) :
      Spells (.object members) (0x7B :: body ++ [0x7D])

/-- The bytes are a text of the items up to the end of their list. -/
inductive SpellsItems : (first : Bool) → List Value → List UInt8 → Prop where
  | done {first : Bool} {ws : List UInt8} (blank : Blank ws) : SpellsItems first [] ws
  | next {first : Bool} {v : Value} {rest : List Value} {before after text others : List UInt8}
      (blank : Blank before) (blank' : Blank after) (item : Spells v text)
      (more : SpellsItems false rest others) :
      SpellsItems first (v :: rest) (before ++ comma first ++ after ++ text ++ others)

/-- The bytes are a text of the members up to the end of their object. -/
inductive SpellsMembers : (first : Bool) → Members → List UInt8 → Prop where
  | done {first : Bool} {ws : List UInt8} (blank : Blank ws) : SpellsMembers first [] ws
  | next {first : Bool} {name : String} {v : Value} {rest : Members}
      {before after gap gap' text others : List UInt8} (blank : Blank before) (blank' : Blank after)
      (blankGap : Blank gap) (blankGap' : Blank gap') (value : Spells v text)
      (more : SpellsMembers false rest others) :
      SpellsMembers first ((name, v) :: rest)
        (before ++ comma first ++ after ++ utf8Bytes (quoted name) ++ gap ++ [0x3A] ++ gap' ++ text ++ others)

end

/-- A value without floating point numbers. -/
inductive Value.Whole : Value → Prop where
  | null : Whole .null
  | bool {b : Bool} : Whole (.bool b)
  | int {n : Int} {fits} : Whole (.number (.int n fits))
  | string {s : String} : Whole (.string s)
  | array {items : List Value} (each : ∀ v ∈ items, Whole v) : Whole (.array items)
  | object {members : Members} (each : ∀ m ∈ members, Whole m.2) : Whole (.object members)

/-- A value as it is read from a text without floating point numbers: it opens at most `room` containers
inside each other, and the members of its objects are in ascending order. -/
inductive Value.Fits : (room : Nat) → Value → Prop where
  | null {room : Nat} : Fits room .null
  | bool {room : Nat} {b : Bool} : Fits room (.bool b)
  | int {room : Nat} {n : Int} {fits} : Fits room (.number (.int n fits))
  | string {room : Nat} {s : String} : Fits room (.string s)
  | array {room : Nat} {items : List Value} (each : ∀ v ∈ items, Fits room v) : Fits (room + 1) (.array items)
  | object {room : Nat} {members : Members} (ascending : members.names.Pairwise (· < ·))
      (each : ∀ m ∈ members, Fits room m.2) : Fits (room + 1) (.object members)

theorem blank_nil : Blank [] := by simp [Blank]

theorem blank_lineBreak (level : Nat) : Blank (utf8Bytes (lineBreak level)) := by
  rw [lineBreak, utf8Bytes_append, utf8Bytes_ofList (List.replicate _ _)]
  intro b member
  rcases List.mem_append.mp member with first | spaces
  · have newline : b = 0x0A := List.mem_singleton.mp first
    subst newline
    rfl
  · obtain ⟨c, inside, here⟩ := List.mem_flatMap.mp spaces
    rw [List.eq_of_mem_replicate inside] at here
    have space : b = 0x20 := List.mem_singleton.mp here
    subst space
    rfl

/-- Parts with commas between them. -/
def listed (first : Bool) : List (List UInt8) → List UInt8
  | [] => []
  | part :: rest => comma first ++ part ++ listed false rest

theorem spellsItems_listed (text : Value → List UInt8) {gap close : List UInt8} (blank : Blank gap)
    (blankClose : Blank close) {items : List Value} (each : ∀ v ∈ items, Spells v (text v))
    (first : Bool) :
    SpellsItems first items (listed first (items.map fun v => gap ++ text v) ++ close) := by
  induction items generalizing first with
  | nil => exact .done blankClose
  | cons v rest ih =>
      obtain ⟨here, others⟩ := List.forall_mem_cons.mp each
      have spelled : SpellsItems first (v :: rest) _ := .next blank_nil blank here (ih others false)
      simpa only [List.map_cons, listed, List.nil_append, List.append_assoc] using spelled

theorem spellsMembers_listed (text : Value → List UInt8) {gap gap' close : List UInt8}
    (blank : Blank gap) (blank' : Blank gap') (blankClose : Blank close) {members : Members}
    (each : ∀ m ∈ members, Spells m.2 (text m.2)) (first : Bool) :
    SpellsMembers first members (listed first (members.map fun m =>
      gap ++ utf8Bytes (quoted m.1) ++ [0x3A] ++ gap' ++ text m.2) ++ close) := by
  induction members generalizing first with
  | nil => exact .done blankClose
  | cons m rest ih =>
      obtain ⟨name, v⟩ := m
      obtain ⟨here, others⟩ := List.forall_mem_cons.mp each
      have spelled : SpellsMembers first ((name, v) :: rest) _ :=
        .next blank_nil blank blank_nil blank' here (ih others false)
      simpa only [List.map_cons, listed, List.nil_append, List.append_nil, List.append_assoc] using spelled

theorem listed_later (part : List UInt8) (rest : List (List UInt8)) :
    listed false (part :: rest) = 0x2C :: listed true (part :: rest) := rfl

theorem utf8Bytes_comma : utf8Bytes "," = [0x2C] := by decide

theorem utf8Bytes_colon : utf8Bytes ":" = [0x3A] := by decide

theorem utf8Bytes_colonSpace : utf8Bytes ": " = [0x3A, 0x20] := by decide

theorem utf8Bytes_openList : utf8Bytes "[" = [0x5B] := by decide

theorem utf8Bytes_closeList : utf8Bytes "]" = [0x5D] := by decide

theorem utf8Bytes_openObject : utf8Bytes "\x7b" = [0x7B] := by decide

theorem utf8Bytes_closeObject : utf8Bytes "\x7d" = [0x7D] := by decide

namespace Value

theorem utf8Bytes_prettyItems (level : Nat) (v : Value) (rest : List Value) :
    utf8Bytes (prettyItems level (v :: rest)) = listed true ((v :: rest).map fun v =>
      utf8Bytes (lineBreak level) ++ utf8Bytes (v.prettyAt level)) := by
  induction rest generalizing v with
  | nil => simp [prettyItems, listed, comma]
  | cons w rest ih =>
      have later := ih w
      simp only [List.map_cons] at later ⊢
      rw [prettyItems, listed, listed_later, ← later]
      simp [utf8Bytes_comma, comma]

theorem utf8Bytes_prettyMembers (level : Nat) (m : String × Value) (rest : Members) :
    utf8Bytes (prettyMembers level (m :: rest)) = listed true ((m :: rest).map fun m =>
      utf8Bytes (lineBreak level) ++ utf8Bytes (quoted m.1) ++ [0x3A] ++ [0x20] ++
        utf8Bytes (m.2.prettyAt level)) := by
  induction rest generalizing m with
  | nil => simp [prettyMembers, listed, comma, utf8Bytes_colonSpace]
  | cons w rest ih =>
      have later := ih w
      simp only [List.map_cons] at later ⊢
      rw [prettyMembers, listed, listed_later, ← later]
      simp [utf8Bytes_comma, utf8Bytes_colonSpace, comma]

theorem utf8Bytes_compactItems (v : Value) (rest : List Value) :
    utf8Bytes (compactItems (v :: rest)) =
      listed true ((v :: rest).map fun v => utf8Bytes v.compact) := by
  induction rest generalizing v with
  | nil => simp [compactItems, listed, comma]
  | cons w rest ih =>
      have later := ih w
      simp only [List.map_cons] at later ⊢
      rw [compactItems, listed, listed_later, ← later]
      simp [utf8Bytes_comma, comma]

theorem utf8Bytes_compactMembers (m : String × Value) (rest : Members) :
    utf8Bytes (compactMembers (m :: rest)) = listed true ((m :: rest).map fun m =>
      utf8Bytes (quoted m.1) ++ [0x3A] ++ utf8Bytes m.2.compact) := by
  induction rest generalizing m with
  | nil => simp [compactMembers, listed, comma, utf8Bytes_colon]
  | cons w rest ih =>
      have later := ih w
      simp only [List.map_cons] at later ⊢
      rw [compactMembers, listed, listed_later, ← later]
      simp [utf8Bytes_comma, utf8Bytes_colon, comma]

/-- A property of all values is shown of the parts of a container first. -/
@[elab_as_elim]
theorem rec_parts {P : Value → Prop} (null : P .null) (bool : ∀ b, P (.bool b)) (number : ∀ n, P (.number n))
    (string : ∀ s, P (.string s)) (array : ∀ items, (∀ v ∈ items, P v) → P (.array items))
    (object : ∀ members : Members, (∀ m ∈ members, P m.2) → P (.object members)) : ∀ v, P v
  | .null => null
  | .bool b => bool b
  | .number n => number n
  | .string s => string s
  | .array items => array items fun v _ => rec_parts null bool number string array object v
  | .object members => object members fun m _ => rec_parts null bool number string array object m.2
decreasing_by
  · rename_i member
    have smaller := List.sizeOf_lt_of_mem member
    simp only [Value.array.sizeOf_spec]
    omega
  · rename_i member
    have smaller := List.sizeOf_lt_of_mem member
    obtain ⟨name, v⟩ := m
    simp only [Value.object.sizeOf_spec, Prod.mk.sizeOf_spec] at smaller ⊢
    omega

/-- The layout with lines is a spelling. -/
theorem spells_prettyAt (v : Value) (level : Nat) : Spells v (utf8Bytes (v.prettyAt level)) := by
  induction v using rec_parts generalizing level with
  | null => exact .null
  | bool b =>
      cases b with
      | true => exact .yes
      | false => exact .no
  | number n =>
      cases n with
      | int => exact .int
      | float => exact .float
  | string => exact .string
  | array items ih =>
      cases items with
      | nil => exact .array (.done blank_nil)
      | cons v rest =>
          have spelled := spellsItems_listed (fun v => utf8Bytes (v.prettyAt (level + 1)))
            (blank_lineBreak (level + 1)) (blank_lineBreak level) (fun u member => ih u member (level + 1)) true
          rw [← utf8Bytes_prettyItems] at spelled
          simpa [prettyAt, utf8Bytes_openList, utf8Bytes_closeList] using Spells.array spelled
  | object members ih =>
      cases members with
      | nil => exact .object (.done blank_nil)
      | cons m rest =>
          have space : Blank [0x20] := by simp [Blank, isJsonBlank]
          have spelled := spellsMembers_listed (fun v => utf8Bytes (v.prettyAt (level + 1)))
            (blank_lineBreak (level + 1)) space (blank_lineBreak level)
            (fun m member => ih m member (level + 1)) true
          rw [← utf8Bytes_prettyMembers] at spelled
          simpa [prettyAt, utf8Bytes_openObject, utf8Bytes_closeObject] using Spells.object spelled

/-- The layout without blanks is a spelling. -/
theorem spells_compact (v : Value) : Spells v (utf8Bytes v.compact) := by
  induction v using rec_parts with
  | null => exact .null
  | bool b =>
      cases b with
      | true => exact .yes
      | false => exact .no
  | number n =>
      cases n with
      | int => exact .int
      | float => exact .float
  | string => exact .string
  | array items ih =>
      cases items with
      | nil => exact .array (.done blank_nil)
      | cons v rest =>
          have spelled := spellsItems_listed (fun v => utf8Bytes v.compact) blank_nil blank_nil
            (fun u member => ih u member) true
          simp only [List.nil_append, ← utf8Bytes_compactItems] at spelled
          simpa [compact, utf8Bytes_openList, utf8Bytes_closeList] using Spells.array spelled
  | object members ih =>
      cases members with
      | nil => exact .object (.done blank_nil)
      | cons m rest =>
          have spelled := spellsMembers_listed (fun v => utf8Bytes v.compact) blank_nil blank_nil blank_nil
            (fun m member => ih m member) true
          simp only [List.nil_append, List.append_nil, ← utf8Bytes_compactMembers] at spelled
          simpa [compact, utf8Bytes_openObject, utf8Bytes_closeObject] using Spells.object spelled

end Value

end ChainRelay.Json
