import ChainRelay.Json.Shape
import ChainRelay.Proofs.Json.Reading

/-! # Reading records

A record is read from every spelling of an object whose members fill its slots one after the other.
-/

namespace ChainRelay.Json

open Reader

theorem firstOfValue_token {ws : List UInt8} (blank : Blank ws) {b : UInt8}
    (token : isJsonBlank b = false) (rest : List UInt8) :
    firstOfValue (ws ++ b :: rest) = .ok (b, b :: rest) := by
  rw [firstOfValue, run_nextToken blank token]
  rfl

theorem Reader.Reads.then_pure {r : Reader α} {v : Value} {a : α} (reads : r.Reads v a) (f : α → β) :
    (r >>= fun x => pure (f x)).Reads v (f a) := by
  intro ws text rest blank spelled ends
  rw [run_bind (reads ws text rest blank spelled ends)]
  rfl

theorem readText_reads (s : String) : readText.Reads (.string s) s := by
  intro ws text rest blank spelled ends
  cases spelled
  have bytes : ws ++ utf8Bytes (quoted s) ++ rest = ws ++ 0x22 :: (content s ++ 0x22 :: rest) := by
    simp [utf8Bytes_quoted]
  have opened : advance (0x22 :: (content s ++ 0x22 :: rest)) = .ok ((), content s ++ 0x22 :: rest) := rfl
  rw [bytes, readText, run_bind (firstOfValue_token blank (by decide) _), if_pos rfl, run_bind opened]
  exact readString_content s rest

theorem readBool_reads (b : Bool) : readBool.Reads (.bool b) b := by
  intro ws text rest blank spelled ends
  cases spelled with
  | yes =>
      have bytes : ws ++ utf8Bytes "true" ++ rest = ws ++ 0x74 :: 0x72 :: 0x75 :: 0x65 :: rest := by
        rw [List.append_assoc]
        rfl
      rw [bytes, readBool, run_bind (firstOfValue_token blank (by decide) _)]
      rfl
  | no =>
      have bytes : ws ++ utf8Bytes "false" ++ rest = ws ++ 0x66 :: 0x61 :: 0x6C :: 0x73 :: 0x65 :: rest := by
        rw [List.append_assoc]
        rfl
      rw [bytes, readBool, run_bind (firstOfValue_token blank (by decide) _)]
      rfl

/-- An object is no `null`. -/
theorem readOptional_reads {r : Reader α} {members : Members} {a : α}
    (reads : r.Reads (.object members) a) : (readOptional r).Reads (.object members) (some a) := by
  intro ws text rest blank spelled ends
  cases spelled with
  | @object _ body spelled =>
      have read : r (0x7B :: (body ++ [0x7D] ++ rest)) = .ok (a, rest) :=
        reads [] _ rest blank_nil (.object spelled) ends
      have bytes : ws ++ (0x7B :: body ++ [0x7D]) ++ rest = ws ++ 0x7B :: (body ++ [0x7D] ++ rest) := by simp
      have kept : (some <$> r) (0x7B :: (body ++ [0x7D] ++ rest)) = .ok (some a, rest) := by
        rw [← bind_pure_comp, run_bind read]
        rfl
      rw [bytes, readOptional, run_nextToken blank (by decide)]
      exact kept

theorem readList_reads {item : Nat → Reader α} {room : Nat} (value : β → Value) (result : β → α) {xs : List β}
    (each : ∀ x ∈ xs, (item room).Reads (value x) (result x)) :
    (readList item (room + 1)).Reads (.array (xs.map value)) (xs.map result) := by
  intro ws text rest blank spelled ends
  cases spelled with
  | @array _ body spelled =>
      have read := readItems_body id value result each spelled rest
      have bytes : ws ++ (0x5B :: body ++ [0x5D]) ++ rest = ws ++ 0x5B :: (body ++ 0x5D :: rest) := by simp
      have opened : advance (0x5B :: (body ++ 0x5D :: rest)) = .ok ((), body ++ 0x5D :: rest) := rfl
      rw [bytes, readList, run_bind (firstOfValue_token blank (by decide) _), if_pos rfl]
      simp only [run_bind opened]
      exact read

namespace Shape

/-- The members fill slots of a record that were still free, one after the other. -/
inductive Fills (shape : Shape σ α) (room : Nat) : σ → Members → σ → Prop where
  | done {record : σ} : Fills shape room record [] record
  | next {record filled : σ} {name : String} {v : Value} {rest : Members} {slot : Slot σ} {put : σ → σ}
      (declared : shape.slots.find? (·.name == name) = some slot) (free : slot.filled record = false)
      (reads : (slot.read room).Reads v put) (more : Fills shape room (put record) rest filled) :
      Fills shape room record ((name, v) :: rest) filled

theorem readFields_spelled {shape : Shape σ α} {room : Nat} {record filled : σ} {members : Members}
    (fills : shape.Fills room record members filled) {first : Bool} {body : List UInt8}
    (spelled : SpellsMembers first members body) {fuel : Nat} (enough : members.length < fuel)
    (rest : List UInt8) :
    shape.readFields room fuel first record (body ++ 0x7D :: rest) = .ok (filled, 0x7D :: rest) := by
  induction fills generalizing first body fuel with
  | done =>
      cases spelled with
      | done blank =>
          obtain ⟨fuel, rfl⟩ := Nat.exists_eq_succ_of_ne_zero (Nat.ne_zero_of_lt enough)
          simp only [readFields, run_bind (nextName_done blank rest)]
          rfl
  | @next record filled name v members slot put declared free reads more ih =>
      obtain ⟨fuel, rfl⟩ := Nat.exists_eq_succ_of_ne_zero (Nat.ne_zero_of_lt enough)
      cases spelled with
      | @next _ _ _ _ before after gap gap' text others blank blank' blankGap blankGap' value later =>
          have named := nextName_next first blank blank' name
            (gap ++ [0x3A] ++ gap' ++ text ++ (others ++ 0x7D :: rest))
          have member := readMember_spelled reads name blankGap blankGap' value (later.endsNumber rest)
          have fewer : members.length < fuel := by simpa using enough
          have tail := ih later fewer
          have bytes : before ++ comma first ++ after ++ utf8Bytes (quoted name) ++ gap ++ [0x3A] ++ gap' ++
              text ++ others ++ 0x7D :: rest = before ++ comma first ++ after ++ utf8Bytes (quoted name) ++
                (gap ++ [0x3A] ++ gap' ++ text ++ (others ++ 0x7D :: rest)) := by simp
          rw [bytes]
          simp only [readFields, run_bind named, declared, free, Bool.false_eq_true, if_false, run_bind member,
            tail]

/-- A record is read from each spelling of an object whose members fill it. -/
theorem read_reads {shape : Shape σ α} {room : Nat} {members : Members} {record : σ} {a : α}
    (fills : shape.Fills room shape.empty members record)
    (complete : shape.slots.find? (fun slot => slot.required && !slot.filled record) = none)
    (finish : shape.finish record = some a) : (shape.read (room + 1)).Reads (.object members) a := by
  intro ws text rest blank spelled ends
  cases spelled with
  | @object _ body spelled =>
      have bytes : ws ++ (0x7B :: body ++ [0x7D]) ++ rest = ws ++ 0x7B :: (body ++ 0x7D :: rest) := by simp
      have opened : advance (0x7B :: (body ++ 0x7D :: rest)) = .ok ((), body ++ 0x7D :: rest) := rfl
      have bounded : bound (body ++ 0x7D :: rest) =
          .ok ((body ++ 0x7D :: rest).length + 1, body ++ 0x7D :: rest) := rfl
      have enough : members.length < (body ++ 0x7D :: rest).length + 1 := by
        have count := length_members spelled
        simp at count ⊢
        omega
      have fields := readFields_spelled fills spelled enough rest
      have finished : shape.complete failAfterObject record (0x7D :: rest) = .ok (a, 0x7D :: rest) := by
        simp only [Shape.complete, complete, finish]
        rfl
      rw [bytes, Shape.read, run_bind (firstOfValue_token blank (by decide) _), if_pos rfl]
      simp only [run_bind opened, run_bind bounded, run_bind fields, run_bind finished,
        run_bind (closeObject_done rest)]
      rfl

end Shape

end ChainRelay.Json
