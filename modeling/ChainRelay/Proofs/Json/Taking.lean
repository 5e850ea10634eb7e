import ChainRelay.Proofs.Json.Room
import ChainRelay.Proofs.Json.Syntax
import Mathlib.Data.List.TakeWhile

/-! # What readers take

A reader takes a text from the front of its input. Which texts these are, and that the same text is taken
again when something else follows, is put together from the parts of the reader. A reader may have to look at
the byte behind its text, as at the end of a number; then only what begins with the same byte may follow.
-/

namespace ChainRelay.Json

open Reader

/-- From bytes that begin with `next`, the reader takes a text of the language. From that text, with
something else behind it that begins with the same byte, or with anything at all if the text is `closed`, the
same is taken by each reader `again n`, where `n` is not less than the length of the text. -/
def Reader.TakesFrom (next : Option UInt8) (closed : Bool) (r : Reader α) (again : Nat → Reader α)
    (L : α → List UInt8 → Prop) : Prop :=
  ∀ bytes a rest, bytes.head? = next → r bytes = .ok (a, rest) →
    ∃ text, bytes = text ++ rest ∧ L a text ∧ (closed = true → text ≠ []) ∧
      ∀ n rest', text.length ≤ n → closed = true ∨ rest'.head? = rest.head? →
        again n (text ++ rest') = .ok (a, rest')

/-- The reader takes texts of the language, and takes them again. -/
def Reader.Takes (closed : Bool) (r : Reader α) (L : α → List UInt8 → Prop) : Prop :=
  ∀ next, r.TakesFrom next closed (fun _ => r) L

namespace Reader

variable {next : Option UInt8} {closed : Bool} {r : Reader α} {again : Nat → Reader α}
  {f : α → Reader β} {again' : Nat → α → Reader β}

theorem takes_pure {a : α} {L : α → List UInt8 → Prop} (holds : L a []) :
    (pure a : Reader α).TakesFrom next false (fun _ => pure a) L := by
  intro bytes b rest _ read
  cases read
  exact ⟨[], rfl, holds, nofun, fun _ _ _ _ => rfl⟩

theorem takes_of_fails {L : α → List UInt8 → Prop} (fails : r.Gives fun _ => False) :
    r.TakesFrom next closed again L :=
  fun bytes a rest _ read => (fails bytes a rest read).elim

theorem takes_failHere {p : Problem} {L : α → List UInt8 → Prop} :
    (failHere p : Reader α).TakesFrom next closed again L :=
  takes_of_fails gives_failHere

theorem takes_failAtNext {p : Problem} {L : α → List UInt8 → Prop} :
    (failAtNext p : Reader α).TakesFrom next closed again L :=
  takes_of_fails gives_failAtNext

theorem TakesFrom.mono {L L' : α → List UInt8 → Prop} (takes : r.TakesFrom next closed again L)
    (weaker : ∀ a text, L a text → L' a text) : r.TakesFrom next closed again L' := by
  intro bytes a rest head read
  obtain ⟨text, split, holds, more⟩ := takes bytes a rest head read
  exact ⟨text, split, weaker a text holds, more⟩

/-- If anything may follow, then so may what begins with the same byte. -/
theorem TakesFrom.opened {L : α → List UInt8 → Prop} (takes : r.TakesFrom next closed again L) :
    r.TakesFrom next false again L := by
  intro bytes a rest head read
  obtain ⟨text, split, holds, -, same⟩ := takes bytes a rest head read
  refine ⟨text, split, holds, nofun, fun n rest' small follow => ?_⟩
  exact same n rest' small (.inr (follow.resolve_left nofun))

/-- What follows a text that is not empty, or what has the same first byte, is the same to the text before. -/
theorem head?_append_eq {text rest rest' : List UInt8} (filled : closed = true → text ≠ [])
    (follow : closed = true ∨ rest'.head? = rest.head?) : (text ++ rest').head? = (text ++ rest).head? := by
  cases text with
  | nil =>
      rcases follow with ends | same
      · exact absurd rfl (filled ends)
      · exact same
  | cons b text => rfl

/-- One text behind the other. -/
theorem TakesFrom.bind {any : Bool} {L : α → List UInt8 → Prop} {L' : β → List UInt8 → Prop}
    (takes : r.TakesFrom next any again L)
    (more : ∀ a next, (f a).TakesFrom next closed (fun n => again' n a) fun b text =>
      ∀ front, L a front → L' b (front ++ text)) :
    (r >>= f).TakesFrom next closed (fun n => again n >>= again' n) L' := by
  intro bytes b rest head read
  obtain ⟨a, middle, first, second⟩ := bind_eq_ok_iff.mp read
  obtain ⟨front, rfl, here, -, same⟩ := takes bytes a middle head first
  obtain ⟨text, rfl, there, filled, same'⟩ := more a _ middle b rest rfl second
  refine ⟨front ++ text, (List.append_assoc _ _ _).symm, there front here, ?_, ?_⟩
  · exact fun ends => List.append_ne_nil_of_right_ne_nil _ (filled ends)
  · intro n rest' small follow
    rw [List.length_append] at small
    dsimp only
    rw [List.append_assoc, run_bind (same n _ (by omega) (.inr (head?_append_eq filled follow)))]
    exact same' n rest' (by omega) follow

/-- A text behind one that is not empty is shorter than both. -/
theorem TakesFrom.bindLater {any : Bool} {L : α → List UInt8 → Prop} {L' : β → List UInt8 → Prop}
    (takes : r.TakesFrom next any again L) (filled : ∀ a front, L a front → front ≠ [])
    (more : ∀ a next, (f a).TakesFrom next closed (fun n => again' (n + 1) a) fun b text =>
      ∀ front, L a front → L' b (front ++ text)) :
    (r >>= f).TakesFrom next closed (fun n => again n >>= again' n) L' := by
  intro bytes b rest head read
  obtain ⟨a, middle, first, second⟩ := bind_eq_ok_iff.mp read
  obtain ⟨front, rfl, here, -, same⟩ := takes bytes a middle head first
  obtain ⟨text, rfl, there, filled', same'⟩ := more a _ middle b rest rfl second
  have positive : 0 < front.length := List.length_pos_iff.mpr (filled a front here)
  refine ⟨front ++ text, (List.append_assoc _ _ _).symm, there front here, ?_, ?_⟩
  · exact fun _ => List.append_ne_nil_of_left_ne_nil (filled a front here) _
  · intro n rest' small follow
    rw [List.length_append] at small
    obtain ⟨m, rfl⟩ : ∃ m, n = m + 1 := ⟨n - 1, by omega⟩
    dsimp only
    rw [List.append_assoc, run_bind (same _ _ (by omega) (.inr (head?_append_eq filled' follow)))]
    exact same' m rest' (by omega) follow

theorem TakesFrom.then_pure {L : β → List UInt8 → Prop} {g : α → β}
    (takes : r.TakesFrom next closed again fun a text => L (g a) text) :
    (r >>= fun a => pure (g a)).TakesFrom next closed (fun n => again n >>= fun a => pure (g a)) L := by
  intro bytes b rest head read
  obtain ⟨a, middle, first, second⟩ := bind_eq_ok_iff.mp read
  cases second
  obtain ⟨text, split, here, filled, same⟩ := takes bytes a rest head first
  refine ⟨text, split, here, filled, fun n rest' small follow => ?_⟩
  dsimp only
  rw [run_bind (same n rest' small follow)]
  rfl

/-- What is made of the result does not change the texts. -/
theorem Takes.then_pure {L : List UInt8 → Prop} {g : α → β} (takes : r.Takes closed fun _ => L) :
    (r >>= fun a => pure (g a)).Takes false fun _ => L :=
  fun next => TakesFrom.then_pure (L := fun _ => L) (takes next).opened

theorem TakesFrom.map {L : β → List UInt8 → Prop} {g : α → β}
    (takes : r.TakesFrom next closed again fun a text => L (g a) text) :
    (g <$> r).TakesFrom next closed (fun n => g <$> again n) L := by
  simp only [← bind_pure_comp]
  exact takes.then_pure

theorem TakesFrom.below {L : α → List UInt8 → Prop} (takes : r.TakesFrom next closed again L) (step : Step) :
    (Reader.below step r).TakesFrom next closed (fun n => Reader.below step (again n)) L := by
  intro bytes a rest head read
  have here : r bytes = .ok (a, rest) := by
    simp only [Reader.below] at read
    split at read
    · cases read
      assumption
    · cases read
  obtain ⟨text, split, holds, filled, same⟩ := takes bytes a rest head here
  refine ⟨text, split, holds, filled, fun n rest' small follow => ?_⟩
  simp only [Reader.below, same n rest' small follow]

theorem takes_ite {c : Prop} [Decidable c] {s : Reader α} {again' : Nat → Reader α}
    {L : α → List UInt8 → Prop} (yes : c → r.TakesFrom next closed again L)
    (no : ¬c → s.TakesFrom next closed again' L) :
    (if c then r else s).TakesFrom next closed (fun n => if c then again n else again' n) L := by
  by_cases holds : c
  · simp only [holds, if_true]
    exact yes holds
  · simp only [holds, if_false]
    exact no holds

theorem takes_peek {f : Option UInt8 → Reader α} {again : Nat → Option UInt8 → Reader α}
    {L : α → List UInt8 → Prop} (more : (f next).TakesFrom next closed (fun n => again n next) L) :
    (peek >>= f).TakesFrom next closed (fun n => peek >>= again n) L := by
  rintro bytes a rest rfl read
  obtain ⟨text, rfl, holds, filled, same⟩ := more bytes a rest rfl read
  refine ⟨text, rfl, holds, filled, fun n rest' small follow => ?_⟩
  have peeked : peek (text ++ rest') = .ok ((text ++ rest).head?, text ++ rest') := by
    rw [← head?_append_eq filled follow]
    rfl
  dsimp only
  rw [run_bind peeked]
  exact same n rest' small follow

theorem takes_advance {b : UInt8} :
    advance.TakesFrom (some b) true (fun _ => advance) fun _ text => text = [b] := by
  rintro bytes a rest head read
  cases read
  obtain ⟨rest, rfl⟩ := List.head?_eq_some_iff.mp head
  exact ⟨[b], rfl, rfl, fun _ => List.cons_ne_nil _ _, fun _ _ _ _ => rfl⟩

theorem takes_advance_bind {b : UInt8} {f : Unit → Reader α} {again : Nat → Unit → Reader α}
    {L : α → List UInt8 → Prop}
    (more : ∀ next, (f ()).TakesFrom next closed (fun n => again (n + 1) ()) fun a text => L a (b :: text)) :
    (advance >>= f).TakesFrom (some b) closed (fun n => advance >>= again n) L := by
  refine takes_advance.bindLater (fun _ _ same => same ▸ List.cons_ne_nil _ _) fun _ next => ?_
  refine (more next).mono ?_
  rintro a text holds _ rfl
  exact holds

theorem nextToken_append {ws rest : List UInt8} (blank : Blank ws)
    (token : ∀ b, rest.head? = some b → isJsonBlank b = false) :
    nextToken (ws ++ rest) = .ok (rest.head?, rest) := by
  cases rest with
  | nil =>
      have passed : ws.dropWhile isJsonBlank = [] := List.dropWhile_eq_nil_iff.mpr blank
      simp only [nextToken, List.append_nil, passed]
  | cons b rest => exact nextToken_blank blank (token b rfl) rest

theorem takes_nextToken {f : Option UInt8 → Reader α} {again : Nat → Option UInt8 → Reader α}
    {L : α → List UInt8 → Prop}
    (more : ∀ token, (f token).TakesFrom token closed (fun n => again n token) fun a text =>
      ∀ ws, Blank ws → L a (ws ++ text)) :
    (nextToken >>= f).TakesFrom next closed (fun n => nextToken >>= again n) L := by
  intro bytes a rest _ read
  obtain ⟨ws, behind, blank, token, rfl⟩ : ∃ ws behind, Blank ws ∧
      (∀ b, behind.head? = some b → isJsonBlank b = false) ∧ bytes = ws ++ behind := by
    refine ⟨_, _, fun b => List.mem_takeWhile_imp, ?_, List.takeWhile_append_dropWhile.symm⟩
    intro b head
    have stopped := List.head?_dropWhile_not isJsonBlank bytes
    rwa [head] at stopped
  rw [run_bind (nextToken_append blank token)] at read
  obtain ⟨text, rfl, holds, filled, same⟩ := more _ behind a rest rfl read
  refine ⟨ws ++ text, (List.append_assoc _ _ _).symm, holds ws blank, ?_, ?_⟩
  · exact fun ends => List.append_ne_nil_of_right_ne_nil _ (filled ends)
  · intro n rest' small follow
    rw [List.length_append] at small
    have head := head?_append_eq filled follow
    dsimp only
    rw [List.append_assoc, run_bind (nextToken_append blank (head ▸ token)), head]
    exact same n rest' (by omega) follow

/-- The first byte of a value that follows is behind blanks. -/
theorem takes_firstOfValue {f : UInt8 → Reader α} {again : Nat → UInt8 → Reader α}
    {L : α → List UInt8 → Prop}
    (more : ∀ b, (f b).TakesFrom (some b) closed (fun n => again n b) fun a text =>
      ∀ ws, Blank ws → L a (ws ++ text)) :
    (firstOfValue >>= f).TakesFrom next closed (fun n => firstOfValue >>= again n) L := by
  simp only [firstOfValue, bind_assoc]
  refine takes_nextToken fun token => ?_
  cases token with
  | none => exact takes_of_fails (gives_failAtNext.then fun _ => False.elim)
  | some b =>
      simp only [pure_bind]
      exact more b

/-- The number of bytes that are left is not less than the length of a text among them. -/
theorem takes_bound {f : Nat → Reader α} {L : α → List UInt8 → Prop}
    (more : ∀ fuel, (f fuel).TakesFrom next closed (fun n => f (n + 1)) L) :
    (bound >>= f).TakesFrom next closed (fun _ => bound >>= f) L := by
  intro bytes a rest head read
  obtain ⟨text, split, holds, filled, same⟩ := more (bytes.length + 1) bytes a rest head read
  refine ⟨text, split, holds, filled, fun _ rest' _ follow => ?_⟩
  exact same (text ++ rest').length rest' (by simp) follow

/-- The bytes that are left may be remembered, as long as nothing that is read depends on them. -/
theorem takes_get {f : List UInt8 → Reader α} {L : α → List UInt8 → Prop}
    (alike : ∀ s s', (f s).Within (f s')) (takes : ∀ s, (f s).TakesFrom next closed (fun _ => f s) L) :
    ((get : Reader (List UInt8)) >>= f).TakesFrom next closed (fun _ => get >>= f) L := by
  intro bytes a rest head read
  obtain ⟨text, split, holds, filled, same⟩ := takes bytes bytes a rest head read
  refine ⟨text, split, holds, filled, fun n rest' small follow => ?_⟩
  exact alike bytes (text ++ rest') _ _ (same n rest' small follow)

end Reader

end ChainRelay.Json
