import ChainRelay.Proofs.Effects.Spans
import ChainRelay.Proofs.Ethereum.Replies

/-! # Asking for heights

Each question is one request, and its answer is made of the response to it alone. The status counts first, then
whether the two members of the body can be read, then the error, and only then the result.
-/

namespace ChainRelay.Ethereum

open Json

/-- The exchange failed. -/
def IsHttp (o : Except RpcError α) : Prop :=
  ∃ message causes, o = .error (.http message causes)

theorem IsHttp.bind {o : Except RpcError α} (failed : IsHttp o) (f : α → Except RpcError β) :
    IsHttp (o.bind f) := by
  obtain ⟨message, causes, rfl⟩ := failed
  exact ⟨message, causes, rfl⟩

/-- What a reply answers to the question for the height. -/
def answerOf (url : Net.Url) (reply : Reply) : Except RpcError UInt64 :=
  (resultOf url blockNumberMethod reply).bind heightOf

/-! ## One response -/

/-- A response, whatever its body is. -/
structure Response where
  status : Nat
  reason : String
  body : List UInt8

/-- A result that is no string, or an error that is no error of a node. -/
def Garbled (entries : List (String × List UInt8)) : Prop :=
  Unreadable StringLiteral "result" entries ∨ Unreadable NodeError.Text "error" entries

/-- What comes of an object that was read without trouble from the status. -/
structure BodyVerdict (entries : List (String × List UInt8)) (o : Except RpcError UInt64) : Prop where
  garbled : Garbled entries → IsHttp o
  reported : ¬Garbled entries → ∀ text e, Given "error" text entries → NodeError.Text text e →
    o = .error (.rpc e.code e.message)
  height : Absent "error" entries → ∀ text q, Given "result" text entries → StringLiteral text q → o = heightOf q
  neither : Absent "error" entries → Absent "result" entries → ∃ text, o = .error (.malformed text)
  clean : ∀ n, o = .ok n → Absent "error" entries

namespace Response

variable {r : Response} {url : Net.Url} {entries : List (String × List UInt8)}

def reply (r : Response) : Reply :=
  .response r.status r.reason r.body

/-- The status says that the request was refused. -/
def Refused (r : Response) : Prop :=
  400 ≤ r.status ∧ r.status < 600

/-- What comes of a response: the body of a refusal does not count. -/
structure Verdict (r : Response) (o : Except RpcError UInt64) : Prop where
  refused : r.Refused → IsHttp o
  accepted : ¬r.Refused → ∀ entries, IsObject entries r.body → (entries.map (·.1)).Nodup → BodyVerdict entries o

theorem answerOf_refused (refused : r.Refused) : IsHttp (answerOf url r.reply) := by
  obtain ⟨least, most⟩ := refused
  refine IsHttp.bind ?_ heightOf
  simp only [resultOf, reply]
  by_cases client : r.status < 500
  · rw [if_pos ⟨least, client⟩]
    exact ⟨_, _, rfl⟩
  · rw [if_neg fun both => client both.2, if_pos ⟨Nat.le_of_not_lt client, most⟩]
    exact ⟨_, _, rfl⟩

theorem answerOf_unread (accepted : ¬r.Refused) {e : Json.Refusal} (failed : Answer.decode r.body = .error e) :
    IsHttp (answerOf url r.reply) := by
  unfold Refused at accepted
  refine IsHttp.bind ?_ heightOf
  simp only [resultOf, reply]
  rw [if_neg (by omega), if_neg (by omega), failed]
  exact ⟨_, _, rfl⟩

/-- An error counts more than a result. -/
theorem answerOf_read (accepted : ¬r.Refused) {a : Answer} (read : Answer.decode r.body = .ok a) :
    answerOf url r.reply =
      match a.error, a.result with
      | some e, _ => .error (.rpc e.code e.message)
      | none, some q => heightOf q
      | none, none =>
        .error (.malformed ("`" ++ blockNumberMethod ++ "` returned neither a result nor an error")) := by
  unfold Refused at accepted
  simp only [answerOf, resultOf, reply]
  rw [if_neg (by omega), if_neg (by omega), read]
  obtain ⟨_ | q, _ | e⟩ := a <;> rfl

theorem answerOf_garbled (accepted : ¬r.Refused) (object : IsObject entries r.body)
    (distinct : (entries.map (·.1)).Nodup) (garbled : Garbled entries) : IsHttp (answerOf url r.reply) := by
  cases read : Answer.decode r.body with
  | error e => exact answerOf_unread accepted read
  | ok a =>
      obtain ⟨result, error⟩ := (Answer.decode_eq_ok_iff object distinct).mp read
      rcases garbled with unreadable | unreadable
      · exact absurd result (unreadable.not_holds distinct)
      · exact absurd error (unreadable.not_holds distinct)

theorem bodyVerdict (accepted : ¬r.Refused) (object : IsObject entries r.body)
    (distinct : (entries.map (·.1)).Nodup) : BodyVerdict entries (answerOf url r.reply) := by
  have read {v : Option String} {v' : Option NodeError} (result : Holds StringLiteral "result" entries v)
      (error : Holds NodeError.Text "error" entries v') : Answer.decode r.body = .ok ⟨v, v'⟩ :=
    (Answer.decode_eq_ok_iff object distinct).mpr ⟨result, error⟩
  have garbled : Garbled entries → IsHttp (answerOf url r.reply) := answerOf_garbled accepted object distinct
  have reported (readable : ¬Garbled entries) {text : List UInt8} {e : NodeError} (given : Given "error" text entries)
      (reads : NodeError.Text text e) : answerOf url r.reply = .error (.rpc e.code e.message) := by
    obtain ⟨v, result⟩ := (unreadable_or_holds _ _ _).resolve_left (not_or.mp readable).1
    exact answerOf_read accepted (read result (.given given reads))
  have clean {n : UInt64} (height : answerOf url r.reply = .ok n) : Absent "error" entries := by
    have readable : ¬Garbled entries := by
      intro wrong
      obtain ⟨_, _, failed⟩ := garbled wrong
      cases height.symm.trans failed
    intro text given
    by_cases known : ∃ e, NodeError.Text text e
    · obtain ⟨e, reads⟩ := known
      cases height.symm.trans (reported readable given reads)
    · exact readable (.inr ⟨text, given, not_exists.mp known⟩)
  exact {
    garbled
    reported := fun readable _ _ => reported readable
    height := fun absent _ _ given reads => answerOf_read accepted (read (.given given reads) (.absent absent))
    neither := fun absent absent' => ⟨_, answerOf_read accepted (read (.absent absent') (.absent absent))⟩
    clean := fun _ => clean }

theorem verdict (url : Net.Url) (r : Response) : r.Verdict (answerOf url r.reply) where
  refused := answerOf_refused
  accepted accepted _ := bodyVerdict accepted

end Response

/-! ## One question -/

/-- The request of a question. -/
def heightRequest (url : Net.Url) : String × String :=
  (url.text, requestBody blockNumberMethod)

/-- What a question leaves behind: one more request, the replies behind its own, and still no interrupt. -/
structure Asked (url : Net.Url) (later : List Reply) (w w' : World) : Prop where
  requests : w'.requests = heightRequest url :: w.requests
  replies : w'.replies = later
  calm : w'.interrupts = 0

variable {w : World} {later : List Reply}

theorem run_post (url : Net.Url) {r : Response} (calm : w.interrupts = 0)
    (delivered : w.replies = r.reply :: later) :
    ∃ w', World.run (Program.post url.text (requestBody blockNumberMethod)) w = (.finished r.reply, w') ∧
      Asked url later w w' := by
  have answered : w.answer (.post url.text (requestBody blockNumberMethod)) = (r.reply,
      { w with requests := heightRequest url :: w.requests, replies := later }) := by
    simp only [World.answer, delivered]
    rfl
  refine ⟨{ w with requests := heightRequest url :: w.requests, replies := later }.pass, ?_, ?_⟩
  · rw [Program.post, World.run_bind, World.run_question, answered, World.andThen_finished]
    simp only [World.run, calm, World.notice, Response.reply]
  · unfold World.pass
    split <;> exact ⟨rfl, rfl, calm⟩

theorem run_within {url : Net.Url} {span : String} {p : Program α} {a : α}
    (ran : ∃ w', World.run p w = (.finished a, w') ∧ Asked url later w w') :
    ∃ w', World.run (p.within span) w = (.finished a, w') ∧ Asked url later w w' := by
  obtain ⟨w', ran, asked⟩ := ran
  obtain ⟨entries, spanned⟩ := World.run_within span p w w.logged
  rw [World.relog_logged, ran] at spanned
  exact ⟨w'.relog entries, spanned, asked.requests, asked.replies, asked.calm⟩

/-- A question is one request, and takes one response. -/
theorem run_blockNumber {url : Net.Url} (web : url.scheme = "http" ∨ url.scheme = "https") {r : Response}
    (calm : w.interrupts = 0) (delivered : w.replies = r.reply :: later) :
    ∃ w', World.run (blockNumber url) w = (.finished (answerOf url r.reply), w') ∧ Asked url later w w' := by
  have called : ∃ w', World.run (call url blockNumberMethod) w =
      (.finished (resultOf url blockNumberMethod r.reply), w') ∧ Asked url later w w' := by
    refine run_within ?_
    obtain ⟨entries, logged⟩ := World.run_log .debug .rpc "json-rpc request" w
    obtain ⟨w', posted, asked⟩ := run_post (w := w.relog entries) url calm delivered
    refine ⟨w', ?_, asked.requests, asked.replies, asked.calm⟩
    rw [World.run_bind_finished logged, if_pos web, World.run_bind_finished posted, World.run_pure]
  obtain ⟨w', called, asked⟩ := called
  refine ⟨w', ?_, asked⟩
  rw [blockNumber, World.run_bind_finished called, answerOf]
  cases resultOf url blockNumberMethod r.reply <;> rfl

/-! ## Questions in a row -/

theorem run_mapM_blockNumber {urls : List Net.Url} {script : List Response}
    (web : ∀ url ∈ urls, url.scheme = "http" ∨ url.scheme = "https") (each : urls.length = script.length)
    (calm : w.interrupts = 0) (delivered : w.replies = script.map (·.reply) ++ later) :
    ∃ w', World.run (urls.mapM blockNumber) w =
        (.finished (List.zipWith (fun url r => answerOf url r.reply) urls script), w') ∧
      w'.requests = (urls.map heightRequest).reverse ++ w.requests ∧ w'.replies = later := by
  -- The other questions are asked in the world that the first one leaves, with the replies behind its own.
  induction urls generalizing script w with
  | nil =>
      obtain rfl := List.length_eq_zero_iff.mp each.symm
      exact ⟨w, rfl, rfl, delivered⟩
  | cons url urls ih =>
      obtain ⟨r, script, rfl⟩ := List.exists_cons_of_length_eq_add_one each.symm
      obtain ⟨here, web⟩ := List.forall_mem_cons.mp web
      obtain ⟨w₁, first, asked⟩ := run_blockNumber here calm delivered
      obtain ⟨w₂, others, requests, replies⟩ := ih web (Nat.succ.inj each) asked.calm asked.replies
      refine ⟨w₂, ?_, ?_, replies⟩
      · rw [List.mapM_cons, World.run_bind_finished first, World.run_bind_finished others]
        rfl
      · rw [requests, asked.requests, List.map_cons, List.reverse_cons, List.append_assoc]
        rfl

/-- However many questions are asked, each is one request, in order, and is answered from its own response alone,
as the cases say. No interrupt is waiting, which could end the process in between. -/
theorem run_blockNumbers {urls : List Net.Url} {script : List Response}
    (web : ∀ url ∈ urls, url.scheme = "http" ∨ url.scheme = "https") (each : urls.length = script.length)
    (calm : w.interrupts = 0) (delivered : w.replies = script.map (·.reply) ++ later) :
    ∃ w', World.run (urls.mapM blockNumber) w =
        (.finished (List.zipWith (fun url r => answerOf url r.reply) urls script), w') ∧
      w'.requests = (urls.map heightRequest).reverse ++ w.requests ∧ w'.replies = later ∧
      ∀ url ∈ urls, ∀ r ∈ script, r.Verdict (answerOf url r.reply) := by
  obtain ⟨w', answers, requests, replies⟩ := run_mapM_blockNumber web each calm delivered
  exact ⟨w', answers, requests, replies, fun url _ r _ => r.verdict url⟩

/-- The first response is a refusal; the second holds a result and an error, and the error counts. -/
theorem run_blockNumbers_reported :
    let node : Net.Url := ⟨"http", "", some "localhost", none, "/", none, none⟩
    let message : List UInt8 := 0x22 :: (utf8Bytes "busy" ++ [0x22])
    let error : List UInt8 := 0x5B :: ([] ++ [0x37] ++ ([0x2C] ++ message ++ [])) ++ [0x5D]
    let body : List UInt8 := 0x7B :: ([] ++ 0x22 :: (utf8Bytes "result" ++ [0x22]) ++ [0x3A] ++ [0x22, 0x22] ++
      ([0x2C] ++ 0x22 :: (utf8Bytes "error" ++ [0x22]) ++ [0x3A] ++ error ++ [])) ++ [0x7D]
    let w : World := { World.holding ⟨[], []⟩ with replies := [.response 503 "" [], .response 200 "" body] }
    ∃ o w', World.run ([node, node].mapM blockNumber) w = (.finished [o, .error (.rpc 7 "busy")], w') ∧
      w'.requests = [heightRequest node, heightRequest node] ∧ IsHttp o := by
  intro node message error body w
  have literal : StringLiteral message "busy" := ⟨_, rfl, .verbatim (by decide +kernel)⟩
  have empty : StringLiteral [0x22, 0x22] "" := ⟨_, rfl, .close⟩
  have text {text : List UInt8} {s : String} (literal : StringLiteral text s) : ValueText text := by
    obtain ⟨rest, rfl, denotes⟩ := literal
    exact .string denotes.stringRest
  have first : Lead true [] := ⟨[], [], blank_nil, blank_nil, rfl⟩
  have later : Lead false [0x2C] := ⟨[], [], blank_nil, blank_nil, rfl⟩
  have colon : Colon [0x3A] := ⟨[], [], blank_nil, blank_nil, rfl⟩
  have digits : Digits [0x37] := ⟨by simp, List.forall_mem_singleton.mpr rfl⟩
  have number : ValueText [0x37] :=
    .number (.plain (@Unsigned.digits 0x37 [] [] (by decide) digits (.whole .none)))
  have items : Items true [[0x37], message] ([] ++ [0x37] ++ ([0x2C] ++ message ++ [])) :=
    .next first number (.next later (text literal) (.done blank_nil))
  have reported : NodeError.Text error ⟨7, "busy"⟩ :=
    .inr ⟨_, _, _, rfl, items, ⟨by decide, by decide, by decide⟩, literal⟩
  have result' : StringDenotes (utf8Bytes "result" ++ [0x22]) (utf8Bytes "result") := .verbatim (by decide +kernel)
  have error' : StringDenotes (utf8Bytes "error" ++ [0x22]) (utf8Bytes "error") := .verbatim (by decide +kernel)
  have listed : Entries true [("result", [0x22, 0x22]), ("error", error)] _ :=
    .next first result' colon (text empty) (.next later error' colon (.array items.items) (.done blank_nil))
  have object : IsObject _ body := ⟨[], _, [], blank_nil, blank_nil, listed, by simp [body]⟩
  obtain ⟨w', ran, requests, -, verdicts⟩ :=
    @run_blockNumbers w [] [node, node] [⟨503, "", []⟩, ⟨200, "", body⟩] (by simp [node]) rfl rfl rfl
  have refused := (verdicts node (by simp) ⟨503, "", []⟩ (by simp)).refused (by simp [Response.Refused])
  have verdict := (verdicts node (by simp) ⟨200, "", body⟩ (by simp)).accepted (by simp [Response.Refused]) _ object
    (by decide)
  have readable : ¬Garbled [("result", [0x22, 0x22]), ("error", error)] := by
    rintro (⟨text, ⟨member, -⟩, unknown⟩ | ⟨text, ⟨member, -⟩, unknown⟩)
    · obtain rfl : text = [0x22, 0x22] := by simpa using member
      exact unknown "" empty
    · obtain rfl : text = error := by simpa using member
      exact unknown _ reported
  have answered := verdict.reported readable error ⟨7, "busy"⟩ ⟨by simp, by decide⟩ reported
  refine ⟨_, w', ?_, requests, refused⟩
  rw [ran, ← answered]
  rfl

end ChainRelay.Ethereum
