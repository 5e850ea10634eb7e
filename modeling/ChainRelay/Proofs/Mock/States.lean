import ChainRelay.Mock.Prover
import ChainRelay.Proofs.Json.Documents

/-! # What the states of a light client record

Both states are JSON documents. Reading them gives back the height and what the configuration of the prover
adds to it, so different provers and different heights have different states.
-/

namespace ChainRelay

open Json (Value Document)

theorem Json.Value.ofUInt64_inj {m n : UInt64} : Value.ofUInt64 m = .ofUInt64 n ↔ m = n := by
  simp only [Value.ofUInt64, Json.Number.ofUInt64, Value.number.injEq, Json.Number.int.injEq, Int.ofNat_inj,
    UInt64.toNat_inj]

namespace Mock

variable {c c₁ c₂ : Config} {h h₁ h₂ : UInt64} {s : LightClientState}

/-- The states are documents, and hold what they are made from and nothing else. -/
structure Records (c : Config) (h : UInt64) (s : LightClientState) : Prop where
  clientDocument : Document s.clientState
  consensusDocument : Document s.consensusState
  client : Value.parse s.clientState = .ok (.object
    [ ("client_type", .string "mock-client"), ("finality_delay", .ofUInt64 c.finalityDelay),
      ("latest_height", .ofUInt64 h) ])
  consensus : Value.parse s.consensusState = .ok (.object
    [("commitment_prefix", .string c.commitmentPrefix), ("height", .ofUInt64 h)])

theorem parse_clientState (c : Config) (h : UInt64) :
    Value.parse (utf8Bytes (clientState c h).compact) = .ok (clientState c h) := by
  have ascending : ["client_type", "finality_delay", "latest_height"].Pairwise (· < ·) := by decide
  apply Value.Fits.parse_compact
  refine .object ascending ?_
  exact List.forall_mem_cons.mpr ⟨.string, List.forall_mem_cons.mpr ⟨.int, List.forall_mem_singleton.mpr .int⟩⟩

theorem parse_consensusState (c : Config) (h : UInt64) :
    Value.parse (utf8Bytes (consensusState c h).compact) = .ok (consensusState c h) := by
  have ascending : ["commitment_prefix", "height"].Pairwise (· < ·) := by decide
  apply Value.Fits.parse_compact
  refine .object ascending ?_
  exact List.forall_mem_cons.mpr ⟨.string, List.forall_mem_singleton.mpr .int⟩

theorem initialState_eq_ok_iff : initialState c h = .ok s ↔ h ≠ 0 ∧
    s = ⟨utf8Bytes (clientState c h).compact, utf8Bytes (consensusState c h).compact⟩ := by
  unfold initialState
  split
  · next zero => simp [zero]
  · next positive => simp [positive, eq_comm]

theorem records_of_initialState (given : initialState c h = .ok s) : Records c h s := by
  obtain ⟨-, rfl⟩ := initialState_eq_ok_iff.mp given
  exact ⟨Value.document_of_parse (parse_clientState c h), Value.document_of_parse (parse_consensusState c h),
    parse_clientState c h, parse_consensusState c h⟩

/-- States record one height and one configuration. -/
theorem Records.unique (first : Records c₁ h₁ s) (second : Records c₂ h₂ s) : h₁ = h₂ ∧ c₁ = c₂ := by
  obtain ⟨delay₁, text₁⟩ := c₁
  obtain ⟨delay₂, text₂⟩ := c₂
  have client := Except.ok.inj (first.client.symm.trans second.client)
  have consensus := Except.ok.inj (first.consensus.symm.trans second.consensus)
  simp only [Value.object.injEq, List.cons.injEq, Prod.mk.injEq, Value.string.injEq, Value.ofUInt64_inj, true_and,
    and_true] at client consensus
  obtain ⟨delays, heights⟩ := client
  obtain ⟨texts, -⟩ := consensus
  exact ⟨heights, by rw [delays, texts]⟩

/-- Only a light client that starts at height zero has no states. All others record what they are made from, so
they are equal only if they are made from the same. -/
theorem initialState_records (c : Config) (h : UInt64) :
    (∀ e, initialState c h = .error e ↔ h = 0 ∧ e = .plain "initial height must be positive") ∧
      (h ≠ 0 → ∃ s, initialState c h = .ok s ∧ Records c h s) ∧
      ∀ c' h' s, initialState c h = .ok s → initialState c' h' = .ok s →
        h = h' ∧ c.finalityDelay = c'.finalityDelay ∧ c.commitmentPrefix = c'.commitmentPrefix := by
  refine ⟨fun e => ?_, fun positive => ?_, fun c' h' s first second => ?_⟩
  · unfold initialState
    split
    · next zero => simp [zero, eq_comm]
    · next positive => simp [positive]
  · have given : initialState c h = .ok _ := initialState_eq_ok_iff.mpr ⟨positive, rfl⟩
    exact ⟨_, given, records_of_initialState given⟩
  · obtain ⟨rfl, rfl⟩ := (records_of_initialState first).unique (records_of_initialState second)
    exact ⟨rfl, rfl, rfl⟩

end Mock

end ChainRelay
