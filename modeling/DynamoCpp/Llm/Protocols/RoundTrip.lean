import DynamoCpp.Llm.KvRouter.Protocols
import DynamoCpp.Llm.Protocols.OpenAi
import DynamoCpp.Llm.Protocols.Outputs

/-! # Round trips of the wire types

    What one side of the pipeline writes the other side reads back.  Two values are the
    same if their fields are, except that finish reasons are compared by their `operator==`,
    for which a message counts only in an error.
-/

open Framework

namespace DynamoCpp.Llm

open OpenAi

/-! ## Equal values -/

structure LLMEngineOutput.Same (a b : LLMEngineOutput) : Prop where
  finishReason : Option.Rel FinishReason.Same a.finishReason b.finishReason
  others       : { a with finishReason := none } = { b with finishReason := none }

structure BackendOutput.Same (a b : BackendOutput) : Prop where
  finishReason : Option.Rel FinishReason.Same a.finishReason b.finishReason
  others       : { a with finishReason := none } = { b with finishReason := none }

/-- The envelopes are equal and their data is the same. -/
structure Annotated.Same {R : Type} (same : R → R → Prop) (a b : Annotated R) : Prop where
  data    : Option.Rel same a.data b.data
  id      : a.id = b.id
  event   : a.event = b.event
  comment : a.comment = b.comment

theorem rel_map {α : Type} {same : α → α → Prop} {keep : α → α} (h : ∀ v, same (keep v) v)
    (v : Option α) : Option.Rel same (v.map keep) v := by
  cases v with
  | none => exact .none
  | some v => exact .some (h v)

theorem LLMEngineOutput.counted_same (o : LLMEngineOutput) : o.counted.Same o :=
  ⟨rel_map FinishReason.counted_same o.finishReason, rfl⟩

theorem BackendOutput.counted_same (o : BackendOutput) : o.counted.Same o :=
  ⟨rel_map FinishReason.counted_same o.finishReason, rfl⟩

theorem Annotated.mapData_same {R : Type} {same : R → R → Prop} {keep : R → R}
    (h : ∀ v, same (keep v) v) (a : Annotated R) : (a.mapData keep).Same same a :=
  ⟨rel_map h a.data, rfl, rfl, rfl⟩

/-! ## The wire types -/

section

variable {α : Type} [ToJson α] [FromJson α]

/-- The value is the same after it has been written and read into a default-constructed
    object. -/
def RoundTrips (same : α → α → Prop) (v : α) : Prop :=
  ∃ v', (toJson v).get = .ok v' ∧ same v' v

variable {keep : α → α} [Restored α keep]

theorem roundTrips_of_keep {same : α → α → Prop} (h : ∀ v, same (keep v) v) (v : α) :
    RoundTrips same v :=
  ⟨keep v, Restored.get_toJson v, h v⟩

end

/-- Every value of a wire type is read back as it was written. -/
theorem wire_types_round_trip {F : Type} [SingleFloat F] :
    (∀ r : FinishReason, RoundTrips FinishReason.Same r) ∧
    (∀ r : PreprocessedRequest F, RoundTrips Eq r) ∧
    (∀ o : LLMEngineOutput, RoundTrips LLMEngineOutput.Same o) ∧
    (∀ o : BackendOutput, RoundTrips BackendOutput.Same o) ∧
    (∀ a : Annotated (PreprocessedRequest F), RoundTrips (Annotated.Same Eq) a) ∧
    (∀ a : Annotated LLMEngineOutput, RoundTrips (Annotated.Same LLMEngineOutput.Same) a) ∧
    (∀ a : Annotated BackendOutput, RoundTrips (Annotated.Same BackendOutput.Same) a) ∧
    (∀ r : NvCreateChatCompletionRequest F, r.Shaped → RoundTrips Eq r) ∧
    (∀ r : NvCreateChatCompletionStreamResponse, RoundTrips Eq r) ∧
    (∀ r : NvCreateCompletionRequest F, RoundTrips Eq r) ∧
    (∀ r : NvCreateCompletionResponse, RoundTrips Eq r) ∧
    (∀ e : KvRouter.Wire.RouterEvent, RoundTrips Eq e) := by
  refine ⟨?_, ?_, ?_, ?_, ?_, ?_, ?_, ?_, ?_, ?_, ?_, ?_⟩
  · exact roundTrips_of_keep FinishReason.counted_same
  · exact roundTrips_of_keep fun _ => rfl
  · exact roundTrips_of_keep LLMEngineOutput.counted_same
  · exact roundTrips_of_keep BackendOutput.counted_same
  · exact roundTrips_of_keep (Annotated.mapData_same fun _ => rfl)
  · exact roundTrips_of_keep (Annotated.mapData_same LLMEngineOutput.counted_same)
  · exact roundTrips_of_keep (Annotated.mapData_same BackendOutput.counted_same)
  · intro r hshaped
    -- the one type whose parser rejects some of its values
    exact ⟨r, (NvCreateChatCompletionRequest.fromJson_toJson_iff r).mpr hshaped, rfl⟩
  · exact roundTrips_of_keep fun _ => rfl
  · exact roundTrips_of_keep fun _ => rfl
  · exact roundTrips_of_keep fun _ => rfl
  · exact roundTrips_of_keep fun _ => rfl

/-- The doubles themselves, which are kept as they are. -/
instance : SingleFloat Float where
  widen        := id
  narrow       := id
  ofUInt64     := UInt64.toFloat
  ofInt64      := Int64.toFloat
  ofBool b     := if b then 1 else 0
  narrow_widen := fun _ => rfl

/-- A chat request with a tool and with messages of several kinds. -/
theorem chat_request_round_trips :
    RoundTrips Eq
      ({ model := str "m", temperature := some 1, stop := some [str "a", str "b"],
         messages := [{ role := str "user", content := some (str "hi") },
           { role := str "assistant", toolCalls := .array [.object [("id", .string (str "1"))]] },
           { role := str "tool", content := some [], toolCallId := some (str "1") }],
         tools := .array [.object [("type", .string (str "function"))]],
         toolChoice := .string (str "auto") } : NvCreateChatCompletionRequest Float) := by
  obtain ⟨_, _, _, _, _, _, _, hchat, _⟩ := wire_types_round_trip (F := Float)
  exact hchat _ ⟨rfl, rfl⟩

end DynamoCpp.Llm
