import DynamoCpp.Llm.Backend
import DynamoCpp.Llm.Protocols.Json

/-! # Codecs of the engine protocol

    `llm/protocols/common.h` and `llm/protocols/llm_backend.h`: finish reasons, stop
    conditions, sampling options, requests to the engines and their outputs.  Optional
    fields are omitted when absent and tolerated as missing or null.  A reason that is not
    an error is a plain string, an error is an object with its message.
-/

open Framework

namespace DynamoCpp.Llm

/-! ## Finish reasons -/

namespace FinishReason

def eos : FinishReason := { kind := .eos }

def cancelled : FinishReason := { kind := .cancelled }

def error (message : Bytes) : FinishReason := { kind := .error, errorMessage := message }

def toString (r : FinishReason) : Bytes :=
  match r.kind with
  | .eos => str "eos"
  | .length => str "length"
  | .stop => str "stop"
  | .cancelled => str "cancelled"
  | .error => str "error: " ++ r.errorMessage

def fromString (s : Bytes) : Except JsonError FinishReason :=
  if s = str "eos" then .ok eos
  else if s = str "length" then .ok length
  else if s = str "stop" then .ok stop
  else if s = str "cancelled" then .ok cancelled
  else if (str "error: ").isPrefixOf s then .ok (error (s.drop 7))
  else .error (.invalidArgument (str "Invalid FinishReason variant: '" ++ s ++ str "'"))

def toJson (r : FinishReason) : Json :=
  if r.kind = .error then .object (Members.ofList [("error", Llm.toJson r.errorMessage)])
  else .string r.toString

def fromJson (j : Json) : Except JsonError FinishReason :=
  match j with
  | .string s => fromString s
  | _ =>
    match j.find "error" with
    | some message => message.get.map error
    | none => .error (.invalidArgument (str "Invalid FinishReason encoding: ") (some j))

/-- `operator==`: the message counts only for an error. -/
def Same (a b : FinishReason) : Prop :=
  a.kind = b.kind ∧ (a.kind ≠ .error ∨ a.errorMessage = b.errorMessage)

/-- The reason without a message that does not count. -/
def counted (r : FinishReason) : FinishReason :=
  if r.kind = .error then r else { kind := r.kind }

theorem counted_same (r : FinishReason) : r.counted.Same r := by
  unfold counted
  split
  · exact ⟨rfl, .inr rfl⟩
  · next hkind => exact ⟨rfl, .inl hkind⟩

/-- `from_string` is the inverse of `to_string`. -/
theorem fromString_toString (r : FinishReason) : fromString r.toString = .ok r.counted := by
  obtain ⟨kind, message⟩ := r
  cases kind with
  | error =>
    -- the text is none of the plain ones, whatever the message
    show fromString (str "error: " ++ message) = .ok (error message)
    simp [fromString, str]
  | _ => rfl

end FinishReason

instance : ToJson FinishReason := ⟨FinishReason.toJson⟩

instance : FromJson FinishReason where
  default := {}
  fromJson j _ := FinishReason.fromJson j

instance : Restored FinishReason FinishReason.counted where
  get_toJson := fun r => by
    show FinishReason.fromJson r.toJson = .ok r.counted
    by_cases hkind : r.kind = .error
    · rw [FinishReason.toJson, FinishReason.counted, if_pos hkind, if_pos hkind]
      show Except.ok (FinishReason.error r.errorMessage) = .ok r
      rw [FinishReason.error, ← hkind]
    · rw [FinishReason.toJson, if_neg hkind]
      exact r.fromString_toString
  isNull_toJson := fun r => by
    show r.toJson.isNull = false
    unfold FinishReason.toJson
    split <;> rfl

/-! ## Stop conditions and sampling options -/

def StopConditions.toJson (s : StopConditions) : Json :=
  .object <| Members.empty
    |>.setOpt "max_tokens" s.maxTokens
    |>.setOpt "stop" s.stop
    |>.setOpt "stop_token_ids_hidden" s.stopTokenIdsHidden
    |>.setOpt "min_tokens" s.minTokens
    |>.setOpt "ignore_eos" s.ignoreEos

def StopConditions.fromJson (j : Json) : Except JsonError StopConditions := do
  let maxTokens ← getOpt j "max_tokens"
  let stop ← getOpt j "stop"
  let stopTokenIdsHidden ← getOpt j "stop_token_ids_hidden"
  let minTokens ← getOpt j "min_tokens"
  let ignoreEos ← getOpt j "ignore_eos"
  return { maxTokens, stop, stopTokenIdsHidden, minTokens, ignoreEos }

instance : ToJson StopConditions := ⟨StopConditions.toJson⟩

instance : FromJson StopConditions where
  default := {}
  fromJson j _ := StopConditions.fromJson j

instance : Restored StopConditions id where
  get_toJson := fun s => by
    show StopConditions.fromJson s.toJson = .ok s
    simp [StopConditions.fromJson, StopConditions.toJson]
  isNull_toJson := fun _ => rfl

structure SamplingOptions (F : Type) where
  n                 : Option Int32 := none
  bestOf            : Option Int32 := none
  presencePenalty   : Option F := none
  frequencyPenalty  : Option F := none
  repetitionPenalty : Option F := none
  temperature       : Option F := none
  topP              : Option F := none
  topK              : Option Int32 := none
  minP              : Option F := none
  useBeamSearch     : Option Bool := none
  lengthPenalty     : Option F := none
  seed              : Option Int64 := none

section

variable {F : Type} [SingleFloat F]

def SamplingOptions.toJson (s : SamplingOptions F) : Json :=
  .object <| Members.empty
    |>.setOpt "n" s.n
    |>.setOpt "best_of" s.bestOf
    |>.setOpt "presence_penalty" s.presencePenalty
    |>.setOpt "frequency_penalty" s.frequencyPenalty
    |>.setOpt "repetition_penalty" s.repetitionPenalty
    |>.setOpt "temperature" s.temperature
    |>.setOpt "top_p" s.topP
    |>.setOpt "top_k" s.topK
    |>.setOpt "min_p" s.minP
    |>.setOpt "use_beam_search" s.useBeamSearch
    |>.setOpt "length_penalty" s.lengthPenalty
    |>.setOpt "seed" s.seed

def SamplingOptions.fromJson (j : Json) : Except JsonError (SamplingOptions F) := do
  let n ← getOpt j "n"
  let bestOf ← getOpt j "best_of"
  let presencePenalty ← getOpt j "presence_penalty"
  let frequencyPenalty ← getOpt j "frequency_penalty"
  let repetitionPenalty ← getOpt j "repetition_penalty"
  let temperature ← getOpt j "temperature"
  let topP ← getOpt j "top_p"
  let topK ← getOpt j "top_k"
  let minP ← getOpt j "min_p"
  let useBeamSearch ← getOpt j "use_beam_search"
  let lengthPenalty ← getOpt j "length_penalty"
  let seed ← getOpt j "seed"
  return { n, bestOf, presencePenalty, frequencyPenalty, repetitionPenalty, temperature, topP,
           topK, minP, useBeamSearch, lengthPenalty, seed }

instance : ToJson (SamplingOptions F) := ⟨SamplingOptions.toJson⟩

instance : FromJson (SamplingOptions F) where
  default := {}
  fromJson j _ := SamplingOptions.fromJson j

instance : Restored (SamplingOptions F) id where
  get_toJson := fun s => by
    show SamplingOptions.fromJson s.toJson = .ok s
    simp [SamplingOptions.fromJson, SamplingOptions.toJson]
  isNull_toJson := fun _ => rfl

/-! ## Requests -/

structure PreprocessedRequest (F : Type) where
  tokenIds        : List TokenIdType := []
  stopConditions  : StopConditions := {}
  samplingOptions : SamplingOptions F := {}
  eosTokenIds     : List TokenIdType := []
  mdcSum          : Option Bytes := none
  annotations     : List Bytes := []

def PreprocessedRequest.toJson (r : PreprocessedRequest F) : Json :=
  .object <| Members.ofList
      [("token_ids", Llm.toJson r.tokenIds), ("stop_conditions", Llm.toJson r.stopConditions),
        ("sampling_options", Llm.toJson r.samplingOptions),
        ("eos_token_ids", Llm.toJson r.eosTokenIds), ("annotations", Llm.toJson r.annotations)]
    |>.setOpt "mdc_sum" r.mdcSum

def PreprocessedRequest.fromJson (j : Json) : Except JsonError (PreprocessedRequest F) := do
  let tokenIds ← getOr j "token_ids" []
  let stopConditions ← getOr j "stop_conditions" {}
  let samplingOptions ← getOr j "sampling_options" {}
  let eosTokenIds ← getOr j "eos_token_ids" []
  let annotations ← getOr j "annotations" []
  let mdcSum ← getOpt j "mdc_sum"
  return { tokenIds, stopConditions, samplingOptions, eosTokenIds, mdcSum, annotations }

instance : ToJson (PreprocessedRequest F) := ⟨PreprocessedRequest.toJson⟩

instance : FromJson (PreprocessedRequest F) where
  default := {}
  fromJson j _ := PreprocessedRequest.fromJson j

instance : Restored (PreprocessedRequest F) id where
  get_toJson := fun r => by
    show PreprocessedRequest.fromJson r.toJson = .ok r
    simp [PreprocessedRequest.fromJson, PreprocessedRequest.toJson]
  isNull_toJson := fun _ => rfl

end

end DynamoCpp.Llm
