import DynamoCpp.Llm.Protocols.Common

/-! # Codecs of the OpenAI protocol

    `llm/protocols/openai.cpp`: chat and completion requests and their streamed responses.
    Parsing is tolerant in several ways: the content of a message may be a list of parts,
    `stop` may be a string, absent fields have defaults.  The tools of a chat request are
    raw JSON, of which only the shape is checked.
-/

open Framework

namespace DynamoCpp.Llm.OpenAi

/-! ## Extensions and usage -/

structure NvExt where
  ignoreEos         : Option Bool := none
  topK              : Option Int64 := none
  repetitionPenalty : Option Float := none
  greedSampling     : Option Bool := none
  useRawPrompt      : Option Bool := none
  annotations       : Option (List Bytes) := none

def NvExt.toJson (e : NvExt) : Json :=
  .object <| Members.empty
    |>.setOpt "ignore_eos" e.ignoreEos
    |>.setOpt "top_k" e.topK
    |>.setOpt "repetition_penalty" e.repetitionPenalty
    |>.setOpt "greed_sampling" e.greedSampling
    |>.setOpt "use_raw_prompt" e.useRawPrompt
    |>.setOpt "annotations" e.annotations

def NvExt.fromJson (j : Json) : Except JsonError NvExt := do
  let ignoreEos ← getOpt j "ignore_eos"
  let topK ← getOpt j "top_k"
  let repetitionPenalty ← getOpt j "repetition_penalty"
  let greedSampling ← getOpt j "greed_sampling"
  let useRawPrompt ← getOpt j "use_raw_prompt"
  let annotations ← getOpt j "annotations"
  return { ignoreEos, topK, repetitionPenalty, greedSampling, useRawPrompt, annotations }

instance : ToJson NvExt := ⟨NvExt.toJson⟩

instance : FromJson NvExt where
  default := {}
  fromJson j _ := NvExt.fromJson j

instance : Restored NvExt id where
  get_toJson := fun e => by
    show NvExt.fromJson e.toJson = .ok e
    simp [NvExt.fromJson, NvExt.toJson]
  isNull_toJson := fun _ => rfl

structure CompletionUsage where
  promptTokens     : Int32 := 0
  completionTokens : Int32 := 0
  totalTokens      : Int32 := 0

def CompletionUsage.toJson (u : CompletionUsage) : Json :=
  .object <| Members.ofList
    [("prompt_tokens", Llm.toJson u.promptTokens),
      ("completion_tokens", Llm.toJson u.completionTokens),
      ("total_tokens", Llm.toJson u.totalTokens)]

def CompletionUsage.fromJson (j : Json) : Except JsonError CompletionUsage := do
  let promptTokens ← getOr j "prompt_tokens" 0
  let completionTokens ← getOr j "completion_tokens" 0
  let totalTokens ← getOr j "total_tokens" 0
  return { promptTokens, completionTokens, totalTokens }

instance : ToJson CompletionUsage := ⟨CompletionUsage.toJson⟩

instance : FromJson CompletionUsage where
  default := {}
  fromJson j _ := CompletionUsage.fromJson j

instance : Restored CompletionUsage id where
  get_toJson := fun u => by
    show CompletionUsage.fromJson u.toJson = .ok u
    simp [CompletionUsage.fromJson, CompletionUsage.toJson]
  isNull_toJson := fun _ => rfl

/-! ## Chat messages -/

structure ChatMessage where
  role       : Bytes := []
  content    : Option Bytes := none
  name       : Option Bytes := none
  toolCalls  : Json := .null
  toolCallId : Option Bytes := none

/-- The text parts, joined with newlines. -/
def textParts (text : Bytes) : List Json → Except JsonError Bytes
  | [] => .ok text
  | part :: parts => do
    if part.isObject then
      let type ← part.value "type" []
      if type = str "text" then
        let more ← part.value "text" []
        -- no newline in front of the first text
        textParts ((if text = [] then text else text ++ str "\n") ++ more) parts
      else textParts text parts
    else textParts text parts

/-- Content of any other type is dropped. -/
def readContent : Option Json → Except JsonError (Option Bytes)
  | some (.string text) => .ok (some text)
  | some (.array parts) => (textParts [] parts).map some
  | _ => .ok none

@[simp] theorem readContent_nullable (content : Option Bytes) :
    readContent (some (Json.nullable content)) = .ok content := by
  cases content with
  | none => rfl
  | some text => rfl

def ChatMessage.toJson (m : ChatMessage) : Json :=
  .object <| Members.ofList [("role", Llm.toJson m.role)]
    |>.set "content" (Json.nullable m.content)
    |>.setOpt "name" m.name
    |>.setOpt "tool_calls" m.toolCalls.unlessNull
    |>.setOpt "tool_call_id" m.toolCallId

def ChatMessage.fromJson (j : Json) : Except JsonError ChatMessage := do
  let role ← getOr j "role" []
  let name ← getOpt j "name"
  -- raw, so null is as good as absent
  let toolCalls ← j.value "tool_calls" Json.null
  let toolCallId ← getOpt j "tool_call_id"
  let content ← readContent (j.find "content")
  return { role, content, name, toolCalls, toolCallId }

instance : ToJson ChatMessage := ⟨ChatMessage.toJson⟩

instance : FromJson ChatMessage where
  default := {}
  fromJson j _ := ChatMessage.fromJson j

instance : Restored ChatMessage id where
  get_toJson := fun m => by
    show ChatMessage.fromJson m.toJson = .ok m
    simp [ChatMessage.fromJson, ChatMessage.toJson]
  isNull_toJson := fun _ => rfl

/-! ## Requests -/

/-- A string is one stop sequence. -/
def readStop : Option Json → Except JsonError (Option (List Bytes))
  | some member =>
    if member.isNull then .ok none
    else if member.isString then member.get.map fun s => some [s]
    else member.get.map some
  | none => .ok none

def parseStopField (j : Json) : Except JsonError (Option (List Bytes)) := readStop (j.find "stop")

@[simp] theorem readStop_map (stop : Option (List Bytes)) :
    readStop (stop.map toJson) = .ok stop := by
  cases stop with
  | none => rfl
  | some stop =>
    -- a list is written as an array, which is neither null nor a string
    show (toJson stop).get.map some = _
    rw [Restored.get_toJson stop, List.map_id_fun]
    rfl

/-- Throws unless the value has the shape. -/
def checkShape (shaped : Bool) (message : Bytes) : Except JsonError Unit :=
  if shaped then .ok () else .error (.invalidArgument message)

structure NvCreateChatCompletionRequest (F : Type) where
  model               : Bytes := []
  messages            : List ChatMessage := []
  stream              : Option Bool := none
  temperature         : Option F := none
  topP                : Option F := none
  frequencyPenalty    : Option F := none
  presencePenalty     : Option F := none
  maxTokens           : Option UInt32 := none
  maxCompletionTokens : Option UInt32 := none
  stop                : Option (List Bytes) := none
  n                   : Option Int32 := none
  logprobs            : Option Bool := none
  topLogprobs         : Option Int32 := none
  seed                : Option Int64 := none
  user                : Option Bytes := none
  tools               : Json := .null
  toolChoice          : Json := .null
  nvext               : Option NvExt := none

section

variable {F : Type} [SingleFloat F]

namespace NvCreateChatCompletionRequest

def toJson (r : NvCreateChatCompletionRequest F) : Json :=
  .object <| Members.ofList [("model", Llm.toJson r.model), ("messages", Llm.toJson r.messages)]
    |>.setOpt "stream" r.stream
    |>.setOpt "temperature" r.temperature
    |>.setOpt "top_p" r.topP
    |>.setOpt "frequency_penalty" r.frequencyPenalty
    |>.setOpt "presence_penalty" r.presencePenalty
    |>.setOpt "max_tokens" r.maxTokens
    |>.setOpt "max_completion_tokens" r.maxCompletionTokens
    |>.setOpt "stop" r.stop
    |>.setOpt "n" r.n
    |>.setOpt "logprobs" r.logprobs
    |>.setOpt "top_logprobs" r.topLogprobs
    |>.setOpt "seed" r.seed
    |>.setOpt "user" r.user
    |>.setOpt "tools" r.tools.unlessNull
    |>.setOpt "tool_choice" r.toolChoice.unlessNull
    |>.setOpt "nvext" r.nvext

def fromJson (j : Json) : Except JsonError (NvCreateChatCompletionRequest F) := do
  let model ← getOr j "model" []
  let messages ← getOr j "messages" []
  let stream ← getOpt j "stream"
  let temperature ← getOpt j "temperature"
  let topP ← getOpt j "top_p"
  let frequencyPenalty ← getOpt j "frequency_penalty"
  let presencePenalty ← getOpt j "presence_penalty"
  let maxTokens ← getOpt j "max_tokens"
  let maxCompletionTokens ← getOpt j "max_completion_tokens"
  let stop ← parseStopField j
  let n ← getOpt j "n"
  let logprobs ← getOpt j "logprobs"
  let topLogprobs ← getOpt j "top_logprobs"
  let seed ← getOpt j "seed"
  let user ← getOpt j "user"
  -- the shape is checked before the next field is read
  let tools ← j.value "tools" Json.null
  checkShape (tools.isNull || tools.isArray) (str "tools must be an array")
  let toolChoice ← j.value "tool_choice" Json.null
  checkShape (toolChoice.isNull || toolChoice.isString || toolChoice.isObject)
    (str "tool_choice must be a string or an object")
  let nvext ← getOpt j "nvext"
  return { model, messages, stream, temperature, topP, frequencyPenalty, presencePenalty,
           maxTokens, maxCompletionTokens, stop, n, logprobs, topLogprobs, seed, user, tools,
           toolChoice, nvext }

/-- The tools are null or an array, their choice is null, a string or an object. -/
structure Shaped (r : NvCreateChatCompletionRequest F) : Prop where
  tools      : r.tools.isNull || r.tools.isArray
  toolChoice : r.toolChoice.isNull || r.toolChoice.isString || r.toolChoice.isObject

/-- A request is read back if its tools pass the checks, and only then. -/
theorem fromJson_toJson_iff (r : NvCreateChatCompletionRequest F) :
    fromJson r.toJson = .ok r ↔ r.Shaped := by
  have hread : fromJson r.toJson = (do
      checkShape (r.tools.isNull || r.tools.isArray) (str "tools must be an array")
      checkShape (r.toolChoice.isNull || r.toolChoice.isString || r.toolChoice.isObject)
        (str "tool_choice must be a string or an object")
      Except.ok r) := by
    simp [fromJson, toJson, parseStopField]
  rw [hread]
  unfold checkShape
  constructor
  · intro h
    split at h
    · next htools =>
      split at h
      · next hchoice => exact ⟨htools, hchoice⟩
      · cases h
    · cases h
  · intro h
    rw [if_pos h.tools, if_pos h.toolChoice]
    rfl

end NvCreateChatCompletionRequest

instance : ToJson (NvCreateChatCompletionRequest F) := ⟨NvCreateChatCompletionRequest.toJson⟩

instance : FromJson (NvCreateChatCompletionRequest F) where
  default := {}
  fromJson j _ := NvCreateChatCompletionRequest.fromJson j

structure NvCreateCompletionRequest (F : Type) where
  model            : Bytes := []
  prompt           : Json := .null
  maxTokens        : Option UInt32 := none
  temperature      : Option F := none
  topP             : Option F := none
  frequencyPenalty : Option F := none
  presencePenalty  : Option F := none
  n                : Option Int32 := none
  bestOf           : Option Int32 := none
  logprobs         : Option Int32 := none
  stream           : Option Bool := none
  echo             : Option Bool := none
  stop             : Option (List Bytes) := none
  suffix           : Option Bytes := none
  user             : Option Bytes := none
  nvext            : Option NvExt := none

namespace NvCreateCompletionRequest

def toJson (r : NvCreateCompletionRequest F) : Json :=
  .object <| Members.ofList [("model", Llm.toJson r.model), ("prompt", r.prompt)]
    |>.setOpt "max_tokens" r.maxTokens
    |>.setOpt "temperature" r.temperature
    |>.setOpt "top_p" r.topP
    |>.setOpt "frequency_penalty" r.frequencyPenalty
    |>.setOpt "presence_penalty" r.presencePenalty
    |>.setOpt "n" r.n
    |>.setOpt "best_of" r.bestOf
    |>.setOpt "logprobs" r.logprobs
    |>.setOpt "stream" r.stream
    |>.setOpt "echo" r.echo
    |>.setOpt "stop" r.stop
    |>.setOpt "suffix" r.suffix
    |>.setOpt "user" r.user
    |>.setOpt "nvext" r.nvext

def fromJson (j : Json) : Except JsonError (NvCreateCompletionRequest F) := do
  let model ← getOr j "model" []
  let prompt ← j.value "prompt" Json.null
  let maxTokens ← getOpt j "max_tokens"
  let temperature ← getOpt j "temperature"
  let topP ← getOpt j "top_p"
  let frequencyPenalty ← getOpt j "frequency_penalty"
  let presencePenalty ← getOpt j "presence_penalty"
  let n ← getOpt j "n"
  let bestOf ← getOpt j "best_of"
  let logprobs ← getOpt j "logprobs"
  let stream ← getOpt j "stream"
  let echo ← getOpt j "echo"
  let stop ← parseStopField j
  let suffix ← getOpt j "suffix"
  let user ← getOpt j "user"
  let nvext ← getOpt j "nvext"
  return { model, prompt, maxTokens, temperature, topP, frequencyPenalty, presencePenalty, n,
           bestOf, logprobs, stream, echo, stop, suffix, user, nvext }

end NvCreateCompletionRequest

instance : ToJson (NvCreateCompletionRequest F) := ⟨NvCreateCompletionRequest.toJson⟩

instance : FromJson (NvCreateCompletionRequest F) where
  default := {}
  fromJson j _ := NvCreateCompletionRequest.fromJson j

instance : Restored (NvCreateCompletionRequest F) id where
  get_toJson := fun r => by
    show NvCreateCompletionRequest.fromJson r.toJson = .ok r
    simp [NvCreateCompletionRequest.fromJson, NvCreateCompletionRequest.toJson, parseStopField]
  isNull_toJson := fun _ => rfl

end

/-! ## Chat responses -/

structure ChatStreamDelta where
  role    : Option Bytes := none
  content : Option Bytes := none

def ChatStreamDelta.toJson (d : ChatStreamDelta) : Json :=
  .object <| Members.empty
    |>.setOpt "role" d.role
    |>.setOpt "content" d.content

def ChatStreamDelta.fromJson (j : Json) : Except JsonError ChatStreamDelta := do
  let role ← getOpt j "role"
  let content ← getOpt j "content"
  return { role, content }

instance : ToJson ChatStreamDelta := ⟨ChatStreamDelta.toJson⟩

instance : FromJson ChatStreamDelta where
  default := {}
  fromJson j _ := ChatStreamDelta.fromJson j

instance : Restored ChatStreamDelta id where
  get_toJson := fun d => by
    show ChatStreamDelta.fromJson d.toJson = .ok d
    simp [ChatStreamDelta.fromJson, ChatStreamDelta.toJson]
  isNull_toJson := fun _ => rfl

structure ChatChoiceStream where
  index        : UInt32 := 0
  delta        : ChatStreamDelta := {}
  finishReason : Option Bytes := none
  logprobs     : Json := .null

def ChatChoiceStream.toJson (c : ChatChoiceStream) : Json :=
  .object <| Members.ofList [("index", Llm.toJson c.index), ("delta", Llm.toJson c.delta)]
    |>.set "finish_reason" (Json.nullable c.finishReason)
    |>.set "logprobs" c.logprobs

def ChatChoiceStream.fromJson (j : Json) : Except JsonError ChatChoiceStream := do
  let index ← getOr j "index" 0
  let delta ← getOr j "delta" {}
  let finishReason ← getOpt j "finish_reason"
  let logprobs ← j.value "logprobs" Json.null
  return { index, delta, finishReason, logprobs }

instance : ToJson ChatChoiceStream := ⟨ChatChoiceStream.toJson⟩

instance : FromJson ChatChoiceStream where
  default := {}
  fromJson j _ := ChatChoiceStream.fromJson j

instance : Restored ChatChoiceStream id where
  get_toJson := fun c => by
    show ChatChoiceStream.fromJson c.toJson = .ok c
    simp [ChatChoiceStream.fromJson, ChatChoiceStream.toJson]
  isNull_toJson := fun _ => rfl

structure NvCreateChatCompletionStreamResponse where
  id                : Bytes := []
  choices           : List ChatChoiceStream := []
  created           : UInt64 := 0
  model             : Bytes := []
  object            : Bytes := str "chat.completion.chunk"
  usage             : Option CompletionUsage := none
  systemFingerprint : Option Bytes := none
  serviceTier       : Option Bytes := none

namespace NvCreateChatCompletionStreamResponse

def toJson (r : NvCreateChatCompletionStreamResponse) : Json :=
  .object <| Members.ofList
      [("id", Llm.toJson r.id), ("choices", Llm.toJson r.choices),
        ("created", Llm.toJson r.created), ("model", Llm.toJson r.model),
        ("object", Llm.toJson r.object)]
    |>.setOpt "usage" r.usage
    |>.setOpt "system_fingerprint" r.systemFingerprint
    |>.setOpt "service_tier" r.serviceTier

def fromJson (j : Json) : Except JsonError NvCreateChatCompletionStreamResponse := do
  let id ← getOr j "id" []
  let choices ← getOr j "choices" []
  let created ← getOr j "created" 0
  let model ← getOr j "model" []
  let object ← getOr j "object" (str "chat.completion.chunk")
  let usage ← getOpt j "usage"
  let systemFingerprint ← getOpt j "system_fingerprint"
  let serviceTier ← getOpt j "service_tier"
  return { id, choices, created, model, object, usage, systemFingerprint, serviceTier }

end NvCreateChatCompletionStreamResponse

instance : ToJson NvCreateChatCompletionStreamResponse :=
  ⟨NvCreateChatCompletionStreamResponse.toJson⟩

instance : FromJson NvCreateChatCompletionStreamResponse where
  default := {}
  fromJson j _ := NvCreateChatCompletionStreamResponse.fromJson j

instance : Restored NvCreateChatCompletionStreamResponse id where
  get_toJson := fun r => by
    show NvCreateChatCompletionStreamResponse.fromJson r.toJson = .ok r
    simp [NvCreateChatCompletionStreamResponse.fromJson,
      NvCreateChatCompletionStreamResponse.toJson]
  isNull_toJson := fun _ => rfl

/-! ## Completion responses -/

structure CompletionChoice where
  text         : Bytes := []
  index        : UInt64 := 0
  finishReason : Option Bytes := none
  logprobs     : Json := .null

/-- Other than those of a chat, the choice does not write logprobs that are null. -/
def CompletionChoice.toJson (c : CompletionChoice) : Json :=
  .object <| Members.ofList [("text", Llm.toJson c.text), ("index", Llm.toJson c.index)]
    |>.set "finish_reason" (Json.nullable c.finishReason)
    |>.setOpt "logprobs" c.logprobs.unlessNull

def CompletionChoice.fromJson (j : Json) : Except JsonError CompletionChoice := do
  let text ← getOr j "text" []
  let index ← getOr j "index" 0
  let finishReason ← getOpt j "finish_reason"
  let logprobs ← j.value "logprobs" Json.null
  return { text, index, finishReason, logprobs }

instance : ToJson CompletionChoice := ⟨CompletionChoice.toJson⟩

instance : FromJson CompletionChoice where
  default := {}
  fromJson j _ := CompletionChoice.fromJson j

instance : Restored CompletionChoice id where
  get_toJson := fun c => by
    show CompletionChoice.fromJson c.toJson = .ok c
    simp [CompletionChoice.fromJson, CompletionChoice.toJson]
  isNull_toJson := fun _ => rfl

structure NvCreateCompletionResponse where
  id                : Bytes := []
  choices           : List CompletionChoice := []
  created           : UInt64 := 0
  model             : Bytes := []
  object            : Bytes := str "text_completion"
  usage             : Option CompletionUsage := none
  systemFingerprint : Option Bytes := none

namespace NvCreateCompletionResponse

def toJson (r : NvCreateCompletionResponse) : Json :=
  .object <| Members.ofList
      [("id", Llm.toJson r.id), ("choices", Llm.toJson r.choices),
        ("created", Llm.toJson r.created), ("model", Llm.toJson r.model),
        ("object", Llm.toJson r.object)]
    |>.setOpt "usage" r.usage
    |>.setOpt "system_fingerprint" r.systemFingerprint

def fromJson (j : Json) : Except JsonError NvCreateCompletionResponse := do
  let id ← getOr j "id" []
  let choices ← getOr j "choices" []
  let created ← getOr j "created" 0
  let model ← getOr j "model" []
  let object ← getOr j "object" (str "text_completion")
  let usage ← getOpt j "usage"
  let systemFingerprint ← getOpt j "system_fingerprint"
  return { id, choices, created, model, object, usage, systemFingerprint }

end NvCreateCompletionResponse

instance : ToJson NvCreateCompletionResponse := ⟨NvCreateCompletionResponse.toJson⟩

instance : FromJson NvCreateCompletionResponse where
  default := {}
  fromJson j _ := NvCreateCompletionResponse.fromJson j

instance : Restored NvCreateCompletionResponse id where
  get_toJson := fun r => by
    show NvCreateCompletionResponse.fromJson r.toJson = .ok r
    simp [NvCreateCompletionResponse.fromJson, NvCreateCompletionResponse.toJson]
  isNull_toJson := fun _ => rfl

end DynamoCpp.Llm.OpenAi
