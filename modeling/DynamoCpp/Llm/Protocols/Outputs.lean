import DynamoCpp.Llm.Protocols.Common

/-! # Codecs of engine outputs and their envelope

    `LLMEngineOutput`, `BackendOutput` and `pipeline::Annotated`.  A token without text is
    null in the list of tokens.  The envelope has no tolerance for null: a member that is
    there must convert, and a field whose member is not there is left as it was.

    Both outputs carry a finish reason, so they are read back up to the message of a reason
    that is not an error.
-/

open Framework

namespace DynamoCpp.Llm

/-! ## Tokens -/

def tokensToJson (tokens : List (Option Bytes)) : Json := .array (tokens.map Json.nullable)

def tokensFromJson (arr : Json) : Except JsonError (List (Option Bytes)) :=
  arr.items.mapM fun t => Json.readOpt (some t)

/-- The tokens that a lookup has found, if it is not null. -/
def readTokens : Option Json → Except JsonError (Option (List (Option Bytes)))
  | some member => if member.isNull then .ok none else (tokensFromJson member).map some
  | none => .ok none

theorem tokensFromJson_tokensToJson (tokens : List (Option Bytes)) :
    tokensFromJson (tokensToJson tokens) = .ok tokens := by
  have hrestores : Restores (Json.nullable (α := Bytes)) (fun t => Json.readOpt (some t)) id :=
    fun token => by simp
  have h := hrestores.mapM tokens
  rwa [List.map_id] at h

@[simp] theorem readTokens_tokensToJson (tokens : List (Option Bytes)) :
    readTokens (some (tokensToJson tokens)) = .ok (some tokens) := by
  show (tokensFromJson (tokensToJson tokens)).map some = _
  rw [tokensFromJson_tokensToJson]
  rfl

@[simp] theorem readTokens_map (tokens : Option (List (Option Bytes))) :
    readTokens (tokens.map (toJson ∘ tokensToJson)) = .ok tokens := by
  cases tokens with
  | none => rfl
  | some tokens => exact readTokens_tokensToJson tokens

/-! ## Outputs -/

namespace LLMEngineOutput

def toJson (o : LLMEngineOutput) : Json :=
  .object <| Members.ofList [("token_ids", Llm.toJson o.tokenIds)]
    |>.setOpt "tokens" (o.tokens.map tokensToJson)
    |>.setOpt "text" o.text
    |>.setOpt "cum_log_probs" o.cumLogProbs
    |>.setOpt "log_probs" o.logProbs
    |>.setOpt "finish_reason" o.finishReason

def fromJson (j : Json) : Except JsonError LLMEngineOutput := do
  let tokenIds ← getOr j "token_ids" []
  let tokens ← readTokens (j.find "tokens")
  let text ← getOpt j "text"
  let cumLogProbs ← getOpt j "cum_log_probs"
  let logProbs ← getOpt j "log_probs"
  let finishReason ← getOpt j "finish_reason"
  return { tokenIds, tokens, text, cumLogProbs, logProbs, finishReason }

/-- The output with the reason as far as it counts. -/
def counted (o : LLMEngineOutput) : LLMEngineOutput :=
  { o with finishReason := o.finishReason.map FinishReason.counted }

end LLMEngineOutput

instance : ToJson LLMEngineOutput := ⟨LLMEngineOutput.toJson⟩

instance : FromJson LLMEngineOutput where
  default := {}
  fromJson j _ := LLMEngineOutput.fromJson j

instance : Restored LLMEngineOutput LLMEngineOutput.counted where
  get_toJson := fun o => by
    show LLMEngineOutput.fromJson o.toJson = .ok o.counted
    simp [LLMEngineOutput.fromJson, LLMEngineOutput.toJson, LLMEngineOutput.counted]
  isNull_toJson := fun _ => rfl

namespace BackendOutput

def toJson (o : BackendOutput) : Json :=
  .object <| Members.ofList
      [("token_ids", Llm.toJson o.tokenIds), ("tokens", tokensToJson o.tokens),
        ("mdcsum", Llm.toJson o.mdcsum)]
    |>.setOpt "text" o.text
    |>.setOpt "cum_log_probs" o.cumLogProbs
    |>.setOpt "log_probs" o.logProbs
    |>.setOpt "finish_reason" o.finishReason

def fromJson (j : Json) : Except JsonError BackendOutput := do
  let tokenIds ← getOr j "token_ids" []
  let tokens ← readTokens (j.find "tokens")
  let mdcsum ← getOr j "mdcsum" []
  let text ← getOpt j "text"
  let cumLogProbs ← getOpt j "cum_log_probs"
  let logProbs ← getOpt j "log_probs"
  let finishReason ← getOpt j "finish_reason"
  return { tokenIds, tokens := tokens.getD [], text, cumLogProbs, logProbs, finishReason, mdcsum }

def counted (o : BackendOutput) : BackendOutput :=
  { o with finishReason := o.finishReason.map FinishReason.counted }

end BackendOutput

instance : ToJson BackendOutput := ⟨BackendOutput.toJson⟩

instance : FromJson BackendOutput where
  default := {}
  fromJson j _ := BackendOutput.fromJson j

instance : Restored BackendOutput BackendOutput.counted where
  get_toJson := fun o => by
    show BackendOutput.fromJson o.toJson = .ok o.counted
    simp [BackendOutput.fromJson, BackendOutput.toJson, BackendOutput.counted]
  isNull_toJson := fun _ => rfl

/-! ## The envelope -/

section

variable {R : Type}

/-- `if (j.contains(key)) field = j.at(key).get<T>()` -/
def Json.readContained [FromJson R] (field : Option R) : Option Json → Except JsonError (Option R)
  | some member => member.get.map some
  | none => .ok field

namespace Annotated

def toJson [ToJson R] (a : Annotated R) : Json :=
  .object <| Members.empty
    |>.setOpt "data" a.data
    |>.setOpt "id" a.id
    |>.setOpt "event" a.event
    |>.setOpt "comment" a.comment

def fromJson [FromJson R] (j : Json) (a : Annotated R) : Except JsonError (Annotated R) := do
  let data ← Json.readContained a.data (j.find "data")
  let id ← Json.readContained a.id (j.find "id")
  let event ← Json.readContained a.event (j.find "event")
  let comment ← Json.readContained a.comment (j.find "comment")
  return { data, id, event, comment }

def mapData (f : R → R) (a : Annotated R) : Annotated R := { a with data := a.data.map f }

end Annotated

instance [ToJson R] : ToJson (Annotated R) := ⟨Annotated.toJson⟩

instance [FromJson R] : FromJson (Annotated R) where
  default := {}
  fromJson := Annotated.fromJson

variable [ToJson R] [FromJson R] {keep : R → R} [Restored R keep]

@[simp] theorem Json.readContained_map (v : Option R) :
    Json.readContained none (v.map ToJson.toJson) = .ok (v.map keep) := by
  cases v with
  | none => rfl
  | some v =>
    show (ToJson.toJson v).get.map some = _
    rw [Restored.get_toJson v]
    rfl

instance : Restored (Annotated R) (Annotated.mapData keep) where
  get_toJson := fun a => by
    show Annotated.fromJson a.toJson {} = .ok (a.mapData keep)
    simp [Annotated.fromJson, Annotated.toJson, Annotated.mapData]
  isNull_toJson := fun _ => rfl

end

end DynamoCpp.Llm
