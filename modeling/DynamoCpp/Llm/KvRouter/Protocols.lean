import DynamoCpp.Llm.KvRouter.Indexer
import DynamoCpp.Llm.Protocols.Json
import DynamoCpp.Llm.Tokens

/-! # Codecs of the KV router events

    `llm/kv_router/protocols.h`.  The data of an event is tagged with its kind, and only
    the variant of that kind is written.  On the wire an event has an id, which the
    indexer does not look at.
-/

open Framework

namespace DynamoCpp.Llm.KvRouter

/-! ## Hashes of requests -/

/-- One hash per full block of the tokens. -/
def computeBlockHashesForSeq (computeHash : Bytes → UInt64) (tokens : List Token)
    (kvBlockSize : Nat) : List LocalBlockHash :=
  if kvBlockSize = 0 then []
  else
    (List.range (tokens.length / kvBlockSize)).map fun i =>
      computeHash (((tokens.drop (i * kvBlockSize)).take kvBlockSize).flatMap fun token =>
        littleEndian 4 token.toNat)

/-! ## Blocks -/

def KvCacheStoredBlockData.toJson (d : KvCacheStoredBlockData) : Json :=
  .object <| Members.ofList
    [("block_hash", Llm.toJson d.blockHash), ("tokens_hash", Llm.toJson d.tokensHash)]

def KvCacheStoredBlockData.fromJson (j : Json) : Except JsonError KvCacheStoredBlockData := do
  let blockHash ← getOr j "block_hash" 0
  let tokensHash ← getOr j "tokens_hash" 0
  return { blockHash, tokensHash }

instance : ToJson KvCacheStoredBlockData := ⟨KvCacheStoredBlockData.toJson⟩

instance : FromJson KvCacheStoredBlockData where
  default := {}
  fromJson j _ := KvCacheStoredBlockData.fromJson j

instance : Restored KvCacheStoredBlockData id where
  get_toJson := fun d => by
    show KvCacheStoredBlockData.fromJson d.toJson = .ok d
    simp [KvCacheStoredBlockData.fromJson, KvCacheStoredBlockData.toJson]
  isNull_toJson := fun _ => rfl

def KvCacheStoreData.toJson (d : KvCacheStoreData) : Json :=
  .object <| Members.ofList [("blocks", Llm.toJson d.blocks)]
    |>.set "parent_hash" (Json.nullable d.parentHash)

def KvCacheStoreData.fromJson (j : Json) : Except JsonError KvCacheStoreData := do
  let blocks ← getOr j "blocks" []
  let parentHash ← getOpt j "parent_hash"
  return { parentHash, blocks }

instance : ToJson KvCacheStoreData := ⟨KvCacheStoreData.toJson⟩

instance : FromJson KvCacheStoreData where
  default := {}
  fromJson j _ := KvCacheStoreData.fromJson j

instance : Restored KvCacheStoreData id where
  get_toJson := fun d => by
    show KvCacheStoreData.fromJson d.toJson = .ok d
    simp [KvCacheStoreData.fromJson, KvCacheStoreData.toJson]
  isNull_toJson := fun _ => rfl

def KvCacheRemoveData.toJson (d : KvCacheRemoveData) : Json :=
  .object <| Members.ofList [("block_hashes", Llm.toJson d.blockHashes)]

def KvCacheRemoveData.fromJson (j : Json) : Except JsonError KvCacheRemoveData := do
  let blockHashes ← getOr j "block_hashes" []
  return { blockHashes }

instance : ToJson KvCacheRemoveData := ⟨KvCacheRemoveData.toJson⟩

instance : FromJson KvCacheRemoveData where
  default := {}
  fromJson j _ := KvCacheRemoveData.fromJson j

instance : Restored KvCacheRemoveData id where
  get_toJson := fun d => by
    show KvCacheRemoveData.fromJson d.toJson = .ok d
    simp [KvCacheRemoveData.fromJson, KvCacheRemoveData.toJson]
  isNull_toJson := fun _ => rfl

/-! ## Events -/

def KvCacheEventData.toJson : KvCacheEventData → Json
  | .stored d => .object <| Members.ofList [("stored", Llm.toJson d)]
  | .removed d => .object <| Members.ofList [("removed", Llm.toJson d)]

def KvCacheEventData.fromJson (j : Json) : Except JsonError KvCacheEventData :=
  match j.find "stored" with
  | some member => member.get.map .stored
  | none =>
    match j.find "removed" with
    | some member => member.get.map .removed
    | none => .error (.invalidArgument (str "invalid KvCacheEventData: ") (some j))

instance : ToJson KvCacheEventData := ⟨KvCacheEventData.toJson⟩

instance : FromJson KvCacheEventData where
  default := .stored {}
  fromJson j _ := KvCacheEventData.fromJson j

instance : Restored KvCacheEventData id where
  get_toJson := fun d => by
    show KvCacheEventData.fromJson d.toJson = .ok d
    cases d with
    | stored d =>
      show (Llm.toJson d).get.map KvCacheEventData.stored = _
      rw [Restored.get_toJson d]
      rfl
    | removed d =>
      -- the tag of the other variant is not written
      show (Llm.toJson d).get.map KvCacheEventData.removed = _
      rw [Restored.get_toJson d]
      rfl
  isNull_toJson := fun d => by cases d <;> rfl

/-- An event with its id. -/
structure KvCacheEvent where
  eventId : UInt64 := 0
  data    : KvCacheEventData := .stored {}

def KvCacheEvent.toJson (e : KvCacheEvent) : Json :=
  .object <| Members.ofList [("event_id", Llm.toJson e.eventId), ("data", Llm.toJson e.data)]

def KvCacheEvent.fromJson (j : Json) : Except JsonError KvCacheEvent := do
  let eventId ← getOr j "event_id" 0
  let data ← getOr j "data" (.stored {})
  return { eventId, data }

instance : ToJson KvCacheEvent := ⟨KvCacheEvent.toJson⟩

instance : FromJson KvCacheEvent where
  default := {}
  fromJson j _ := KvCacheEvent.fromJson j

instance : Restored KvCacheEvent id where
  get_toJson := fun e => by
    show KvCacheEvent.fromJson e.toJson = .ok e
    simp [KvCacheEvent.fromJson, KvCacheEvent.toJson]
  isNull_toJson := fun _ => rfl

namespace Wire

/-- What rides the event plane: an event attributed to a worker. -/
structure RouterEvent where
  workerId : WorkerId := 0
  event    : KvCacheEvent := {}

def RouterEvent.toJson (e : RouterEvent) : Json :=
  .object <| Members.ofList [("worker_id", Llm.toJson e.workerId), ("event", Llm.toJson e.event)]

def RouterEvent.fromJson (j : Json) : Except JsonError RouterEvent := do
  let workerId ← getOr j "worker_id" 0
  let event ← getOr j "event" {}
  return { workerId, event }

instance : ToJson RouterEvent := ⟨RouterEvent.toJson⟩

instance : FromJson RouterEvent where
  default := {}
  fromJson j _ := RouterEvent.fromJson j

instance : Restored RouterEvent id where
  get_toJson := fun e => by
    show RouterEvent.fromJson e.toJson = .ok e
    simp [RouterEvent.fromJson, RouterEvent.toJson]
  isNull_toJson := fun _ => rfl

/-! ## From the publishers to the index -/

/-- The event as the indexer applies it. -/
def RouterEvent.applied (e : RouterEvent) : KvRouter.RouterEvent := ⟨e.workerId, e.event.data⟩

/-- `KvEventPublisher::publish` of a worker. -/
def publish (workerId : WorkerId) (event : KvCacheEvent) : Json :=
  Llm.toJson ({ workerId, event } : RouterEvent)

/-- One turn of `event_consumer`: a malformed event is dropped. -/
def consume (t : RadixTree) (payload : Json) : RadixTree :=
  match (payload.get : Except JsonError RouterEvent) with
  | .ok e => t.applyEvent e.applied
  | .error _ => t

theorem consume_publish (t : RadixTree) (workerId : WorkerId) (event : KvCacheEvent) :
    consume t (publish workerId event) = t.applyEvent ⟨workerId, event.data⟩ := by
  unfold consume publish
  rw [Restored.get_toJson]
  rfl

/-- The consumer builds the index of the events that were published: none is dropped. -/
theorem consume_published (t : RadixTree) (events : List (WorkerId × KvCacheEvent)) :
    (events.map fun e => publish e.1 e.2).foldl consume t =
      (events.map fun e => (⟨e.1, e.2.data⟩ : KvRouter.RouterEvent)).foldl
        RadixTree.applyEvent t := by
  induction events generalizing t with
  | nil => rfl
  | cons e events ih =>
    rw [List.map_cons, List.foldl_cons, consume_publish, ih]
    rfl

end Wire

end DynamoCpp.Llm.KvRouter
