import DynamoCpp.Discovery.Server

/-! # TcpDiscovery watch records

    The client side of a watch: what `resubscribe_all` asks for on a fresh
    connection and what `route_watch_frame` does with each frame.  The record
    is kept under the client mutex, so both are functions on it.  Events go to
    the sink in the order of the returned list; the consumer is assumed to
    keep its receiver open (`sink.send` returns true), otherwise the record is
    erased and there is no watch left to speak of.
-/

namespace DynamoCpp.Discovery

open Framework

/-- `TcpDiscovery::State::WatchRecord`, without the sink. -/
structure WatchRecord where
  pre      : Bytes
  /-- Keys currently believed alive. -/
  liveKeys : OrdSet Bytes := ∅
  /-- Snapshot keys gathered during a resync. -/
  syncKeys : OrdSet Bytes := ∅
  syncing  : Bool := false
  /-- Highest revision observed; a resync starts here. -/
  lastRev  : Nat := 0

/-- The record `kv_get_and_watch_prefix` creates before it sends its request. -/
def WatchRecord.fresh (pre : Bytes) : WatchRecord :=
  { pre := pre, syncing := true }

/-- The `from_rev` of a watch request: absent (the server reads -1) unless a
    revision was observed. -/
def WatchRecord.fromRev (record : WatchRecord) : Int :=
  if record.lastRev > 0 then record.lastRev else -1

/-- `resubscribe_all` for one record: it enters resync mode and asks again. -/
def WatchRecord.resubscribe (record : WatchRecord) : WatchRecord :=
  { record with syncing := true, syncKeys := ∅ }

/-- `route_watch_frame` for a frame addressed to this record: the new record
    and the events sent to the sink. -/
def routeWatchFrame (record : WatchRecord) : Frame → WatchRecord × List WatchEvent
  | .sync _ mode rev =>
    -- a marker outside a sync window is ignored
    if record.syncing = false then (record, [])
    else
      -- only a snapshot lists every key, so only it can tell which are gone
      let gone := record.liveKeys.toList.filter fun k => k ∉ record.syncKeys
      match mode with
      | .snapshot =>
        ({ record with
            liveKeys := record.syncKeys, syncKeys := ∅, syncing := false
            lastRev := max record.lastRev rev },
          gone.map fun k => ⟨.delete, ⟨k, [], 0, 0⟩⟩)
      | .replay =>
        ({ record with syncKeys := ∅, syncing := false, lastRev := max record.lastRev rev }, [])
  | .watch _ .put kv =>
    ({ record with
        liveKeys := record.liveKeys.insert kv.key
        syncKeys := if record.syncing then record.syncKeys.insert kv.key else record.syncKeys
        lastRev := max record.lastRev kv.modRevision },
      [⟨.put, kv⟩])
  | .watch _ .delete kv =>
    ({ record with
        liveKeys := record.liveKeys.erase kv.key
        lastRev := max record.lastRev kv.modRevision },
      [⟨.delete, kv⟩])
  -- routed by subscription or request id, never to a watch record
  | .event .. => (record, [])
  | .reply .. => (record, [])

/-- Frames processed in order, with everything sent to the sink. -/
def routeFrames (record : WatchRecord) : List Frame → WatchRecord × List WatchEvent
  | [] => (record, [])
  | f :: fs =>
    let r := routeWatchFrame record f
    let rest := routeFrames r.1 fs
    (rest.1, r.2 ++ rest.2)

/-- The watch id a frame is routed by, if it is a watch frame. -/
def Frame.watchId? : Frame → Option Nat
  | .watch id _ _ => some id
  | .sync id _ _ => some id
  | .event .. => none
  | .reply .. => none

/-- What a consumer does with an event: Put inserts the key, Delete removes it. -/
def consume (keys : OrdSet Bytes) (e : WatchEvent) : OrdSet Bytes :=
  match e.kind with
  | .put => keys.insert e.kv.key
  | .delete => keys.erase e.kv.key

/-- The key set a consumer of the sink holds. -/
def foldSink (events : List WatchEvent) : OrdSet Bytes :=
  events.foldl consume ∅

end DynamoCpp.Discovery
