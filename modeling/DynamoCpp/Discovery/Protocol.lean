import DynamoCpp.Basic
import DynamoCpp.Framework.OrderedMap

/-! # The discovery wire protocol

    Requests, replies and watch frames exchanged between `TcpDiscovery`
    clients and `discoveryd`, after JSON decoding.  A request header that
    lacks a required field makes `req.at(..)` throw and ends the connection,
    so it never reaches the operations modelled here.
-/

namespace DynamoCpp.Discovery

/-- A lease id; `0` means "no lease". -/
abbrev LeaseId : Type := Int

/-- Server-side connection number (`next_conn_id`). -/
abbrev ConnId : Type := Nat

/-- A key with its value, lease and the revision that last modified it. -/
structure KeyValue where
  key         : Bytes
  value       : Bytes
  leaseId     : LeaseId := 0
  modRevision : Nat := 0
  deriving DecidableEq

/-- `WatchEvent::Kind`. -/
inductive WatchKind where
  | put
  | delete
  deriving DecidableEq

/-- What a watch delivers to its consumer. -/
structure WatchEvent where
  kind : WatchKind
  kv   : KeyValue
  deriving DecidableEq

/-- How a resync was answered: from the event log, or with a full snapshot. -/
inductive SyncMode where
  | replay
  | snapshot
  deriving DecidableEq

/-- A decoded request.  Optional fields carry the default the server uses for
    them (`ttl` 10, `lease_id` 0, `from_rev` -1). -/
inductive Request where
  | createLease (ttl : Int)
  | keepalive (leaseId : LeaseId)
  | revoke (leaseId : LeaseId)
  | kvCreate (key value : Bytes) (leaseId : LeaseId)
  | kvPut (key value : Bytes) (leaseId : LeaseId)
  | kvCreateOrValidate (key value : Bytes) (leaseId : LeaseId)
  | getPrefix (pre : Bytes)
  | watch (pre : Bytes) (watchId : Nat) (fromRev : Int)
  | unwatch (watchId : Nat)
  | subscribe (subId : Nat) (subject : Bytes)
  | unsubscribe (subId : Nat)
  | publish (subject data : Bytes)
  | queueDispatch (subject data : Bytes)
  | unknown (op : Bytes)
  deriving DecidableEq

/-- A reply header. -/
structure Reply where
  reply    : Nat
  ok       : Bool := true
  error    : Option Bytes := none
  leaseId  : Option LeaseId := none
  ttl      : Option Int := none
  kvs      : Option (List KeyValue) := none
  revision : Option Nat := none
  deriving DecidableEq

/-- A frame written by the server. -/
inductive Frame where
  | watch (watchId : Nat) (kind : WatchKind) (kv : KeyValue)
  | sync (watchId : Nat) (mode : SyncMode) (rev : Nat)
  | event (subId : Nat) (subject data : Bytes)
  | reply (r : Reply)
  deriving DecidableEq

end DynamoCpp.Discovery
