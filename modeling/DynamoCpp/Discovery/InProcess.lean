import DynamoCpp.Discovery.Protocol

/-! # The in-process backend

    `InProcessDiscovery::Store`: the store that runtimes of one process share.
    Every operation runs under the store mutex.  Sending an event to a watcher may
    fail; the outcome of the `n`-th send of an operation is `net n`, and the list of
    attempted sends is returned with the new store.  A record keeps the keys of its
    lease; the cancellation token that it also keeps, and through which a lease is
    revoked, is not part of the model.
-/

namespace DynamoCpp.Discovery.InProcess

open Framework

structure LeaseRecord where
  keys : List Bytes := []
  deriving DecidableEq

/-- A watcher and the channel that it sends to. -/
structure Watcher where
  pre  : Bytes
  sink : Nat
  deriving DecidableEq

structure Store where
  kvs         : OrdMap Bytes KeyValue := ∅
  revision    : Nat := 0
  nextLeaseId : LeaseId := 1
  leases      : OrdMap LeaseId LeaseRecord := ∅
  watchers    : List Watcher := []

/-- One `sink.send` and whether it succeeded. -/
structure Sent where
  sink  : Nat
  event : WatchEvent
  ok    : Bool

/-- The loop of `notify_locked`: watchers of a prefix of the key are sent the event,
    those whose channel is closed are erased. -/
def notifyLoop (net : Nat → Bool) (event : WatchEvent) :
    List Watcher → List Sent → List Watcher × List Sent
  | [], sent => ([], sent)
  | w :: ws, sent =>
    if w.pre <+: event.kv.key then
      let rest := notifyLoop net event ws (sent ++ [⟨w.sink, event, net sent.length⟩])
      if net sent.length then (w :: rest.1, rest.2) else rest
    else
      let rest := notifyLoop net event ws sent
      (w :: rest.1, rest.2)

def notifyLocked (net : Nat → Bool) (r : Store × List Sent) (event : WatchEvent) :
    Store × List Sent :=
  let notified := notifyLoop net event r.1.watchers r.2
  ({ r.1 with watchers := notified.1 }, notified.2)

/-! ## Leases -/

/-- `make_lease`. -/
def createLease (s : Store) : Store :=
  { s with nextLeaseId := s.nextLeaseId + 1, leases := s.leases.insert s.nextLeaseId {} }

def unbindLeaseLocked (s : Store) (key : Bytes) (leaseId : LeaseId) : Store :=
  if leaseId = 0 then s
  else
    match s.leases[leaseId]? with
    | none => s
    | some record =>
      { s with leases := s.leases.insert leaseId { keys := record.keys.filter (· ≠ key) } }

/-- `leases[lease_id].keys.push_back(key)`, skipped for "no lease". -/
def bindLease (s : Store) (key : Bytes) (leaseId : LeaseId) : Store :=
  if leaseId = 0 then s
  else
    let record := (s.leases[leaseId]?).getD {}
    { s with leases := s.leases.insert leaseId { keys := record.keys ++ [key] } }

/-- One turn of the loop of `revoke_lease`: a stored key is erased, its delete is
    collected. -/
def collectDelete (r : OrdMap Bytes KeyValue × List WatchEvent) (key : Bytes) :
    OrdMap Bytes KeyValue × List WatchEvent :=
  match r.1[key]? with
  | none => r
  | some kv => (r.1.erase key, r.2 ++ [⟨.delete, kv⟩])

/-- Deletes the keys of a lease and forgets it, then notifies.  The revision stays. -/
def revokeLease (net : Nat → Bool) (s : Store) (leaseId : LeaseId) : Store × List Sent :=
  match s.leases[leaseId]? with
  | none => (s, [])
  | some record =>
    let deleted := record.keys.foldl collectDelete (s.kvs, [])
    let s := { s with kvs := deleted.1, leases := s.leases.erase leaseId }
    deleted.2.foldl (notifyLocked net) (s, [])

/-! ## Keys -/

/-- The outcome of an operation that returns nothing or throws. -/
structure Outcome where
  result : Except Bytes Unit
  store  : Store
  sent   : List Sent := []

/-- Stores the entry and notifies. -/
def storeKey (net : Nat → Bool) (s : Store) (kv : KeyValue) : Outcome :=
  let r := notifyLocked net ({ s with kvs := s.kvs.insert kv.key kv }, []) ⟨.put, kv⟩
  ⟨.ok (), r.1, r.2⟩

def kvCreate (net : Nat → Bool) (s : Store) (key value : Bytes) (leaseId : Option LeaseId) :
    Outcome :=
  if s.kvs.contains key then
    ⟨.error (str "kv_create: key already exists: " ++ key), s, []⟩
  else
    -- the revision is taken before the lease is looked up
    let s := { s with revision := s.revision + 1 }
    let kv : KeyValue := ⟨key, value, leaseId.getD 0, s.revision⟩
    if leaseId.getD 0 = 0 then storeKey net s kv
    else
      match s.leases[leaseId.getD 0]? with
      | none => ⟨.error (str "kv_create: unknown or expired lease"), s, []⟩
      | some record =>
        storeKey net
          { s with
            leases := s.leases.insert (leaseId.getD 0) { keys := record.keys ++ [key] } } kv

def kvPut (net : Nat → Bool) (s : Store) (key value : Bytes) (leaseId : Option LeaseId) :
    Outcome :=
  let newLease := leaseId.getD 0
  if newLease ≠ 0 && !s.leases.contains newLease then
    ⟨.error (str "kv_put: unknown or expired lease"), s, []⟩
  else
    let bound :=
      match s.kvs[key]? with
      | some existing =>
        if existing.leaseId ≠ newLease then
          bindLease (unbindLeaseLocked s key existing.leaseId) key newLease
        else s
      | none => bindLease s key newLease
    storeKey net { bound with revision := bound.revision + 1 }
      ⟨key, value, newLease, bound.revision + 1⟩

/-- The existing key is looked up under one lock, `kv_create` runs under the next. -/
def kvCreateOrValidate (net : Nat → Bool) (s : Store) (key value : Bytes)
    (leaseId : Option LeaseId) : Outcome :=
  match s.kvs[key]? with
  | some existing =>
    if existing.value = value then ⟨.ok (), s, []⟩
    else ⟨.error (str "kv_create_or_validate: existing value differs for " ++ key), s, []⟩
  | none => kvCreate net s key value leaseId

def kvGetPrefix (s : Store) (pre : Bytes) : List KeyValue :=
  (s.kvs.scanFrom pre fun k => decide (pre <+: k)).map (·.2)

end DynamoCpp.Discovery.InProcess
