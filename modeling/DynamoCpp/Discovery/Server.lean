import DynamoCpp.Discovery.Protocol

/-! # discoveryd

    The state of the discovery server and `handle_request`, one definition per
    operation.  Every operation runs under the server mutex, so it is one
    function on the state.  Writing a frame to a connection may fail; the
    outcome of the `n`-th write of an operation is `net n`, and the list of
    attempted writes is returned with the new state.
-/

namespace DynamoCpp.Discovery

open Framework

/-! ## State -/

structure Entry where
  value       : Bytes
  leaseId     : LeaseId := 0
  modRevision : Nat := 0
  deriving DecidableEq

structure LoggedEvent where
  rev     : Nat
  isPut   : Bool
  key     : Bytes
  leaseId : LeaseId
  value   : Bytes
  deriving DecidableEq

structure LeaseRecord where
  deadline : Int := 0
  ttl      : Int := 10
  keys     : List Bytes := []
  deriving DecidableEq

structure Watcher where
  id   : Nat
  pre  : Bytes
  conn : ConnId
  deriving DecidableEq

structure Subscriber where
  id      : Nat
  subject : Bytes
  conn    : ConnId
  deriving DecidableEq

/-- `DiscoveryServer::State`, without the threads and the listener. -/
structure Server where
  kvs         : OrdMap Bytes Entry := ∅
  revision    : Nat := 0
  eventLog    : List LoggedEvent := []
  leases      : OrdMap LeaseId LeaseRecord := ∅
  nextLeaseId : LeaseId := 1
  watchers    : List Watcher := []
  subscribers : List Subscriber := []
  queueCursor : OrdMap Bytes Nat := ∅
  conns       : OrdSet ConnId := ∅
  nextConnId  : ConnId := 0

def kEventLogCapacity : Nat := 4096

/-! ## Writes -/

/-- One `Conn::write` and whether it succeeded. -/
structure Write where
  conn  : ConnId
  frame : Frame
  ok    : Bool

/-- The outcome of the `n`-th write of an operation. -/
abbrev Net : Type := Nat → Bool

/-- Attempts one write after those in `out`. -/
def write (net : Net) (out : List Write) (c : ConnId) (f : Frame) : List Write :=
  out ++ [⟨c, f, net out.length⟩]

/-- Attempts a list of writes on one connection, ignoring their outcomes. -/
def writeAll (net : Net) (out : List Write) (c : ConnId) (fs : List Frame) : List Write :=
  fs.foldl (fun out f => write net out c f) out

/-! ## Mutations -/

/-- Records a mutation under the next revision; the log keeps the newest events. -/
def logMutationLocked (s : Server) (isPut : Bool) (key : Bytes) (leaseId : LeaseId)
    (value : Bytes) : Server :=
  let rev := s.revision + 1
  let log := s.eventLog ++ [⟨rev, isPut, key, leaseId, value⟩]
  { s with
    revision := rev
    eventLog := if log.length > kEventLogCapacity then log.tail else log }

/-- True when every event after `fromRev` is still in the log. -/
def canReplayFrom (s : Server) (fromRev : Int) : Bool :=
  -- nothing was missed, whatever the log holds
  if fromRev ≥ s.revision then true
  else
    match s.eventLog.head? with
    | none => false
    | some front => front.rev ≤ fromRev + 1

def kindOf (isPut : Bool) : WatchKind := if isPut then .put else .delete

/-- The loop shared by the fan-outs: selected entries are written to in order,
    those whose connection fails the write are erased. -/
def fanout {α : Type} (net : Net) (sel : α → Bool) (conn : α → ConnId) (frame : α → Frame) :
    List α → List Write → List α × List Write
  | [], out => ([], out)
  | a :: as, out =>
    if sel a then
      let rest := fanout net sel conn frame as (write net out (conn a) (frame a))
      if net out.length then (a :: rest.1, rest.2) else rest
    else
      let rest := fanout net sel conn frame as out
      (a :: rest.1, rest.2)

/-- The fan-out of an event to the watchers of a prefix of its key. -/
def notifyWatchers (net : Net) (kind : WatchKind) (kv : KeyValue) (ws : List Watcher)
    (out : List Write) : List Watcher × List Write :=
  fanout net (fun w => decide (w.pre <+: kv.key)) (·.conn) (fun w => .watch w.id kind kv) ws out

/-- Logs the mutation and fans it out to matching watchers. -/
def mutateAndNotifyLocked (net : Net) (s : Server) (out : List Write) (isPut : Bool)
    (key : Bytes) (leaseId : LeaseId) (value : Bytes) : Server × List Write :=
  let s := logMutationLocked s isPut key leaseId value
  let notified := notifyWatchers net (kindOf isPut) ⟨key, value, leaseId, s.revision⟩ s.watchers out
  ({ s with watchers := notified.1 }, notified.2)

/-- Detaches `key` from whichever lease owns it. -/
def unbindLeaseLocked (s : Server) (key : Bytes) (leaseId : LeaseId) : Server :=
  if leaseId = 0 then s
  else
    match s.leases[leaseId]? with
    -- the owner may have expired in the meantime
    | none => s
    | some record =>
      { s with
        leases := s.leases.insert leaseId { record with keys := record.keys.filter (· ≠ key) } }

/-- `s.leases[lease_id].keys.push_back(key)`, skipped for "no lease". -/
def bindLease (s : Server) (key : Bytes) (leaseId : LeaseId) : Server :=
  if leaseId = 0 then s
  else
    -- `operator[]` creates the record of a lease id that is not there
    let record := (s.leases[leaseId]?).getD {}
    { s with leases := s.leases.insert leaseId { record with keys := record.keys ++ [key] } }

/-- Logs and announces a put, then stores the entry under the new revision. -/
def storeKey (net : Net) (s : Server) (out : List Write) (key value : Bytes)
    (leaseId : LeaseId) : Server × List Write :=
  let r := mutateAndNotifyLocked net s out true key leaseId value
  ({ r.1 with kvs := r.1.kvs.insert key ⟨value, leaseId, r.1.revision⟩ }, r.2)

/-- Logs and announces the delete of a present key, then erases it. -/
def expireKey (net : Net) (leaseId : LeaseId) (r : Server × List Write) (key : Bytes) :
    Server × List Write :=
  match r.1.kvs[key]? with
  -- bound to the lease but no longer stored: nothing to announce
  | none => r
  | some entry =>
    let r := mutateAndNotifyLocked net r.1 r.2 false key leaseId entry.value
    ({ r.1 with kvs := r.1.kvs.erase key }, r.2)

/-- Deletes the keys of a lease and forgets it. -/
def expireLeaseLocked (net : Net) (s : Server) (out : List Write) (leaseId : LeaseId) :
    Server × List Write :=
  match s.leases[leaseId]? with
  | none => (s, out)
  | some record =>
    -- the keys go in the order in which they were bound
    let r := record.keys.foldl (expireKey net leaseId) (s, out)
    ({ r.1 with leases := r.1.leases.erase leaseId }, r.2)

/-! ## Requests -/

/-- New state, attempted writes and the reply to send. -/
structure Outcome where
  server : Server
  out    : List Write
  reply  : Reply

def reject (s : Server) (req : Nat) (error : Bytes) : Outcome :=
  ⟨s, [], { reply := req, ok := false, error := some error }⟩

def leaseUnknown (s : Server) (leaseId : LeaseId) : Bool :=
  leaseId ≠ 0 && !s.leases.contains leaseId

def createLease (now : Int) (s : Server) (req : Nat) (ttl : Int) : Outcome :=
  let id := s.nextLeaseId
  ⟨{ s with nextLeaseId := id + 1, leases := s.leases.insert id ⟨now + ttl, ttl, []⟩ }, [],
    { reply := req, leaseId := some id }⟩

def keepalive (now : Int) (s : Server) (req : Nat) (leaseId : LeaseId) : Outcome :=
  match s.leases[leaseId]? with
  | none => reject s req (str "lease expired or unknown")
  | some record =>
    ⟨{ s with leases := s.leases.insert leaseId { record with deadline := now + record.ttl } }, [],
      { reply := req, ttl := some record.ttl }⟩

def revoke (net : Net) (s : Server) (req : Nat) (leaseId : LeaseId) : Outcome :=
  let r := expireLeaseLocked net s [] leaseId
  ⟨r.1, r.2, { reply := req }⟩

def kvCreate (net : Net) (s : Server) (req : Nat) (key value : Bytes) (leaseId : LeaseId) :
    Outcome :=
  if s.kvs.contains key then reject s req (str "key already exists")
  else if leaseUnknown s leaseId then reject s req (str "lease expired or unknown")
  else
    let r := storeKey net (bindLease s key leaseId) [] key value leaseId
    ⟨r.1, r.2, { reply := req }⟩

def kvPut (net : Net) (s : Server) (req : Nat) (key value : Bytes) (leaseId : LeaseId) :
    Outcome :=
  if leaseUnknown s leaseId then reject s req (str "lease expired or unknown")
  else
    let bound :=
      match s.kvs[key]? with
      | some existing =>
        -- a put may move the key from one lease to another
        if existing.leaseId ≠ leaseId then
          bindLease (unbindLeaseLocked s key existing.leaseId) key leaseId
        else s
      | none => bindLease s key leaseId
    let r := storeKey net bound [] key value leaseId
    ⟨r.1, r.2, { reply := req }⟩

def kvCreateOrValidate (net : Net) (s : Server) (req : Nat) (key value : Bytes)
    (leaseId : LeaseId) : Outcome :=
  match s.kvs[key]? with
  | some existing =>
    if existing.value ≠ value then reject s req (str "existing value differs")
    else ⟨s, [], { reply := req }⟩
  | none =>
    if leaseUnknown s leaseId then reject s req (str "lease expired or unknown")
    else
      let r := storeKey net (bindLease s key leaseId) [] key value leaseId
      ⟨r.1, r.2, { reply := req }⟩

/-- The entries under a prefix, in key order: `lower_bound` and then the
    iteration that stops at the first key without the prefix. -/
def prefixEntries (s : Server) (pre : Bytes) : List KeyValue :=
  (s.kvs.scanFrom pre fun k => decide (pre <+: k)).map fun kv =>
    ⟨kv.1, kv.2.value, kv.2.leaseId, kv.2.modRevision⟩

def getPrefix (s : Server) (req : Nat) (pre : Bytes) : Outcome :=
  ⟨s, [], { reply := req, kvs := some (prefixEntries s pre), revision := some s.revision }⟩

/-- The watch frame of a logged event. -/
def LoggedEvent.frame (watchId : Nat) (e : LoggedEvent) : Frame :=
  .watch watchId (kindOf e.isPut) ⟨e.key, e.value, e.leaseId, e.rev⟩

/-- The answer to a watch request: the logged events after `fromRev`, or a full
    snapshot, each closed by its sync marker. -/
def watchFrames (s : Server) (pre : Bytes) (watchId : Nat) (fromRev : Int) : List Frame :=
  if fromRev ≥ 0 ∧ canReplayFrom s fromRev then
    (s.eventLog.filter fun e => fromRev < e.rev ∧ pre <+: e.key).map (·.frame watchId) ++
      [.sync watchId .replay s.revision]
  else
    (prefixEntries s pre).map (.watch watchId .put) ++ [.sync watchId .snapshot s.revision]

/-- Streams the current state, then (re-)registers the watcher. -/
def watch (net : Net) (s : Server) (c : ConnId) (req : Nat) (pre : Bytes) (watchId : Nat)
    (fromRev : Int) : Outcome :=
  let out := writeAll net [] c (watchFrames s pre watchId fromRev)
  -- a client that resubscribes on one connection replaces its own entry
  let others := s.watchers.filter fun w => ¬ (w.id = watchId ∧ w.conn = c)
  ⟨{ s with watchers := others ++ [⟨watchId, pre, c⟩] }, out, { reply := req }⟩

/-- Removes the watchers with this id, on whichever connection. -/
def unwatch (s : Server) (req : Nat) (watchId : Nat) : Outcome :=
  ⟨{ s with watchers := s.watchers.filter fun w => w.id ≠ watchId }, [], { reply := req }⟩

def subscribe (s : Server) (c : ConnId) (req : Nat) (subId : Nat) (subject : Bytes) : Outcome :=
  let others := s.subscribers.filter fun e => ¬ (e.id = subId ∧ e.conn = c)
  ⟨{ s with subscribers := others ++ [⟨subId, subject, c⟩] }, [], { reply := req }⟩

def unsubscribe (s : Server) (c : ConnId) (req : Nat) (subId : Nat) : Outcome :=
  ⟨{ s with subscribers := s.subscribers.filter fun e => ¬ (e.id = subId ∧ e.conn = c) }, [],
    { reply := req }⟩

/-- The fan-out of a published event to the subscribers of its subject. -/
def publishLoop (net : Net) (subject data : Bytes) (es : List Subscriber)
    (out : List Write) : List Subscriber × List Write :=
  fanout net (fun e => decide (e.subject = subject)) (·.conn)
    (fun e => .event e.id subject data) es out

def publish (net : Net) (s : Server) (req : Nat) (subject data : Bytes) : Outcome :=
  let r := publishLoop net subject data s.subscribers []
  ⟨{ s with subscribers := r.1 }, r.2, { reply := req }⟩

/-- Where the attempts of one `queue_dispatch` stand: delivered or not, the
    cursor, the positions erased so far and the writes. -/
structure DispatchState where
  delivered : Bool
  cursor    : Nat
  erased    : List Nat
  out       : List Write

/-- Up to `n` attempts over the matching subscribers, each given with its
    position in the list, starting at the cursor. -/
def dispatchLoop (net : Net) (subject data : Bytes) (matching : List (Subscriber × Nat)) :
    Nat → DispatchState → DispatchState
  | 0, d => d
  | n + 1, d =>
    match matching[d.cursor % matching.length]? with
    | none => d
    | some (e, i) =>
      let out := write net d.out e.conn (.event e.id subject data)
      -- the cursor moves on whether or not the write succeeds
      if net d.out.length then { d with delivered := true, cursor := d.cursor + 1, out := out }
      else
        dispatchLoop net subject data matching n
          { d with cursor := d.cursor + 1, erased := i :: d.erased, out := out }

def queueDispatch (net : Net) (s : Server) (req : Nat) (subject data : Bytes) : Outcome :=
  let matching := s.subscribers.zipIdx.filter fun e => e.1.subject = subject
  let cursor := (s.queueCursor[subject]?).getD 0
  let d := dispatchLoop net subject data matching matching.length ⟨false, cursor, [], []⟩
  let server :=
    { s with
      subscribers := (s.subscribers.zipIdx.filter fun e => e.2 ∉ d.erased).map (·.1)
      queueCursor := s.queueCursor.insert subject d.cursor }
  if d.delivered then ⟨server, d.out, { reply := req }⟩
  else
    ⟨server, d.out,
      { reply := req, ok := false,
        error := some (str "no responders for queue subject " ++ subject) }⟩

/-- The operation named by the request. -/
def handleOp (net : Net) (now : Int) (s : Server) (c : ConnId) (req : Nat) : Request → Outcome
  | .createLease ttl => createLease now s req ttl
  | .keepalive leaseId => keepalive now s req leaseId
  | .revoke leaseId => revoke net s req leaseId
  | .kvCreate key value leaseId => kvCreate net s req key value leaseId
  | .kvPut key value leaseId => kvPut net s req key value leaseId
  | .kvCreateOrValidate key value leaseId => kvCreateOrValidate net s req key value leaseId
  | .getPrefix pre => getPrefix s req pre
  | .watch pre watchId fromRev => watch net s c req pre watchId fromRev
  | .unwatch watchId => unwatch s req watchId
  | .subscribe subId subject => subscribe s c req subId subject
  | .unsubscribe subId => unsubscribe s c req subId
  | .publish subject data => publish net s req subject data
  | .queueDispatch subject data => queueDispatch net s req subject data
  | .unknown op => reject s req (str "unknown op: " ++ op)

/-- `handle_request`: the operation, then the reply on the same connection. -/
def handleRequest (net : Net) (now : Int) (s : Server) (c : ConnId) (req : Nat) (r : Request) :
    Server × List Write :=
  let o := handleOp net now s c req r
  (o.server, write net o.out c (.reply o.reply))

/-! ## Connections -/

/-- The accept loop registers a new connection. -/
def acceptConn (s : Server) : Server :=
  { s with conns := s.conns.insert s.nextConnId, nextConnId := s.nextConnId + 1 }

/-- End of `serve_discovery_connection`: the watchers and subscribers of the
    connection are dropped, its leases are not. -/
def closeConn (s : Server) (c : ConnId) : Server :=
  { s with
    watchers := s.watchers.filter fun w => w.conn ≠ c
    subscribers := s.subscribers.filter fun e => e.conn ≠ c
    conns := s.conns.erase c }

/-! ## What the write loops do -/

theorem writeAll_eq (net : Net) (c : ConnId) : ∀ (fs : List Frame) (out : List Write),
    ∃ new, writeAll net out c fs = out ++ new ∧ new.map (·.frame) = fs ∧ ∀ x ∈ new, x.conn = c
  | [], out => ⟨[], by simp [writeAll], rfl, by simp⟩
  | f :: fs, out => by
    -- induction on the frames; the outcome of a write depends on how many came before
    obtain ⟨new, heq, hframes, hconn⟩ := writeAll_eq net c fs (write net out c f)
    refine ⟨⟨c, f, net out.length⟩ :: new, ?_, ?_, ?_⟩
    · show writeAll net (write net out c f) c fs = _
      rw [heq, write, List.append_assoc]
      rfl
    · simp [hframes]
    · intro x hx
      rcases List.mem_cons.mp hx with rfl | hx
      · rfl
      · exact hconn x hx

end DynamoCpp.Discovery
