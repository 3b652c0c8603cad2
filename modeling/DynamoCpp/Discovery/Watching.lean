import DynamoCpp.Discovery.Client
import DynamoCpp.Discovery.Process

/-! # A client watching a discoveryd process

    One server and one watch record of one client, over connections that are
    lost and replaced.  The server's writes to the client's connection arrive
    in order; when the connection is lost, what the client has not read is
    lost with it.  A write that the server sees fail is a loss too: whatever
    was written before it can be read in earlier steps.

    Other clients work on leases and keys, from any connection, and watch what
    they like on connections of their own.  A request of a lost connection
    that the server had not read yet counts as one of these.
-/

namespace DynamoCpp.Discovery

open Framework

/-- The client's current connection. -/
structure Link where
  conn    : ConnId
  /-- `from_rev` of the watch request, until the server handles it. -/
  request : Option Int
  /-- Frames written on the connection that the client has not read. -/
  inbox   : List Frame

structure World where
  server : Server
  record : WatchRecord
  /-- Every event sent to the sink so far. -/
  sink   : List WatchEvent
  link   : Option Link

/-- One step of the server, the client or the network. -/
inductive Move where
  | request (net : Net) (now : Int) (c : ConnId) (req : Nat) (r : Request)
  | expire (net : Net) (now : Int) (leaseId : LeaseId)
  | accept
  | close (c : ConnId)
  | reconnect
  | serve (net : Net) (now : Int) (req : Nat)
  | deliver
  | drop

/-- The frames written on connection `c`, in order. -/
def framesTo (c : ConnId) (out : List Write) : List Frame :=
  (out.filter fun x => x.conn = c).map (·.frame)

/-- The connection survives writes that all succeed, and then holds their frames. -/
def Link.receive (lk : Link) (out : List Write) : Option Link :=
  if ∀ x ∈ out, x.conn = lk.conn → x.ok = true then
    some { lk with inbox := lk.inbox ++ framesTo lk.conn out }
  else none

def Request.isWatch : Request → Bool
  | .watch .. => true
  | _ => false

/-- `c` is not the client's current connection. -/
def World.offLink (w : World) (c : ConnId) : Bool := w.link.all fun lk => lk.conn ≠ c

/-- The world after the server moved to `r.1` and attempted the writes `r.2`. -/
def World.serverStep (w : World) (r : Server × List Write) : World :=
  { w with server := r.1, link := w.link.bind fun lk => lk.receive r.2 }

/-- The client reads a frame: a frame of another watch, a reply or an event is
    not for this record. -/
def World.read (watchId : Nat) (w : World) (lk : Link) (f : Frame) (rest : List Frame) : World :=
  if f.watchId? = some watchId then
    let r := routeWatchFrame w.record f
    { w with
      record := r.1, sink := w.sink ++ r.2
      link := some { lk with inbox := rest } }
  else { w with link := some { lk with inbox := rest } }

def Move.exec (watchId : Nat) (w : World) : Move → Option World
  | .request net now c req r =>
    -- of the other clients, only what they do to keys, leases and watchers matters
    if c ∈ w.server.conns ∧ (r.isStoreOp = true ∨ (r.isWatch = true ∧ w.offLink c = true)) then
      some (w.serverStep (handleRequest net now w.server c req r))
    else none
  | .expire net now leaseId =>
    if leaseExpired w.server now leaseId then
      some (w.serverStep (expireLeaseLocked net w.server [] leaseId))
    else none
  | .accept => some { w with server := acceptConn w.server }
  | .close c =>
    -- the server ends a connection, the client's own included
    some { w with
      server := closeConn w.server c
      link := w.link.filter fun lk => lk.conn ≠ c }
  | .reconnect =>
    match w.link with
    -- one connection at a time
    | some _ => none
    | none =>
      some { w with
        server := acceptConn w.server
        record := w.record.resubscribe
        link := some ⟨w.server.nextConnId, some w.record.fromRev, []⟩ }
  | .serve net now req =>
    match w.link with
    | none => none
    | some lk =>
      match lk.request with
      | none => none
      | some fromRev =>
        let r := handleRequest net now w.server lk.conn req (.watch w.record.pre watchId fromRev)
        some ({ w with link := some { lk with request := none } }.serverStep r)
  | .deliver =>
    match w.link with
    | none => none
    | some lk =>
      match lk.inbox with
      | [] => none
      | f :: rest => some (w.read watchId lk f rest)
  | .drop =>
    match w.link with
    | none => none
    | some _ => some { w with link := none }

/-- A fresh server, and a record for `pre` that was never connected.  Its first
    connection sends what `kv_get_and_watch_prefix` sends. -/
def watching (pre : Bytes) (watchId : Nat) : System World Move where
  init := ⟨{}, .fresh pre, [], none⟩
  exec := Move.exec watchId

/-- What the moves do, with their guards. -/
inductive Moved (watchId : Nat) (w : World) : Move → World → Prop where
  | request {net : Net} {now : Int} {c : ConnId} {req : Nat} {r : Request} :
    c ∈ w.server.conns → r.isStoreOp = true ∨ (r.isWatch = true ∧ w.offLink c = true) →
    Moved watchId w (.request net now c req r)
      (w.serverStep (handleRequest net now w.server c req r))
  | expire {net : Net} {now : Int} {leaseId : LeaseId} :
    leaseExpired w.server now leaseId = true →
    Moved watchId w (.expire net now leaseId)
      (w.serverStep (expireLeaseLocked net w.server [] leaseId))
  | accept : Moved watchId w .accept { w with server := acceptConn w.server }
  | close {c : ConnId} :
    Moved watchId w (.close c)
      { w with
        server := closeConn w.server c
        link := w.link.filter fun lk => lk.conn ≠ c }
  | reconnect : w.link = none →
    Moved watchId w .reconnect
      { w with
        server := acceptConn w.server
        record := w.record.resubscribe
        link := some ⟨w.server.nextConnId, some w.record.fromRev, []⟩ }
  | serve {net : Net} {now : Int} {req : Nat} {lk : Link} {fromRev : Int} :
    w.link = some lk → lk.request = some fromRev →
    Moved watchId w (.serve net now req)
      ({ w with link := some { lk with request := none } }.serverStep
        (handleRequest net now w.server lk.conn req (.watch w.record.pre watchId fromRev)))
  | deliver {lk : Link} {f : Frame} {rest : List Frame} :
    w.link = some lk → lk.inbox = f :: rest →
    Moved watchId w .deliver (w.read watchId lk f rest)
  | drop {lk : Link} : w.link = some lk → Moved watchId w .drop { w with link := none }

theorem moved_of_exec {watchId : Nat} {w w' : World} {l : Move}
    (hexec : Move.exec watchId w l = some w') : Moved watchId w l w' := by
  cases l with
  | request net now c req r =>
    obtain ⟨⟨hc, hr⟩, rfl⟩ := enabled hexec
    exact .request hc hr
  | expire net now leaseId =>
    obtain ⟨hexpired, rfl⟩ := enabled hexec
    exact .expire hexpired
  | accept =>
    cases hexec
    exact .accept
  | close c =>
    cases hexec
    exact .close
  | reconnect =>
    cases hlink : w.link with
    | some lk => simp [Move.exec, hlink] at hexec
    | none =>
      simp only [Move.exec, hlink, Option.some.injEq] at hexec
      subst hexec
      exact .reconnect hlink
  | serve net now req =>
    cases hlink : w.link with
    | none => simp [Move.exec, hlink] at hexec
    | some lk =>
      cases hreq : lk.request with
      | none => simp [Move.exec, hlink, hreq] at hexec
      | some fromRev =>
        simp only [Move.exec, hlink, hreq, Option.some.injEq] at hexec
        subst hexec
        exact .serve hlink hreq
  | deliver =>
    cases hlink : w.link with
    | none => simp [Move.exec, hlink] at hexec
    | some lk =>
      cases hinbox : lk.inbox with
      | nil => simp [Move.exec, hlink, hinbox] at hexec
      | cons f rest =>
        simp only [Move.exec, hlink, hinbox, Option.some.injEq] at hexec
        subst hexec
        exact .deliver hlink hinbox
  | drop =>
    cases hlink : w.link with
    | none => simp [Move.exec, hlink] at hexec
    | some lk =>
      simp only [Move.exec, hlink, Option.some.injEq] at hexec
      subst hexec
      exact .drop hlink

/-- The connection is up, every frame written on it was processed and the
    record is not resyncing. -/
def World.Settled (w : World) : Prop :=
  (w.link.any fun lk => lk.inbox.isEmpty) = true ∧ w.record.syncing = false

instance (w : World) : Decidable w.Settled :=
  inferInstanceAs (Decidable (_ ∧ _))

/-- The mode of a sync marker. -/
def Frame.syncMode? : Frame → Option SyncMode
  | .sync _ mode _ => some mode
  | _ => none

/-- The frames of `fs` addressed to watch `watchId`. -/
def watchPart (watchId : Nat) (fs : List Frame) : List Frame :=
  fs.filter fun f => f.watchId? = some watchId

/-- Part of a snapshot was processed, its marker was not. -/
def World.midSnapshot (watchId : Nat) (w : World) : Bool :=
  match w.link with
  | none => false
  | some lk =>
    w.record.syncing && !w.record.syncKeys.isEmpty &&
      ((watchPart watchId lk.inbox).findSome? Frame.syncMode? == some .snapshot)

/-- The step does not lose the connection in the middle of a snapshot. -/
def noMidSnapshotLoss (watchId : Nat) (w : World) (l : Move) : Prop :=
  w.midSnapshot watchId = true → ∀ w', Move.exec watchId w l = some w' → w'.link.isSome = true

instance (watchId : Nat) (w : World) (l : Move) : Decidable (noMidSnapshotLoss watchId w l) :=
  inferInstanceAs (Decidable (_ → ∀ w', Move.exec watchId w l = some w' → _))

end DynamoCpp.Discovery
