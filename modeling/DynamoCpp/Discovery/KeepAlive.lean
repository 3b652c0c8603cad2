import DynamoCpp.Discovery.Leases
import DynamoCpp.Framework.Incarnation

/-! # Keep-alive loops and restarts

    For every lease that it is granted, `TcpDiscovery::make_lease` runs a
    `keep_alive_loop`: a heartbeat after half the TTL, retries until the deadline, a
    revocation when the token is cancelled.  The requests carry the lease id and
    nothing else.

    The loops run against one address, behind which discoveryd may be restarted at any
    time; a new process starts with an empty store and counts lease ids from 1 again.
    Grants are numbered over all processes to say whose lease a request reaches.
-/

namespace DynamoCpp.Discovery

open Framework

/-! ## keep_alive_loop -/

/-- The two requests of a loop. -/
inductive LoopRequest where
  | keepalive
  | revoke
  deriving DecidableEq

def LoopRequest.request (leaseId : LeaseId) : LoopRequest → Request
  | .keepalive => .keepalive leaseId
  | .revoke => .revoke leaseId

/-- Where a loop is suspended. -/
inductive LoopPhase where
  /-- Not started: the reply to `create_lease` is on its way. -/
  | granted
  /-- In `wait_for`, whose timer fires at `wakeAt`. -/
  | waiting (wakeAt : Int)
  /-- The request is on a connection to this incarnation of discoveryd. -/
  | requested (r : LoopRequest) (incarnation : Nat)
  /-- The request was handled and its reply is on its way. -/
  | replied (r : LoopRequest) (ok : Bool)
  | ended
  deriving DecidableEq

/-- A `keep_alive_loop`.  The client knows the name of its grant, the lease id; the
    number of the grant and the process that made it are there to speak about it. -/
structure KeepAliveLoop where
  grant     : Grant LeaseId
  ttl       : Int
  /-- On the clock of the client, in milliseconds. -/
  deadline  : Int := 0
  /-- The state of the token. -/
  cancelled : Bool := false
  phase     : LoopPhase := .granted
  deriving DecidableEq

namespace KeepAliveLoop

def leaseId (loop : KeepAliveLoop) : LeaseId := loop.grant.name

def ttlMs (loop : KeepAliveLoop) : Int := loop.ttl * 1000

-- durations are divided like integers, towards zero
def healthyInterval (loop : KeepAliveLoop) : Int := loop.ttlMs.tdiv 2

def retryInterval (loop : KeepAliveLoop) : Int := min (loop.ttlMs.tdiv 4) 500

/-- The window starts anew and the loop waits for the next heartbeat. -/
def heartbeat (now : Int) (loop : KeepAliveLoop) : KeepAliveLoop :=
  { loop with
    deadline := now + loop.ttlMs
    phase := .waiting (now + loop.healthyInterval) }

/-- The lease is lost: the token is cancelled and the loop left. -/
def giveUp (loop : KeepAliveLoop) : KeepAliveLoop :=
  { loop with cancelled := true, phase := .ended }

/-- The reply to `create_lease` arrives and `make_lease` spawns the loop. -/
def start (now : Int) (loop : KeepAliveLoop) : Option KeepAliveLoop :=
  match loop.phase with
  | .granted => some (loop.heartbeat now)
  | _ => none

/-- Someone cancels the token. -/
def cancel (loop : KeepAliveLoop) : Option KeepAliveLoop :=
  some { loop with cancelled := true }

/-- `wait_for` returns: at once if the token is cancelled, else when the timer fires. -/
def wake (incarnation : Nat) (now : Int) (loop : KeepAliveLoop) : Option KeepAliveLoop :=
  match loop.phase with
  | .waiting wakeAt =>
    if loop.cancelled then some { loop with phase := .requested .revoke incarnation }
    else if wakeAt ≤ now then some { loop with phase := .requested .keepalive incarnation }
    else none
  | _ => none

/-- The reply arrives. -/
def reply (now : Int) (loop : KeepAliveLoop) : Option KeepAliveLoop :=
  match loop.phase with
  | .replied .keepalive ok => some (if ok then loop.heartbeat now else loop.giveUp)
  | .replied .revoke _ => some { loop with phase := .ended }
  | _ => none

/-- A failed heartbeat is retried until the deadline. -/
def retry (now : Int) (loop : KeepAliveLoop) : KeepAliveLoop :=
  if loop.deadline ≤ now then loop.giveUp
  else { loop with phase := .waiting (now + loop.retryInterval) }

/-- `request` throws: there was no connection, or it was lost before the reply. -/
def fail (now : Int) (loop : KeepAliveLoop) : Option KeepAliveLoop :=
  match loop.phase with
  -- `make_lease` throws, and nobody holds the lease that was granted
  | .granted => some { loop with phase := .ended }
  | .requested .keepalive _ => some (loop.retry now)
  | .replied .keepalive _ => some (loop.retry now)
  -- the TTL of the server will reap the lease
  | .requested .revoke _ => some { loop with phase := .ended }
  | .replied .revoke _ => some { loop with phase := .ended }
  | _ => none

/-! ### The grant of a loop is never changed -/

variable {loop loop' : KeepAliveLoop}

theorem start_grant (now : Int) (h : loop.start now = some loop') : loop'.grant = loop.grant := by
  unfold start at h
  split at h <;> cases h
  rfl

theorem cancel_grant (h : loop.cancel = some loop') : loop'.grant = loop.grant := by
  cases h
  rfl

theorem wake_grant (incarnation : Nat) (now : Int) (h : loop.wake incarnation now = some loop') :
    loop'.grant = loop.grant := by
  unfold wake at h
  split at h
  · split at h
    · cases h
      rfl
    · split at h <;> cases h
      rfl
  · cases h

theorem reply_grant (now : Int) (h : loop.reply now = some loop') : loop'.grant = loop.grant := by
  unfold reply at h
  split at h
  · next ok _ =>
    cases ok <;> cases h <;> rfl
  · cases h
    rfl
  · cases h

theorem retry_grant (now : Int) (loop : KeepAliveLoop) : (loop.retry now).grant = loop.grant := by
  unfold retry
  split <;> rfl

theorem fail_grant (now : Int) (h : loop.fail now = some loop') : loop'.grant = loop.grant := by
  unfold fail at h
  split at h <;> cases h
  · rfl
  · exact loop.retry_grant now
  · exact loop.retry_grant now
  · rfl
  · rfl

end KeepAliveLoop

/-! ## Loops, clients and restarts -/

structure Cluster where
  server      : Server := {}
  /-- How often discoveryd was restarted. -/
  incarnation : Nat := 0
  /-- How many leases were granted, by any process. -/
  grants      : Nat := 0
  /-- The number of the grant behind each lease id of the running process. -/
  grantedBy   : OrdMap LeaseId Nat := ∅
  loops       : List KeepAliveLoop := []

/-- The loop number `i` moves. -/
def Cluster.move (w : Cluster) (i : Nat) (f : KeepAliveLoop → Option KeepAliveLoop) :
    Option Cluster :=
  ((w.loops[i]?).bind f).map fun loop => { w with loops := w.loops.set i loop }

/-- The lease id that a step of the process grants, with its TTL. -/
def grantedLease (s : Server) : Step → Option (LeaseId × Int)
  | .request _ now _ req (.createLease ttl) =>
    (createLease now s req ttl).reply.leaseId.map fun id => (id, ttl)
  | _ => none

/-- A step of the process.  A grant is the beginning of a loop. -/
def Cluster.process (w : Cluster) (l : Step) : Option Cluster :=
  (Step.exec w.server l).map fun server =>
    match grantedLease w.server l with
    | none => { w with server := server }
    | some (id, ttl) =>
      { w with
        server := server
        grants := w.grants + 1
        grantedBy := w.grantedBy.insert id w.grants
        loops := w.loops ++ [{ grant := ⟨w.incarnation, id, w.grants⟩, ttl := ttl }] }

/-- The process handles the request of a loop.  A connection ends with the process it
    leads to, so the request reaches no later one. -/
def Cluster.serve (w : Cluster) (i : Nat) (net : Net) (now : Int) (c : ConnId) (req : Nat) :
    Option Cluster :=
  match w.loops[i]? with
  | none => none
  | some loop =>
    match loop.phase with
    | .requested r incarnation =>
      if incarnation = w.incarnation ∧ c ∈ w.server.conns then
        let o := handleOp net now w.server c req (r.request loop.leaseId)
        some { w with
          server := o.server
          loops := w.loops.set i { loop with phase := .replied r o.reply.ok } }
      else none
    | _ => none

inductive ClusterStep where
  | process (l : Step)
  | restart
  | start (i : Nat) (now : Int)
  | cancel (i : Nat)
  | wake (i : Nat) (now : Int)
  | serve (i : Nat) (net : Net) (now : Int) (c : ConnId) (req : Nat)
  | reply (i : Nat) (now : Int)
  | fail (i : Nat) (now : Int)

def ClusterStep.exec (w : Cluster) : ClusterStep → Option Cluster
  | .process l => w.process l
  -- loops and replies that are on their way outlive the process
  | .restart => some { w with server := {}, incarnation := w.incarnation + 1, grantedBy := ∅ }
  | .start i now => w.move i (·.start now)
  | .cancel i => w.move i (·.cancel)
  | .wake i now => w.move i (·.wake w.incarnation now)
  | .serve i net now c req => w.serve i net now c req
  | .reply i now => w.move i (·.reply now)
  | .fail i now => w.move i (·.fail now)

/-- Clients with their loops at one address of a discoveryd that may be restarted. -/
def keepAlive : System Cluster ClusterStep where
  init := {}
  exec := ClusterStep.exec

/-! ## No lease comes to life but by a grant -/

/-- The process has granted no lease, and may have lost some. -/
def NoGrant (s s' : Server) : Prop :=
  s'.nextLeaseId = s.nextLeaseId ∧
    ∀ l : LeaseId, (s'.leases[l]?).isSome → (s.leases[l]?).isSome

variable {s s' : Server} {w w' : Cluster} {i : Nat}

theorem SameLeaseIds.noGrant (h : SameLeaseIds s s') : NoGrant s s' :=
  ⟨h.1, fun l hl => (h.2 l).symm.trans hl⟩

theorem noGrant_of_leases (hnext : s'.nextLeaseId = s.nextLeaseId)
    (hleases : s'.leases = s.leases) : NoGrant s s' :=
  ⟨hnext, fun _ hl => hleases ▸ hl⟩

theorem noGrant_expireLeaseLocked (h : s.Bound) (net : Net) (leaseId : LeaseId) :
    NoGrant s (expireLeaseLocked net s [] leaseId).1 := by
  have hexp := expireLeaseLocked_expires h net [] leaseId
  refine ⟨hexp.next, fun l hl => ?_⟩
  rw [hexp.leases, OrdMap.get_erase] at hl
  split at hl
  · cases hl
  · exact hl

/-- Every request but `create_lease`. -/
theorem noGrant_handleOp (h : s.Bound) (net : Net) (now : Int) (c : ConnId)
    (req : Nat) (r : Request) (hr : ∀ ttl, r ≠ .createLease ttl) :
    NoGrant s (handleOp net now s c req r).server := by
  cases hstore : r.isStoreOp with
  | false =>
    obtain ⟨hleases, hnext⟩ := handleOp_leases net now s c req r hstore
    exact noGrant_of_leases hnext hleases
  | true =>
    match r with
    | .createLease ttl => exact absurd rfl (hr ttl)
    | .keepalive leaseId => exact (sameLeaseIds_keepalive now s req leaseId).noGrant
    | .revoke leaseId => exact noGrant_expireLeaseLocked h net leaseId
    | .kvCreate key value leaseId =>
      exact (writes_kvCreate net s req key value leaseId).sameLeaseIds.noGrant
    | .kvPut key value leaseId =>
      exact (writes_kvPut net s req key value leaseId).sameLeaseIds.noGrant
    | .kvCreateOrValidate key value leaseId =>
      exact (writes_kvCreateOrValidate net s req key value leaseId).sameLeaseIds.noGrant

/-- A step of the process grants the next lease id, or none. -/
theorem step_grants (h : s.Bound) {l : Step}
    (hexec : discoveryd.exec s l = some s') :
    (grantedLease s l = none ∧ NoGrant s s') ∨
      ∃ now req ttl, grantedLease s l = some (s.nextLeaseId, ttl) ∧
        s' = (createLease now s req ttl).server := by
  rcases step_cases hexec with ⟨rfl, rfl⟩ | ⟨net, now, c, req, r, rfl, -, rfl⟩ |
    ⟨c, rfl, -, rfl⟩ | ⟨net, now, leaseId, rfl, -, rfl⟩
  · exact .inl ⟨rfl, noGrant_of_leases rfl rfl⟩
  · by_cases hr : ∃ ttl, r = .createLease ttl
    · obtain ⟨ttl, rfl⟩ := hr
      exact .inr ⟨now, req, ttl, rfl, rfl⟩
    · refine .inl ⟨?_, noGrant_handleOp h net now c req r fun ttl heq => hr ⟨ttl, heq⟩⟩
      unfold grantedLease
      split
      · next heq =>
        cases heq
        exact absurd ⟨_, rfl⟩ hr
      · rfl
  · exact .inl ⟨rfl, noGrant_of_leases rfl rfl⟩
  · exact .inl ⟨rfl, noGrant_expireLeaseLocked h net leaseId⟩

/-! ## Whose lease a name stands for -/

/-- The numbers of the grants by their lease ids. -/
def Cluster.granted (w : Cluster) (l : LeaseId) : Option Nat := w.grantedBy[l]?

structure Cluster.Granted (w : Cluster) : Prop where
  bound  : w.server.Bound
  grants : Grants w.incarnation w.grants w.granted (w.loops.map (·.grant))
  /-- Every lease of the running process was granted by it. -/
  named  : ∀ l : LeaseId, (w.server.leases[l]?).isSome → (w.granted l).isSome
  /-- Lease ids are counted up. -/
  below  : ∀ l : LeaseId, (w.granted l).isSome → l < w.server.nextLeaseId

theorem granted_init : Cluster.Granted {} where
  bound := bound_init
  grants := Grants.empty
  named := by intro l h; cases h
  below := by intro l h; cases h

/-- A loop that keeps its grant. -/
theorem Cluster.Granted.setLoop (h : w.Granted)
    {loop loop' : KeepAliveLoop} (hloop : w.loops[i]? = some loop)
    (hgrant : loop'.grant = loop.grant) :
    Cluster.Granted { w with loops := w.loops.set i loop' } := by
  refine ⟨h.bound, h.grants.mono fun g hg => ?_, h.named, h.below⟩
  obtain ⟨other, hother, rfl⟩ := List.mem_map.mp hg
  rcases List.mem_or_eq_of_mem_set hother with hother | rfl
  · exact List.mem_map_of_mem hother
  · rw [hgrant]
    exact List.mem_map_of_mem (List.mem_of_getElem? hloop)

theorem Cluster.Granted.move (h : w.Granted)
    {f : KeepAliveLoop → Option KeepAliveLoop}
    (hf : ∀ loop loop', f loop = some loop' → loop'.grant = loop.grant)
    (hexec : w.move i f = some w') : w'.Granted := by
  obtain ⟨loop', hmove, rfl⟩ := Option.map_eq_some_iff.mp hexec
  obtain ⟨loop, hloop, hloop'⟩ := Option.bind_eq_some_iff.mp hmove
  exact h.setLoop hloop (hf loop loop' hloop')

/-- A step of the process that grants nothing. -/
theorem Cluster.Granted.noGrant (h : w.Granted) (hbound : s'.Bound)
    (hno : NoGrant w.server s') : Cluster.Granted { w with server := s' } where
  bound := hbound
  grants := h.grants
  named := fun l hl => h.named l (hno.2 l hl)
  below := fun l hl => hno.1.symm ▸ h.below l hl

/-- A grant takes a lease id that the process has not used. -/
theorem Cluster.Granted.grant (h : w.Granted) (now : Int) (req : Nat) (ttl : Int) :
    Cluster.Granted { w with
      server := (createLease now w.server req ttl).server
      grants := w.grants + 1
      grantedBy := w.grantedBy.insert w.server.nextLeaseId w.grants
      loops := w.loops ++
        [{ grant := ⟨w.incarnation, w.server.nextLeaseId, w.grants⟩, ttl := ttl }] } := by
  have hfree : w.granted w.server.nextLeaseId = none := by
    cases hl : w.granted w.server.nextLeaseId with
    | none => rfl
    | some n => exact absurd (h.below _ (by rw [hl]; rfl)) (Int.lt_irrefl _)
  have hgranted : (fun l => (w.grantedBy.insert w.server.nextLeaseId w.grants)[l]?) =
      Function.update w.granted w.server.nextLeaseId (some w.grants) :=
    OrdMap.lookup_insert id w.grantedBy w.server.nextLeaseId w.grants
  refine ⟨h.bound.createLease now req ttl, ?_, ?_, ?_⟩
  · have hgrants := h.grants.grant hfree
    rw [← hgranted] at hgrants
    rw [List.map_append]
    exact hgrants
  · intro l hl
    show (((fun l => (w.grantedBy.insert w.server.nextLeaseId w.grants)[l]?) l)).isSome
    rw [hgranted]
    change ((w.server.leases.insert w.server.nextLeaseId _)[l]?).isSome at hl
    by_cases hne : l = w.server.nextLeaseId
    · rw [hne, Function.update_self]
      rfl
    · rw [Function.update_of_ne hne]
      refine h.named l ?_
      rwa [OrdMap.get_insert, if_neg hne] at hl
  · intro l hl
    change (((fun l => (w.grantedBy.insert w.server.nextLeaseId w.grants)[l]?) l)).isSome at hl
    rw [hgranted] at hl
    show l < w.server.nextLeaseId + 1
    by_cases hne : l = w.server.nextLeaseId
    · exact hne ▸ Int.lt_succ _
    · rw [Function.update_of_ne hne] at hl
      exact Int.lt_add_one_of_le (Int.le_of_lt (h.below l hl))

theorem Cluster.Granted.process (h : w.Granted) {l : Step}
    (hexec : w.process l = some w') : w'.Granted := by
  obtain ⟨s', hs', rfl⟩ := Option.map_eq_some_iff.mp hexec
  rcases step_grants h.bound hs' with ⟨hnone, hno⟩ | ⟨now, req, ttl, hsome, rfl⟩
  · rw [hnone]
    exact h.noGrant (bound_step h.bound hs') hno
  · rw [hsome]
    exact h.grant now req ttl

/-- What handling the request of a loop requires and does. -/
theorem serve_eq {net : Net} {now : Int} {c : ConnId} {req : Nat}
    (hexec : w.serve i net now c req = some w') :
    ∃ loop r, w.loops[i]? = some loop ∧ loop.phase = .requested r w.incarnation ∧
      w' = { w with
        server := (handleOp net now w.server c req (r.request loop.leaseId)).server
        loops := w.loops.set i { loop with
          phase := .replied r
            (handleOp net now w.server c req (r.request loop.leaseId)).reply.ok } } := by
  unfold Cluster.serve at hexec
  split at hexec
  · cases hexec
  next loop hloop =>
  split at hexec
  · next r incarnation hphase =>
    obtain ⟨⟨rfl, -⟩, rfl⟩ := enabled hexec
    exact ⟨loop, r, hloop, hphase, rfl⟩
  · cases hexec

theorem LoopRequest.request_ne (r : LoopRequest) (leaseId : LeaseId) (ttl : Int) :
    r.request leaseId ≠ .createLease ttl := by
  cases r <;> exact Request.noConfusion

theorem Cluster.Granted.serve {w w' : Cluster} (h : w.Granted) {i : Nat} {net : Net} {now : Int}
    {c : ConnId} {req : Nat} (hexec : w.serve i net now c req = some w') : w'.Granted := by
  obtain ⟨loop, r, hloop, -, rfl⟩ := serve_eq hexec
  have hserver := h.noGrant (h.bound.handleOp net now c req (r.request loop.leaseId))
    (noGrant_handleOp h.bound net now c req _ (r.request_ne loop.leaseId))
  -- the loop itself is only told the outcome
  exact hserver.setLoop hloop rfl

theorem granted_step {l : ClusterStep} (h : w.Granted)
    (hexec : keepAlive.exec w l = some w') : w'.Granted := by
  change ClusterStep.exec w l = some w' at hexec
  match l with
  | .process l => exact h.process hexec
  | .restart =>
    obtain rfl := Option.some.inj hexec
    refine ⟨bound_init, h.grants.restart, ?_, ?_⟩
    · intro l hl
      cases hl
    · intro l hl
      cases hl
  | .serve i net now c req => exact h.serve hexec
  | .start i now => exact h.move (fun _ _ => KeepAliveLoop.start_grant now) hexec
  | .cancel i => exact h.move (fun _ _ => KeepAliveLoop.cancel_grant) hexec
  | .wake i now => exact h.move (fun _ _ => KeepAliveLoop.wake_grant _ now) hexec
  | .reply i now => exact h.move (fun _ _ => KeepAliveLoop.reply_grant now) hexec
  | .fail i now => exact h.move (fun _ _ => KeepAliveLoop.fail_grant now) hexec

theorem granted_of_reachable (hw : keepAlive.Reachable w) : w.Granted :=
  hw.invariant granted_init fun _ _ _ h hexec => granted_step h hexec

/-! ## What a request does to a lease -/

/-- The lease `l` and its keys are as they were. -/
structure LeaseUntouched (s s' : Server) (l : LeaseId) : Prop where
  record : s'.leases[l]? = s.leases[l]?
  keys   : ∀ k, s.owner k = some l → s'.kvs[k]? = s.kvs[k]?

section untouched

variable {s : Server} {leaseId : LeaseId}

theorem LeaseUntouched.refl (s : Server) (l : LeaseId) : LeaseUntouched s s l :=
  ⟨rfl, fun _ _ => rfl⟩

/-- A request has no effect on other leases than the one it names. -/
theorem leaseUntouched_of_ne (h : s.Bound) (net : Net) (now : Int) (c : ConnId) (req : Nat)
    (r : LoopRequest) {l : LeaseId} (hne : l ≠ leaseId) :
    LeaseUntouched s (handleOp net now s c req (r.request leaseId)).server l := by
  cases r with
  | keepalive =>
    show LeaseUntouched s (keepalive now s req leaseId).server l
    unfold keepalive
    split
    · exact .refl s l
    · refine ⟨?_, fun _ _ => rfl⟩
      rw [OrdMap.get_insert, if_neg hne]
  | revoke =>
    have hexp := expireLeaseLocked_expires h net [] leaseId
    constructor
    · show (expireLeaseLocked net s [] leaseId).1.leases[l]? = _
      rw [hexp.leases, OrdMap.get_erase, if_neg hne]
    · intro k hk
      have hother : s.owner k ≠ some leaseId := fun heq =>
        hne (Option.some.inj (hk.symm.trans heq))
      exact (hexp.kvs k).trans (if_neg hother)

/-- A request that names no lease of the process has no effect on any. -/
theorem leaseUntouched_of_absent (net : Net) (now : Int) (c : ConnId) (req : Nat) (r : LoopRequest)
    (habsent : s.leases[leaseId]? = none) (l : LeaseId) :
    LeaseUntouched s (handleOp net now s c req (r.request leaseId)).server l := by
  have hsame : (handleOp net now s c req (r.request leaseId)).server = s := by
    cases r with
    | keepalive =>
      show (keepalive now s req leaseId).server = s
      rw [keepalive, habsent]
      rfl
    | revoke =>
      show (expireLeaseLocked net s [] leaseId).1 = s
      rw [expireLeaseLocked, habsent]
  rw [hsame]
  exact .refl s l

/-- The lease that it names is left as it is only by a heartbeat, if the deadline that it
    sets is the old one. -/
theorem leaseUntouched_self_iff (h : s.Bound) (net : Net) (now : Int) (c : ConnId) (req : Nat)
    (r : LoopRequest) {record : LeaseRecord} (hrecord : s.leases[leaseId]? = some record) :
    LeaseUntouched s (handleOp net now s c req (r.request leaseId)).server leaseId ↔
      r = .keepalive ∧ record.deadline = now + record.ttl := by
  cases r with
  | keepalive =>
    have hserver : (handleOp net now s c req (.keepalive leaseId)).server = { s with
        leases := s.leases.insert leaseId { record with deadline := now + record.ttl } } := by
      show (keepalive now s req leaseId).server = _
      rw [keepalive, hrecord]
    show LeaseUntouched s (handleOp net now s c req (.keepalive leaseId)).server leaseId ↔ _
    rw [hserver]
    constructor
    · intro hun
      have heq := hun.record
      rw [Std.ExtTreeMap.getElem?_insert_self, hrecord] at heq
      exact ⟨rfl, (congrArg LeaseRecord.deadline (Option.some.inj heq)).symm⟩
    · rintro ⟨-, hdeadline⟩
      refine ⟨?_, fun _ _ => rfl⟩
      rw [Std.ExtTreeMap.getElem?_insert_self, hrecord, ← hdeadline]
  | revoke =>
    refine iff_of_false (fun hun => ?_) (fun heq => by cases heq.1)
    have hgone : (expireLeaseLocked net s [] leaseId).1.leases[leaseId]? = none := by
      rw [(expireLeaseLocked_expires h net [] leaseId).leases, Std.ExtTreeMap.getElem?_erase_self]
    have heq := hun.record
    change (expireLeaseLocked net s [] leaseId).1.leases[leaseId]? = _ at heq
    rw [hgone, hrecord] at heq
    cases heq

end untouched

/-- **A request of a loop touches no lease of another grant** exactly if discoveryd was
    not restarted since the loop was granted its lease, or knows no lease under that id,
    or the request is a heartbeat that sets the deadline that the lease has anyway. -/
theorem others_untouched_iff {w w' : Cluster} (hw : keepAlive.Reachable w) {i : Nat} {net : Net}
    {now : Int} {c : ConnId} {req : Nat} {loop : KeepAliveLoop} {r : LoopRequest}
    (hloop : w.loops[i]? = some loop) (hphase : loop.phase = .requested r w.incarnation)
    (hexec : keepAlive.exec w (.serve i net now c req) = some w') :
    (∀ l n, w.grantedBy[l]? = some n → n ≠ loop.grant.number →
        LeaseUntouched w.server w'.server l) ↔
      loop.grant.incarnation = w.incarnation ∨
        ∀ record : LeaseRecord, w.server.leases[loop.leaseId]? = some record →
          r = .keepalive ∧ record.deadline = now + record.ttl := by
  have h := granted_of_reachable hw
  have hheld : loop.grant ∈ w.loops.map (·.grant) :=
    List.mem_map_of_mem (List.mem_of_getElem? hloop)
  obtain ⟨loop', r', hloop', hphase', rfl⟩ := serve_eq hexec
  obtain rfl := Option.some.inj (hloop.symm.trans hloop')
  obtain ⟨rfl, -⟩ := LoopPhase.requested.inj (hphase.symm.trans hphase')
  constructor
  · intro hall
    by_cases hcurrent : loop.grant.incarnation = w.incarnation
    · exact .inl hcurrent
    · refine .inr fun record hrecord => ?_
      -- the lease under that id belongs to a grant of the running process
      have hnamed := h.named loop.leaseId (by rw [hrecord]; rfl)
      obtain ⟨n, hn⟩ := Option.isSome_iff_exists.mp hnamed
      have hother : n ≠ loop.grant.number := fun heq =>
        h.grants.foreign _ hheld hcurrent _ (heq ▸ hn)
      exact (leaseUntouched_self_iff h.bound net now c req r hrecord).mp (hall _ n hn hother)
  · intro hcond l n hn hother
    by_cases hl : l = loop.leaseId
    · rcases hcond with hcurrent | hharmless
      · exact absurd hl (h.grants.name_ne hheld hcurrent hn hother)
      · subst hl
        cases hrecord : w.server.leases[loop.leaseId]? with
        | none => exact leaseUntouched_of_absent net now c req r hrecord _
        | some record =>
          exact (leaseUntouched_self_iff h.bound net now c req r hrecord).mpr
            (hharmless record hrecord)
    · exact leaseUntouched_of_ne h.bound net now c req r hl

/-- Two leases of one process, and the first loop sends a heartbeat. -/
def twoLoops : List ClusterStep :=
  [.process .accept, .process (.request (fun _ => true) 0 0 1 (.createLease 10)),
    .process (.request (fun _ => true) 0 0 2 (.createLease 10)), .start 0 0, .wake 0 5000]

theorem twoLoops_runs : (keepAlive.run twoLoops).isSome = true := by decide

theorem twoLoops_untouched :
    let w := (keepAlive.run twoLoops).get twoLoops_runs
    ∃ w', keepAlive.exec w (.serve 0 (fun _ => true) 5 0 3) = some w' ∧
      LeaseUntouched w.server w'.server 2 := by
  intro w
  have hserved : (keepAlive.exec w (.serve 0 (fun _ => true) 5 0 3)).isSome = true := by decide
  have hloop : w.loops[0]? =
      some ⟨⟨0, 1, 0⟩, 10, 10000, false, .requested .keepalive w.incarnation⟩ := by decide
  refine ⟨_, (Option.some_get hserved).symm, ?_⟩
  have hiff := others_untouched_iff (System.Reachable.of_run_isSome twoLoops_runs) hloop rfl
    (Option.some_get hserved).symm
  exact hiff.mpr (.inl (by decide)) 2 1 (by decide) (by decide)

/-- A loop is granted lease 1.  discoveryd is restarted and grants lease 1 once more, to
    another request, which binds a key to it.  The first loop goes on with its heartbeat. -/
def reusedLease : List ClusterStep :=
  [.process .accept, .process (.request (fun _ => true) 0 0 1 (.createLease 10)), .start 0 0,
    .restart, .process .accept, .process (.request (fun _ => true) 3 0 1 (.createLease 10)),
    .process (.request (fun _ => true) 3 0 2 (.kvCreate (str "k") (str "v") 1)), .wake 0 5000]

/-- Lease 1 of the running process as another client sees it: its grant, its record and
    whether its key is there. -/
def Cluster.leaseOne (w : Cluster) : Option Nat × Option LeaseRecord × Bool :=
  (w.granted 1, w.server.leases[(1 : LeaseId)]?, w.server.kvs.contains (str "k"))

/-- The heartbeat of grant 0 moves the deadline of the lease of grant 1, and the
    revocation that follows when the token is cancelled deletes it with its key. -/
theorem reused_lease_touched :
    let heartbeat : List ClusterStep := [.serve 0 (fun _ => true) 5 0 3]
    let revocation : List ClusterStep :=
      [.reply 0 5000, .cancel 0, .wake 0 5000, .serve 0 (fun _ => true) 6 0 4]
    (keepAlive.run reusedLease).map (fun w => w.loops.map (·.grant.number)) = some [0, 1] ∧
      (keepAlive.run reusedLease).map (·.leaseOne) =
        some (some 1, some ⟨13, 10, [str "k"]⟩, true) ∧
      (keepAlive.run (reusedLease ++ heartbeat)).map (·.leaseOne) =
        some (some 1, some ⟨15, 10, [str "k"]⟩, true) ∧
      (keepAlive.run (reusedLease ++ heartbeat ++ revocation)).map (·.leaseOne) =
        some (some 1, none, false) := by
  decide

end DynamoCpp.Discovery
