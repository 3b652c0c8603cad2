import DynamoCpp.Basic
import DynamoCpp.Framework.System
import Mathlib.Algebra.BigOperators.Group.List.Basic
import Mathlib.Algebra.Ring.Nat

/-! # One dispatched request on the control plane

    `dispatch_request` writes a request frame on a pooled or a fresh
    connection, waits for the ack and retries once when a pooled connection
    fails it.  Each connection has a thread of the server behind it that reads
    frames, acks them and spawns the registered handler.

    The two ends of a connection see different things: a frame that was
    written may still be read after the client has given up on its ack, an ack
    may be late, and the connection may be cut with any of the frames in
    flight.  All of that is in the labels.

    * **Model**: the client's loop, the connection threads, the network.
    * **Owed invocations**: what the frames in flight can still cause.
    * **At most once**: every run in which no pooled connection is given up
      while an invocation is owed, and a run that invokes the handler twice.
-/

namespace DynamoCpp.Transports.ControlPlane

open Framework

/-! ## Frames and connections -/

/-- What stays fixed during a call. -/
structure Setup where
  address       : Bytes
  subject       : Bytes
  /-- Header and payload length of the request frame. -/
  frameBytes    : Nat := 0
  /-- `Socket::max_frame_bytes()` of the server. -/
  maxFrameBytes : Nat := 256 * 1024 * 1024
  /-- `ack_timeout` in milliseconds; 0 waits forever. -/
  ackTimeout    : Nat := 5000
  clientToken   : Option Bytes := none
  serverToken   : Option Bytes := none

/-- Frames from the client to the server. -/
inductive ClientFrame where
  | auth (token : Bytes)
  | request
  deriving DecidableEq

structure DispatchAck where
  ok    : Bool := false
  error : Bytes := []
  deriving DecidableEq

/-- What the subject of the request is registered as. -/
inductive Service where
  | handler
  | query
  | unknown
  deriving DecidableEq

/-- Where `serve_control_connection` stands. -/
inductive ServerPc where
  /-- In `auth::expect`. -/
  | expecting
  | serving
  /-- A handler was found and the ack written, the spawn is next. -/
  | acked
  | ended
  deriving DecidableEq

/-- A connection with the server thread behind it. -/
structure Connection where
  pooled       : Bool
  /-- Written by the client, not read by the server. -/
  requests     : List ClientFrame := []
  /-- Written by the server, not read by the client. -/
  acks         : List DispatchAck := []
  /-- Shut down or cut: what is written now does not arrive. -/
  lost         : Bool := false
  clientClosed : Bool := false
  server       : ServerPc := .serving

namespace Connection

/-- `write_frame` of the request, with all bytes accepted. -/
def write (c : Connection) : Connection :=
  if c.lost = true ∨ c.server = .ended then c
  else { c with requests := c.requests ++ [.request] }

/-- `send_ack`; its outcome is not looked at. -/
def sendAck (c : Connection) (ack : DispatchAck) : Connection :=
  if c.lost = true ∨ c.clientClosed = true then c else { c with acks := c.acks ++ [ack] }

/-- The client destroys its socket; what it wrote can still be read. -/
def close (c : Connection) : Connection := { c with clientClosed := true }

/-- The connection is cut with all but the first frames of each direction. -/
def lose (c : Connection) (keptRequests keptAcks : Nat) : Connection :=
  { c with
    lost := true, requests := c.requests.take keptRequests, acks := c.acks.take keptAcks }

/-- The server process dies. -/
def crash (c : Connection) : Connection := { c with lost := true, server := .ended }

/-- `auth::expect`.  A frame without a token presents the empty one. -/
def expect (setup : Setup) (c : Connection) : Connection :=
  let after (token : Bytes) (rest : List ClientFrame) : Connection :=
    { c with
      requests := rest
      server := if setup.serverToken = some token then .serving else .ended }
  match c.requests with
  | .auth token :: rest => after token rest
  | .request :: rest => after [] rest
  -- end of file, or the five seconds are over
  | [] => { c with server := .ended }

/-- The body of the serving loop after its frame was read; `queryOk` is false if
    a query handler throws. -/
def answer (setup : Setup) (service : Service) (queryOk : Bool) (c : Connection) : Connection :=
  match service with
  | .handler => { c.sendAck { ok := true } with server := .acked }
  | .query => if queryOk then c.sendAck { ok := true } else { c with server := .ended }
  | .unknown => c.sendAck { error := str "unknown subject: " ++ setup.subject }

/-- One turn of `serve_control_connection`. -/
def serve (setup : Setup) (service : Service) (queryOk : Bool) (c : Connection) :
    Option Connection :=
  match c.server with
  | .ended => none
  | .acked => none
  | .expecting => some (c.expect setup)
  | .serving =>
    match c.requests with
    | .request :: rest =>
      if setup.frameBytes ≤ setup.maxFrameBytes then
        some ({ c with requests := rest }.answer setup service queryOk)
      else some { c with requests := rest, server := .ended }
    -- the header has no subject
    | .auth _ :: rest => some { c with requests := rest, server := .ended }
    | [] =>
      if c.lost = true ∨ c.clientClosed = true then some { c with server := .ended } else none

end Connection

/-! ## The call -/

/-- Where `roundtrip` and `dispatch_request` stand. -/
inductive CallPc where
  | attempt (n : Nat)
  /-- About to write on the connection of attempt `n`. -/
  | connected (n : Nat)
  /-- Reading the ack of attempt `n`. -/
  | waiting (n : Nat)
  | returned
  | threw (error : Bytes)
  deriving DecidableEq

structure Dispatching where
  pc          : CallPc := .attempt 0
  /-- The connection of each attempt so far. -/
  conns       : List Connection := []
  service     : Service := .unknown
  /-- Handlers spawned on the server's runtime that have not run. -/
  spawned     : Nat := 0
  /-- Calls of `PushHandler::handle`. -/
  invocations : Nat := 0

/-- How a fresh connection came out. -/
inductive Connect where
  | malformed
  | unreachable
  | authFailed
  | ok

inductive Move where
  /-- The pool had a connection; a stale one was closed by the server. -/
  | acquire (stale : Bool)
  | connect (o : Connect)
  | write (ok : Bool)
  | readAck
  /-- The ack is late or lost; `what` is the text if `read_frame` threw. -/
  | readFail (what : Option Bytes)
  | serve (n : Nat) (queryOk : Bool)
  | spawn (n : Nat)
  | invoke
  | lose (n keptRequests keptAcks : Nat)
  | register (service : Service)
  | crash

namespace Dispatching

def setConn (σ : Dispatching) (n : Nat) (c : Connection) : Dispatching :=
  { σ with conns := σ.conns.set n c }

/-- A new connection for attempt `n`. -/
def addConn (σ : Dispatching) (n : Nat) (c : Connection) : Dispatching :=
  { σ with conns := σ.conns ++ [c], pc := .connected n }

/-- Attempt `n` failed on `c`: a pooled connection is given up for the next
    attempt, with a fresh one the call throws. -/
def fail (setup : Setup) (σ : Dispatching) (n : Nat) (c : Connection) (error : Bytes) :
    Dispatching :=
  { σ.setConn n c.close with
    pc :=
      if c.pooled then
        if n + 1 < 2 then .attempt (n + 1)
        else .threw (str "control plane: request to " ++ setup.address ++ str " failed")
      else .threw error }

/-- A fresh connection: connect, then authenticate. -/
def connect (setup : Setup) (σ : Dispatching) (n : Nat) : Connect → Dispatching
  | .malformed => { σ with pc := .threw (str "malformed address: " ++ setup.address) }
  | .unreachable =>
    { σ with
      pc := .threw (str "control plane: cannot reach instance at " ++ setup.address) }
  | .authFailed =>
    { σ with
      pc := .threw (str "control plane: failed to authenticate to " ++ setup.address) }
  | .ok =>
    σ.addConn n
      { pooled := false
        requests := setup.clientToken.toList.map .auth
        server := if setup.serverToken.isSome then .expecting else .serving }

/-- `dispatch_request` after `roundtrip` gave an ack. -/
def accept (σ : Dispatching) (n : Nat) (c : Connection) (ack : DispatchAck) : Dispatching :=
  if ack.ok then { σ.setConn n c with pc := .returned }
  else
    { σ.setConn n c.close with
      pc := .threw (str "control plane: dispatch rejected: " ++ ack.error) }

end Dispatching

def Move.exec (setup : Setup) (σ : Dispatching) : Move → Option Dispatching
  | .acquire stale =>
    if σ.pc = .attempt 0 then some (σ.addConn 0 { pooled := true, lost := stale }) else none
  | .connect o =>
    match σ.pc with
    | .attempt n => some (σ.connect setup n o)
    | _ => none
  | .write ok =>
    match σ.pc with
    | .connected n =>
      (σ.conns[n]?).map fun c =>
        if ok then { σ.setConn n c.write with pc := .waiting n }
        else
          σ.fail setup n c
            (str "control plane: failed to send request to " ++ setup.address)
    | _ => none
  | .readAck =>
    match σ.pc with
    | .waiting n =>
      (σ.conns[n]?).bind fun c =>
        match c.acks with
        | [] => none
        | ack :: rest => some (σ.accept n { c with acks := rest } ack)
    | _ => none
  | .readFail what =>
    match σ.pc with
    | .waiting n =>
      (σ.conns[n]?).bind fun c =>
        if setup.ackTimeout > 0 ∨ c.lost = true ∨ c.server = .ended then
          some (σ.fail setup n c (what.getD
            (str "control plane: no ack from " ++ setup.address ++
              str " (peer closed or timed out)")))
        else none
    | _ => none
  | .serve n queryOk =>
    (σ.conns[n]?).bind fun c => (c.serve setup σ.service queryOk).map (σ.setConn n)
  | .spawn n =>
    (σ.conns[n]?).bind fun c =>
      if c.server = .acked then
        some { σ.setConn n { c with server := .serving } with spawned := σ.spawned + 1 }
      else none
  | .invoke =>
    match σ.spawned with
    | 0 => none
    | k + 1 => some { σ with spawned := k, invocations := σ.invocations + 1 }
  | .lose n keptRequests keptAcks =>
    (σ.conns[n]?).map fun c => σ.setConn n (c.lose keptRequests keptAcks)
  | .register service => some { σ with service := service }
  | .crash =>
    some { σ with conns := σ.conns.map Connection.crash, spawned := 0, service := .unknown }

/-- One call of `dispatch_request` against a control plane server. -/
def dispatchRequest (setup : Setup) : System Dispatching Move where
  init := {}
  exec := Move.exec setup

/-! ## Owed invocations -/

/-- Invocations the frames and the server thread of a connection still cause,
    if nothing is lost and the handler stays registered. -/
def Connection.owed (c : Connection) : Nat :=
  match c.server with
  | .ended => 0
  | .acked => c.requests.count .request + 1
  | .expecting => c.requests.count .request
  | .serving => c.requests.count .request

/-- The invocations so far and those still to come from what was written. -/
def Dispatching.owed (σ : Dispatching) : Nat :=
  σ.invocations + σ.spawned + (σ.conns.map Connection.owed).sum

/-- Request frames the call will still write, if no pooled connection is given
    up after its write. -/
def CallPc.unsent : CallPc → Nat
  | .attempt _ => 1
  | .connected _ => 1
  | .waiting _ => 0
  | .returned => 0
  | .threw _ => 0

namespace Connection

variable {c : Connection}

theorem owed_write (c : Connection) : c.write.owed ≤ c.owed + 1 := by
  unfold write
  split
  · omega
  · cases h : c.server <;> simp [owed, h]

theorem owed_sendAck (c : Connection) (ack : DispatchAck) : (c.sendAck ack).owed = c.owed := by
  unfold sendAck
  split <;> rfl

theorem owed_close (c : Connection) : c.close.owed = c.owed := rfl

theorem owed_lose (c : Connection) (keptRequests keptAcks : Nat) :
    (c.lose keptRequests keptAcks).owed ≤ c.owed := by
  have hcount : (c.requests.take keptRequests).count .request ≤ c.requests.count .request :=
    (List.take_sublist _ _).count_le _
  cases h : c.server <;> simp only [owed, lose, h] <;> omega

theorem owed_crash (c : Connection) : c.crash.owed = 0 := rfl

/-- Authentication consumes frames and causes nothing. -/
theorem owed_expect (setup : Setup) (h : c.server = .expecting) :
    (c.expect setup).owed ≤ c.owed := by
  unfold expect
  split
  · next token rest hreq =>
    by_cases htoken : setup.serverToken = some token <;> simp [owed, h, hreq, htoken]
  · next rest hreq =>
    by_cases htoken : setup.serverToken = some [] <;> simp [owed, h, hreq, htoken]
  · simp [owed]

/-- A request frame that was read is owed by the thread instead. -/
theorem owed_answer (setup : Setup) (service : Service) (queryOk : Bool)
    (h : c.server = .serving) : (c.answer setup service queryOk).owed ≤ c.owed + 1 := by
  cases service with
  | handler =>
    have hsame := c.owed_sendAck { ok := true }
    simp only [answer, owed, sendAck, h] at hsame ⊢
    split <;> simp
  | query =>
    simp only [answer]
    split
    · rw [owed_sendAck]
      omega
    · simp [owed]
  | unknown =>
    simp only [answer, owed_sendAck]
    omega

theorem owed_serve {setup : Setup} {service : Service} {queryOk : Bool} {c' : Connection}
    (h : c.serve setup service queryOk = some c') : c'.owed ≤ c.owed := by
  unfold serve at h
  split at h
  · cases h
  · cases h
  · next hpc =>
    cases h
    exact owed_expect setup hpc
  · next hpc =>
    split at h
    · next rest hreq =>
      have hread : { c with requests := rest }.owed + 1 = c.owed := by simp [owed, hpc, hreq]
      split at h
      · cases h
        exact hread ▸ owed_answer setup service queryOk hpc
      · cases h
        simp [owed]
    · cases h
      simp [owed]
    · split at h
      · cases h
        simp [owed]
      · cases h

end Connection

namespace Dispatching

variable {σ : Dispatching}

/-- Replacing a connection changes what is owed by the difference. -/
theorem owed_setConn {n : Nat} {c : Connection} (hc : σ.conns[n]? = some c) (c' : Connection) :
    (σ.setConn n c').owed + c.owed = σ.owed + c'.owed := by
  have hsum : ∀ (cs : List Connection) (n : Nat), cs[n]? = some c →
      ((cs.set n c').map Connection.owed).sum + c.owed =
        (cs.map Connection.owed).sum + c'.owed := by
    intro cs
    induction cs with
    | nil =>
      intro n h
      cases h
    | cons d ds ih =>
      intro n h
      cases n with
      | zero =>
        cases h
        simp only [List.set_cons_zero, List.map_cons, List.sum_cons]
        omega
      | succ n =>
        have hrest := ih n h
        simp only [List.set_cons_succ, List.map_cons, List.sum_cons]
        omega
  have h := hsum σ.conns n hc
  simp only [owed, setConn]
  omega

theorem owed_addConn (n : Nat) (c : Connection) : (σ.addConn n c).owed = σ.owed + c.owed := by
  simp only [owed, addConn, List.map_append, List.sum_append, List.map_cons, List.map_nil,
    List.sum_cons, List.sum_nil]
  omega

end Dispatching

/-! ## At most once -/

/-- The call waits for the ack of a pooled connection. -/
def Dispatching.onPooled (σ : Dispatching) : Bool :=
  match σ.pc with
  | .waiting n => (σ.conns[n]?).any (·.pooled)
  | _ => false

/-- The step does not give up a pooled connection whose request was handled, or
    can still be. -/
def safeRetry (σ : Dispatching) : Move → Bool
  | .readFail _ => !σ.onPooled || σ.owed == 0
  | _ => true

/-- At most one invocation is caused or can still be. -/
def AtMostOne (σ : Dispatching) : Prop := σ.owed + σ.pc.unsent ≤ 1

section steps

variable {setup : Setup} {σ σ' : Dispatching} {n : Nat} {c : Connection}

/-- What is owed does not depend on where the call stands. -/
theorem AtMostOne.withPc {pc : CallPc} (h : σ.owed + pc.unsent ≤ 1) :
    AtMostOne { σ with pc := pc } := h

theorem AtMostOne.setConn (h : AtMostOne σ) (hc : σ.conns[n]? = some c) {c' : Connection}
    (hle : c'.owed ≤ c.owed) : AtMostOne (σ.setConn n c') := by
  have howed := Dispatching.owed_setConn hc c'
  have hpc : (σ.setConn n c').pc = σ.pc := rfl
  unfold AtMostOne at *
  rw [hpc]
  omega

/-- A failed attempt leaves one frame to write if the connection was pooled,
    none otherwise. -/
theorem AtMostOne.fail (hc : σ.conns[n]? = some c) (error : Bytes)
    (h : σ.owed + (if c.pooled then 1 else 0) ≤ 1) : AtMostOne (σ.fail setup n c error) := by
  have howed := Dispatching.owed_setConn hc c.close
  rw [Connection.owed_close] at howed
  apply withPc
  have hunsent : CallPc.unsent
      (if c.pooled then
        if n + 1 < 2 then .attempt (n + 1)
        else .threw (str "control plane: request to " ++ setup.address ++ str " failed")
      else .threw error) ≤ if c.pooled then 1 else 0 := by
    split
    · split <;> simp [CallPc.unsent]
    · simp [CallPc.unsent]
  omega

theorem AtMostOne.addConn (h : σ.owed = 0) (hc : c.owed = 0) : AtMostOne (σ.addConn n c) := by
  have howed := Dispatching.owed_addConn (σ := σ) n c
  show (σ.addConn n c).owed + 1 ≤ 1
  omega

/-- Before the write nothing is owed, and a fresh connection adds nothing. -/
theorem AtMostOne.connect (h : σ.owed = 0) (o : Connect) :
    AtMostOne (σ.connect setup n o) := by
  have hthrew : ∀ error, AtMostOne { σ with pc := .threw error } := fun error =>
    AtMostOne.withPc (by simp [CallPc.unsent, h])
  cases o with
  | malformed | unreachable | authFailed => exact hthrew _
  | ok =>
    refine addConn h ?_
    have hauth : (setup.clientToken.toList.map ClientFrame.auth).count .request = 0 := by
      cases setup.clientToken <;> rfl
    cases hserver : setup.serverToken <;> simpa [Connection.owed] using hauth

theorem AtMostOne.write (h : σ.owed = 0) (hc : σ.conns[n]? = some c) :
    AtMostOne { σ.setConn n c.write with pc := .waiting n } := by
  have howed := Dispatching.owed_setConn hc c.write
  have hwrite := c.owed_write
  apply withPc
  simp only [CallPc.unsent]
  omega

/-- Reading the ack ends the call without touching what is owed. -/
theorem AtMostOne.accept (h : σ.owed ≤ 1) (hc : σ.conns[n]? = some c) {rest : List DispatchAck}
    (ack : DispatchAck) : AtMostOne (σ.accept n { c with acks := rest } ack) := by
  have hread := Dispatching.owed_setConn hc { c with acks := rest }
  have hclosed := Dispatching.owed_setConn hc { c with acks := rest }.close
  have hsame : { c with acks := rest }.owed = c.owed := rfl
  rw [Connection.owed_close] at hclosed
  unfold Dispatching.accept
  split
  all_goals
    apply AtMostOne.withPc
    simp only [CallPc.unsent]
    omega

theorem AtMostOne.spawn (h : AtMostOne σ) (hc : σ.conns[n]? = some c) (hacked : c.server = .acked) :
    AtMostOne
      { σ.setConn n { c with server := .serving } with spawned := σ.spawned + 1 } := by
  have howed := Dispatching.owed_setConn hc { c with server := .serving }
  have hc' : { c with server := .serving }.owed + 1 = c.owed := by
    simp [Connection.owed, hacked]
  simp only [AtMostOne, Dispatching.owed, Dispatching.setConn] at h howed ⊢
  omega

theorem AtMostOne.invoke {k : Nat} (h : AtMostOne σ) (hk : σ.spawned = k + 1) :
    AtMostOne { σ with spawned := k, invocations := σ.invocations + 1 } := by
  simp only [AtMostOne, Dispatching.owed] at h ⊢
  omega

theorem AtMostOne.crash (h : AtMostOne σ) :
    AtMostOne { σ with
      conns := σ.conns.map Connection.crash, spawned := 0, service := .unknown } := by
  have hsum : ((σ.conns.map Connection.crash).map Connection.owed).sum = 0 := by
    simp [List.map_map, Function.comp_def, Connection.owed_crash]
  simp only [AtMostOne, Dispatching.owed, hsum] at h ⊢
  omega

/-- A pooled connection whose ack did not come is given up only when nothing is owed. -/
theorem AtMostOne.readFail {what : Option Bytes} (h : AtMostOne σ) (hpc : σ.pc = .waiting n)
    (hsafe : safeRetry σ (.readFail what) = true) (hc : σ.conns[n]? = some c) (error : Bytes) :
    AtMostOne (σ.fail setup n c error) := by
  simp only [AtMostOne, hpc, CallPc.unsent] at h
  refine fail hc error ?_
  split
  · next hpooled =>
    have hnone : σ.owed = 0 := by
      simpa [safeRetry, Dispatching.onPooled, hpc, hc, hpooled] using hsafe
    omega
  · exact h

/-- Every step that is not an unsafe retry keeps the bound. -/
theorem AtMostOne.step (l : Move) (h : AtMostOne σ) (hsafe : safeRetry σ l = true)
    (hexec : Move.exec setup σ l = some σ') : AtMostOne σ' := by
  cases l with
  | acquire stale =>
    simp only [Move.exec] at hexec
    split at hexec
    · next hpc =>
      cases hexec
      simp only [AtMostOne, hpc, CallPc.unsent] at h
      exact AtMostOne.addConn (by omega) rfl
    · cases hexec
  | connect o =>
    simp only [Move.exec] at hexec
    split at hexec
    · next n hpc =>
      cases hexec
      simp only [AtMostOne, hpc, CallPc.unsent] at h
      exact AtMostOne.connect (by omega) o
    · cases hexec
  | write ok =>
    simp only [Move.exec] at hexec
    split at hexec
    · next n hpc =>
      obtain ⟨c, hc, rfl⟩ := Option.map_eq_some_iff.mp hexec
      simp only [AtMostOne, hpc, CallPc.unsent] at h
      split
      · exact AtMostOne.write (by omega) hc
      · exact AtMostOne.fail hc _ (by split <;> omega)
    · cases hexec
  | readAck =>
    simp only [Move.exec] at hexec
    split at hexec
    · next n hpc =>
      obtain ⟨c, hc, hread⟩ := Option.bind_eq_some_iff.mp hexec
      simp only [AtMostOne] at h
      split at hread
      · cases hread
      · cases hread
        exact accept (by omega) hc _
    · cases hexec
  | readFail what =>
    simp only [Move.exec] at hexec
    split at hexec
    · next n hpc =>
      obtain ⟨c, hc, hread⟩ := Option.bind_eq_some_iff.mp hexec
      split at hread
      · cases hread
        exact h.readFail hpc hsafe hc _
      · cases hread
    · cases hexec
  | serve n queryOk =>
    obtain ⟨c, hc, hserve⟩ := Option.bind_eq_some_iff.mp hexec
    obtain ⟨c', hc', rfl⟩ := Option.map_eq_some_iff.mp hserve
    exact h.setConn hc (Connection.owed_serve hc')
  | spawn n =>
    obtain ⟨c, hc, hspawn⟩ := Option.bind_eq_some_iff.mp hexec
    split at hspawn
    · next hacked =>
      cases hspawn
      exact h.spawn hc hacked
    · cases hspawn
  | invoke =>
    simp only [Move.exec] at hexec
    split at hexec
    · cases hexec
    · next k hk =>
      cases hexec
      exact h.invoke hk
  | lose n keptRequests keptAcks =>
    obtain ⟨c, hc, rfl⟩ := Option.map_eq_some_iff.mp hexec
    exact h.setConn hc (c.owed_lose keptRequests keptAcks)
  | register service =>
    cases hexec
    exact h
  | crash =>
    cases hexec
    exact h.crash

end steps

/-- One call invokes the handler at most once in every run that gives up a
    pooled connection only when its request was not handled and cannot be. -/
theorem invocations_le_one (setup : Setup) {σ : Dispatching}
    (hrun : ((dispatchRequest setup).guarded fun σ l => safeRetry σ l = true).Reachable σ) :
    σ.invocations ≤ 1 := by
  have hinit : AtMostOne (dispatchRequest setup).init := Nat.le_refl 1
  have h : AtMostOne σ :=
    System.Reachable.guarded_invariant hinit
      (fun σ l σ' h hsafe hexec => h.step l hsafe hexec) hrun
  unfold AtMostOne Dispatching.owed at h
  omega

def plainSetup : Setup := { address := str "127.0.0.1:7000", subject := str "dyn/worker/gen:1" }

/-- A stale pooled connection swallows the request; the retry is handled. -/
def staleRun : List Move :=
  [.register .handler, .acquire true, .write true, .readFail none, .connect .ok, .write true,
    .serve 1 true, .spawn 1, .invoke, .readAck]

theorem staleRun_runs : (((dispatchRequest plainSetup).guarded
    fun σ l => safeRetry σ l = true).run staleRun).isSome = true := by decide

theorem staleRun_invocations_le_one :
    (((dispatchRequest plainSetup).guarded fun σ l => safeRetry σ l = true).run staleRun).map
        (·.invocations) = some 1 ∧
      ((((dispatchRequest plainSetup).guarded fun σ l => safeRetry σ l = true).run
        staleRun).get staleRun_runs).invocations ≤ 1 :=
  ⟨by decide, invocations_le_one plainSetup (System.Reachable.of_run_isSome staleRun_runs)⟩

/-- The server handles the request of a pooled connection, its ack is late, and
    the retry is handled too. -/
def lateAckRun : List Move :=
  [.register .handler, .acquire false, .write true, .serve 0 true, .spawn 0, .invoke,
    .readFail none, .connect .ok, .write true, .serve 1 true, .spawn 1, .invoke, .readAck]

theorem lateAckRun_runs : ((dispatchRequest plainSetup).run lateAckRun).isSome = true := by
  decide

/-- A call that returns normally has invoked the handler twice. -/
theorem lateAck_invokes_twice :
    ∃ σ, (dispatchRequest plainSetup).Reachable σ ∧ σ.pc = .returned ∧ σ.invocations = 2 :=
  ⟨((dispatchRequest plainSetup).run lateAckRun).get lateAckRun_runs,
    System.Reachable.of_run_isSome lateAckRun_runs, by decide, by decide⟩

end DynamoCpp.Transports.ControlPlane
