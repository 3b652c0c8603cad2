import DynamoCpp.Runtime.Channel
import DynamoCpp.Transports.DataPlane

/-! # The arrival of a response stream

    `register_response_stream` files a pending entry under a subject and makes
    a channel on which the outcome of the call-home will arrive.  Every
    connection that names the subject competes for the entry; so do
    `deregister` and `stop`.  Whoever takes it out of the table decides what is
    sent on the channel.

    The model is one registered stream: the entry, the channel, and the threads
    of `serve_data_connection` that were started for its subject.  Ids are
    generated, so no other registration has this subject.
-/

namespace DynamoCpp.Transports

open Framework

/-! ## Call-home connections -/

/-- Where `serve_data_connection` stands. -/
inductive CallHomePc where
  /-- Authenticates and reads the handshake. -/
  | arriving
  /-- Closed before the lookup: no token, no handshake, or not a response stream. -/
  | refused
  /-- There was no entry for the subject. -/
  | turnedAway
  /-- Has moved the entry out of the table and reads the prologue. -/
  | took
  /-- In `fulfill.send`. -/
  | sending (arrival : Arrival)
  | streaming
  /-- Done, and has had the entry. -/
  | ended
  deriving DecidableEq

/-- The connection found the entry. -/
def CallHomePc.hadEntry : CallHomePc → Bool
  | .arriving | .refused | .turnedAway => false
  | .took | .sending _ | .streaming | .ended => true

/-- The connection has the entry and has not sent on its channel. -/
def CallHomePc.owes : CallHomePc → Bool
  | .took | .sending _ => true
  | _ => false

/-- Who sends an arrival. -/
inductive Signaller where
  | callHome (conn : Nat)
  | stop
  | timer
  deriving DecidableEq

/-- Whoever took the entry out of the table. -/
def Signaller.hadEntry : Signaller → Bool
  | .callHome _ | .stop => true
  | .timer => false

/-! ## One registered stream -/

/-- The part of `DataPlaneServer::State` that one subject sees. -/
structure PendingStream where
  stopping : Bool := false
  /-- The table has an entry for the subject. -/
  pending  : Bool := false
  arrival  : Runtime.ChannelState Arrival := { capacity := 2 }
  /-- The slot of the requester that is parked in `recv`. -/
  slot     : Option Arrival := none
  conns    : List CallHomePc := []
  /-- Every value that was sent on the channel, and by whom. -/
  sent     : List (Signaller × Arrival) := []

namespace PendingStream

/-- `send` on the arrival channel, once it does not block. -/
def signal (r : PendingStream) (who : Signaller) (arrival : Arrival) : PendingStream :=
  let pushed := r.arrival.push arrival
  { r with
    arrival := pushed.2.2
    slot := if pushed.2.1.isSome then some arrival else r.slot
    sent := r.sent ++ [(who, arrival)] }

/-- `register_response_stream`.  A server that is stopping makes no entry. -/
def register (r : PendingStream) : PendingStream := { r with pending := !r.stopping }

def deregister (r : PendingStream) : PendingStream := { r with pending := false }

/-- What `stop` sends to every pending registration. -/
def shuttingDown : Arrival := .error (str "data plane shutting down")

/-- The first section of `stop`; the send to the entry is under the mutex. -/
def stop (r : PendingStream) : Option PendingStream :=
  if r.stopping = true then some r
  else if r.pending = true then
    if r.arrival.canPush = true then
      some { r.signal .stop shuttingDown with stopping := true, pending := false }
    else none
  else some { r with stopping := true }

/-- The section in which a connection looks for the entry. -/
def lookup (r : PendingStream) (conn : Nat) : PendingStream :=
  if r.pending = true then { r with pending := false, conns := r.conns.set conn .took }
  else { r with conns := r.conns.set conn .turnedAway }

/-- What follows from the prologue: none if it is missing or malformed, else its error. -/
def afterPrologue : Option (Option Bytes) → CallHomePc
  | none => .ended
  | some (some error) => .sending (.error error)
  | some none => .sending .stream

/-- Where a connection goes on after its send. -/
def afterSend : Arrival → CallHomePc
  | .error _ => .ended
  | .stream => .streaming

end PendingStream

/-- Steps of the connection threads and of `stop`. -/
inductive HomeStep where
  /-- The accept thread starts a connection thread. -/
  | accept
  | refuse (conn : Nat)
  | lookup (conn : Nat)
  | prologue (conn : Nat) (read : Option (Option Bytes))
  | deliver (conn : Nat)
  /-- The stream ends. -/
  | finish (conn : Nat)
  | stop
  deriving DecidableEq

/-- One step; a send that would block is not enabled. -/
def PendingStream.exec (r : PendingStream) : HomeStep → Option PendingStream
  | .accept => if r.stopping = true then none else some { r with conns := r.conns ++ [.arriving] }
  | .refuse conn =>
    match r.conns[conn]? with
    | some .arriving => some { r with conns := r.conns.set conn .refused }
    | _ => none
  | .lookup conn =>
    match r.conns[conn]? with
    | some .arriving => some (r.lookup conn)
    | _ => none
  | .prologue conn read =>
    match r.conns[conn]? with
    | some .took => some { r with conns := r.conns.set conn (afterPrologue read) }
    | _ => none
  | .deliver conn =>
    match r.conns[conn]? with
    | some (.sending arrival) =>
      if r.arrival.canPush = true then
        some { r.signal (.callHome conn) arrival with
          conns := r.conns.set conn (afterSend arrival) }
      else none
    | _ => none
  | .finish conn =>
    match r.conns[conn]? with
    | some .streaming => some { r with conns := r.conns.set conn .ended }
    | _ => none
  | .stop => r.stop

/-! ## Counting -/

namespace PendingStream

/-- Connections that have had the entry. -/
def takers (r : PendingStream) : Nat := r.conns.countP CallHomePc.hadEntry

/-- Connections that can still send. -/
def owing (r : PendingStream) : Nat := r.conns.countP CallHomePc.owes

/-- Sends by whoever took the entry. -/
def decisions (r : PendingStream) : Nat := r.sent.countP fun x => x.1.hadEntry

/-- Sends by the timer. -/
def timeouts (r : PendingStream) : Nat := r.sent.countP fun x => !x.1.hadEntry

theorem owing_le_takers (r : PendingStream) : r.owing ≤ r.takers := by
  refine List.countP_mono_left fun c _ howes => ?_
  cases c <;> first | rfl | cases howes

theorem length_sent (r : PendingStream) : r.sent.length = r.decisions + r.timeouts := by
  rw [decisions, timeouts, List.length_eq_countP_add_countP fun x => x.1.hadEntry]
  simp

/-- Changing the state of one connection. -/
theorem countP_set {conns : List CallHomePc} {conn : Nat} {c : CallHomePc} (p : CallHomePc → Bool)
    (h : conns[conn]? = some c) (c' : CallHomePc) :
    (conns.set conn c').countP p + (p c).toNat = conns.countP p + (p c').toNat := by
  induction conns generalizing conn with
  | nil => cases h
  | cons d conns ih =>
    cases conn with
    | zero =>
      cases h
      simp only [List.set_cons_zero, List.countP_cons]
      cases p c <;> cases p c' <;> simp
    | succ conn =>
      have hrest := ih h
      simp only [List.set_cons_succ, List.countP_cons]
      omega

section signal

variable (r : PendingStream) (who : Signaller) (arrival : Arrival)

theorem decisions_signal :
    (r.signal who arrival).decisions = r.decisions + who.hadEntry.toNat := by
  cases h : who.hadEntry <;> simp [signal, decisions, List.countP_append, h]

theorem timeouts_signal :
    (r.signal who arrival).timeouts = r.timeouts + (!who.hadEntry).toNat := by
  cases h : who.hadEntry <;> simp [signal, timeouts, List.countP_append, h]

theorem capacity_signal : (r.signal who arrival).arrival.capacity = r.arrival.capacity := by
  simp only [signal, Runtime.ChannelState.push]
  split
  · rfl
  · split <;> rfl

theorem closed_signal : (r.signal who arrival).arrival.closed = r.arrival.closed := by
  simp only [signal, Runtime.ChannelState.push]
  split
  · rfl
  · split <;> rfl

theorem receivers_signal : (r.signal who arrival).arrival.receivers = r.arrival.receivers := by
  simp only [signal, Runtime.ChannelState.push]
  split
  · rfl
  · split <;> rfl

/-- What is in the queue and the slot after a send. -/
theorem queue_signal :
    ((r.signal who arrival).arrival.queue = r.arrival.queue ∨
      (r.signal who arrival).arrival.queue = r.arrival.queue ++ [arrival]) ∧
    ((r.signal who arrival).slot = r.slot ∨ (r.signal who arrival).slot = some arrival) := by
  simp only [signal, Runtime.ChannelState.push]
  split
  · exact ⟨.inl rfl, .inl rfl⟩
  · split
    · exact ⟨.inl rfl, .inr rfl⟩
    · exact ⟨.inr rfl, .inl rfl⟩

end signal

/-! ## What a step does -/

/-- The effect of a step on the entry, the channel and the connections. -/
inductive Moves (r : PendingStream) : PendingStream → Prop where
  /-- A connection that does not touch the table or the channel. -/
  | idle (conns : List CallHomePc) (htakers : conns.countP CallHomePc.hadEntry = r.takers)
      (howing : conns.countP CallHomePc.owes ≤ r.owing) : Moves r { r with conns := conns }
  | take (conns : List CallHomePc) (hpending : r.pending = true)
      (htakers : conns.countP CallHomePc.hadEntry = r.takers + 1)
      (howing : conns.countP CallHomePc.owes = r.owing + 1) :
      Moves r { r with pending := false, conns := conns }
  | deliver (conns : List CallHomePc) (conn : Nat) (arrival : Arrival)
      (hconn : r.conns[conn]? = some (.sending arrival))
      (htakers : conns.countP CallHomePc.hadEntry = r.takers)
      (howing : conns.countP CallHomePc.owes + 1 = r.owing) :
      Moves r { r.signal (.callHome conn) arrival with conns := conns }
  | fail (hstopping : r.stopping = false) (hpending : r.pending = true) :
      Moves r { r.signal .stop shuttingDown with stopping := true, pending := false }
  | halt (hnone : r.stopping = true ∨ r.pending = false) : Moves r { r with stopping := true }

variable {r r' : PendingStream}

theorem idle_set {conn : Nat} {c c' : CallHomePc} (hc : r.conns[conn]? = some c)
    (hhad : c'.hadEntry = c.hadEntry) (howes : c'.owes = true → c.owes = true) :
    Moves r { r with conns := r.conns.set conn c' } := by
  have htakers := countP_set CallHomePc.hadEntry hc c'
  have howing := countP_set CallHomePc.owes hc c'
  rw [hhad] at htakers
  have hle : c'.owes.toNat ≤ c.owes.toNat := by
    cases h : c'.owes with
    | false => exact Nat.zero_le _
    | true => simp [howes h]
  refine .idle _ (Nat.add_right_cancel htakers) ?_
  show _ ≤ r.conns.countP _
  omega

theorem lookup_moves {conn : Nat} (hc : r.conns[conn]? = some .arriving) :
    Moves r (r.lookup conn) := by
  unfold lookup
  split
  · next hpending =>
    exact .take _ hpending (countP_set CallHomePc.hadEntry hc .took)
      (countP_set CallHomePc.owes hc .took)
  · exact idle_set hc rfl nofun

theorem deliver_moves {conn : Nat} {arrival : Arrival}
    (hc : r.conns[conn]? = some (.sending arrival)) :
    Moves r { r.signal (.callHome conn) arrival with
      conns := r.conns.set conn (afterSend arrival) } := by
  have htakers := countP_set CallHomePc.hadEntry hc (afterSend arrival)
  have howing := countP_set CallHomePc.owes hc (afterSend arrival)
  cases arrival with
  | error | stream => exact .deliver _ conn _ hc (Nat.add_right_cancel htakers) howing

theorem stop_moves (h : r.stop = some r') : Moves r r' := by
  unfold stop at h
  split at h
  · next hstopping =>
    cases h
    have hhalt : Moves r { r with stopping := true } := .halt (.inl hstopping)
    have hsame : { r with stopping := true } = r := by rw [← hstopping]
    rwa [hsame] at hhalt
  · next hstopping =>
    split at h
    · next hpending =>
      split at h
      · cases h
        exact .fail (eq_false_of_ne_true hstopping) hpending
      · cases h
    · next hpending =>
      cases h
      exact .halt (.inr (eq_false_of_ne_true hpending))

theorem exec_moves {l : HomeStep} (h : r.exec l = some r') : Moves r r' := by
  cases l with
  | accept =>
    simp only [exec] at h
    split at h
    · cases h
    · cases h
      exact .idle _ (by simp [takers, CallHomePc.hadEntry])
        (by simp [owing, CallHomePc.owes])
  | refuse | finish =>
    simp only [exec] at h
    split at h
    · next hc =>
      cases h
      exact idle_set hc rfl nofun
    · cases h
  | lookup conn =>
    simp only [exec] at h
    split at h
    · next hc =>
      cases h
      exact lookup_moves hc
    · cases h
  | prologue conn read =>
    simp only [exec] at h
    split at h
    · next hc =>
      cases h
      refine idle_set hc ?_ fun _ => rfl
      rcases read with _ | _ | _ <;> rfl
    · cases h
  | deliver conn =>
    simp only [exec] at h
    split at h
    · next hc =>
      split at h
      · cases h
        exact deliver_moves hc
      · cases h
    · cases h
  | stop => exact stop_moves h

end PendingStream

end DynamoCpp.Transports
