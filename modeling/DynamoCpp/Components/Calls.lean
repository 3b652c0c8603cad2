import DynamoCpp.Transports.Arrival
import DynamoCpp.Transports.Dispatch

/-! # Calls and their return path

    `Client::call` and `Client::queue` register a response stream, dispatch the
    request with its coordinates and wait in `await_arrival` for the worker's
    call-home, a timeout or the shutdown of the server.  The call may fail at
    each of these points, and from the registration on the data plane server
    has an entry for it.

    The steps are those of the caller, of its timer and of the threads of the
    server, in any order.
-/

namespace DynamoCpp.Components

open Framework Transports Runtime.ChannelState

/-! ## The model -/

/-- Which function of the client makes the call. -/
inductive CallKind where
  /-- `call` of `random`, `round_robin` and `direct`. -/
  | stream
  | unary
  | queue
  deriving DecidableEq

/-- How a call ends with an exception. -/
inductive Failure where
  /-- There is no live instance to send the request to. -/
  | noTarget (what : Bytes)
  /-- The request has no JSON text. -/
  | encode (what : Bytes)
  /-- `dispatch_request` or `queue_dispatch` threw. -/
  | dispatch (what : Bytes)
  /-- The arrival channel was closed. -/
  | closed
  | arrival (error : Bytes)
  /-- The stream of a unary call had no item. -/
  | noResponse
  deriving DecidableEq

/-- The text of the exception. -/
def Failure.what : Failure → Bytes
  | .noTarget what => what
  | .encode what => what
  | .dispatch what => what
  | .closed => str "data plane shut down while awaiting response stream"
  | .arrival error => str "remote generate failed: " ++ error
  | .noResponse => str "unary call produced no response"

/-- Where the caller stands. -/
inductive CallerPc where
  | routing
  /-- The stream is registered, the request is yet to be encoded. -/
  | registered
  | dispatching
  /-- About to deregister, on the way out. -/
  | withdrawing (failure : Failure)
  | scheduling
  | receiving
  /-- Suspended in `recv`. -/
  | parked
  /-- `recv` gave this; the timer is yet to be cancelled. -/
  | received (arrival : Option Arrival)
  /-- `await_arrival` returned a stream. -/
  | streaming
  | returned
  | threw (failure : Failure)
  deriving DecidableEq

/-- The arrival timer. -/
inductive Timer where
  | unset
  | armed
  /-- Its time has come: the timer thread has removed it and runs its callback. -/
  | firing
  | done
  deriving DecidableEq

/-- A call, its timer and the server side of its return path. -/
structure Calling where
  pc       : CallerPc := .routing
  timer    : Timer := .unset
  dispatch : ControlPlane.Dispatching := {}
  home     : PendingStream := {}

/-- What stays fixed during a call. -/
structure CallSetup where
  kind    : CallKind
  control : ControlPlane.Setup

inductive CallStep where
  | noTarget (what : Bytes)
  /-- `register_response_stream`. -/
  | register
  /-- The JSON text of the payload; `some` if it cannot be made. -/
  | encode (error : Option Bytes)
  /-- A step inside `dispatch_request`. -/
  | dispatch (move : ControlPlane.Move)
  /-- `dispatch_request` returns or throws. -/
  | dispatched
  /-- `queue_dispatch` returns or throws. -/
  | queued (error : Option Bytes)
  | deregister
  | schedule
  | recv
  | resume
  | cancel
  /-- The stream has ended, with or without an item. -/
  | drained (item : Bool)
  /-- The time of the timer has come. -/
  | expire
  /-- The callback of the timer. -/
  | timeout
  /-- The caller's handles of the arrival channel are destroyed, -/
  | release
  /-- and the channel is closed. -/
  | close
  | home (step : HomeStep)

/-- What the callback of the timer sends. -/
def timedOut : Arrival := .error (str "timed out waiting for the worker's call-home")

/-- `await_arrival` is over: the caller holds no handle of the channel. -/
def CallerPc.left : CallerPc → Bool
  | .streaming | .returned | .threw _ => true
  | _ => false

namespace Calling

/-- `dispatch_request` is outside of any try block; `queue_dispatch` is in one that
    deregisters the stream. -/
def afterDispatch : Option Bytes → CallerPc
  | none => .scheduling
  | some what => .threw (.dispatch what)

def afterQueueDispatch : Option Bytes → CallerPc
  | none => .scheduling
  | some what => .withdrawing (.dispatch what)

/-- `await_arrival` after `recv`. -/
def afterArrival : Option Arrival → CallerPc
  | none => .threw .closed
  | some (.error e) => .withdrawing (.arrival e)
  | some .stream => .streaming

def recv (s : Calling) : Calling :=
  match s.home.arrival.awaitSuspend 0 with
  | (true, _, arrival) => { s with pc := .parked, home := { s.home with arrival } }
  | (false, value, arrival) => { s with pc := .received value, home := { s.home with arrival } }

/-- A parked caller goes on with its slot, or with nothing if the channel was closed. -/
def resume (s : Calling) : Option Calling :=
  match s.home.slot with
  | some arrival =>
    some { s with pc := .received (some arrival), home := { s.home with slot := none } }
  | none => if s.home.arrival.closed = true then some { s with pc := .received none } else none

def exec (setup : CallSetup) (s : Calling) : CallStep → Option Calling
  | .noTarget what =>
    if s.pc = .routing ∧ setup.kind ≠ .queue then some { s with pc := .threw (.noTarget what) }
    else none
  | .register =>
    if s.pc = .routing then some { s with pc := .registered, home := s.home.register } else none
  | .encode error =>
    if s.pc = .registered then
      some { s with pc := error.elim .dispatching fun what => .threw (.encode what) }
    else none
  | .dispatch move =>
    if s.pc = .dispatching ∧ setup.kind ≠ .queue then
      (move.exec setup.control s.dispatch).map fun dispatch => { s with dispatch }
    else none
  | .dispatched =>
    if s.pc = .dispatching ∧ setup.kind ≠ .queue then
      match s.dispatch.pc with
      | .returned => some { s with pc := afterDispatch none }
      | .threw error => some { s with pc := afterDispatch (some error) }
      | _ => none
    else none
  | .queued error =>
    if s.pc = .dispatching ∧ setup.kind = .queue then some { s with pc := afterQueueDispatch error }
    else none
  | .deregister =>
    match s.pc with
    | .withdrawing failure => some { s with pc := .threw failure, home := s.home.deregister }
    | _ => none
  | .schedule =>
    if s.pc = .scheduling then some { s with pc := .receiving, timer := .armed } else none
  | .recv => if s.pc = .receiving then some s.recv else none
  | .resume => if s.pc = .parked then s.resume else none
  | .cancel =>
    match s.pc with
    | .received arrival =>
      some { s with
        pc := afterArrival arrival
        -- a timer that was removed already runs to its end
        timer := if s.timer = .armed then .done else s.timer }
    | _ => none
  | .drained item =>
    if s.pc = .streaming then
      some { s with
        pc := if setup.kind = .unary ∧ item = false then .threw .noResponse else .returned }
    else none
  | .expire => if s.timer = .armed then some { s with timer := .firing } else none
  | .timeout =>
    if s.timer = .firing ∧ s.home.arrival.canPush = true then
      some { s with timer := .done, home := s.home.signal .timer timedOut }
    else none
  | .release =>
    if s.pc.left = true then
      some { s with home := { s.home with arrival := { s.home.arrival with receivers := 0 } } }
    else none
  | .close =>
    if s.home.arrival.receivers = 0 then
      some { s with home := { s.home with arrival := s.home.arrival.closeLocked.1 } }
    else none
  | .home step => (s.home.exec step).map fun home => { s with home }

end Calling

/-- One call of a client, with everything that can happen to its registered stream. -/
def calls (setup : CallSetup) : System Calling CallStep where
  init := {}
  exec := Calling.exec setup

/-! ## What a step does -/

namespace Calling

/-- The steps with what has to hold before them. -/
inductive Steps (setup : CallSetup) (s : Calling) : Calling → Prop where
  | noTarget (what : Bytes) (hpc : s.pc = .routing) :
      Steps setup s { s with pc := .threw (.noTarget what) }
  | register (hpc : s.pc = .routing) :
      Steps setup s { s with pc := .registered, home := s.home.register }
  | encode (error : Option Bytes) (hpc : s.pc = .registered) :
      Steps setup s { s with pc := error.elim .dispatching fun what => .threw (.encode what) }
  | inside (dispatch : ControlPlane.Dispatching) : Steps setup s { s with dispatch }
  | dispatched (error : Option Bytes) (hpc : s.pc = .dispatching) (hkind : setup.kind ≠ .queue) :
      Steps setup s { s with pc := afterDispatch error }
  | queued (error : Option Bytes) (hpc : s.pc = .dispatching) (hkind : setup.kind = .queue) :
      Steps setup s { s with pc := afterQueueDispatch error }
  | deregister (failure : Failure) (hpc : s.pc = .withdrawing failure) :
      Steps setup s { s with pc := .threw failure, home := s.home.deregister }
  | schedule (hpc : s.pc = .scheduling) :
      Steps setup s { s with pc := .receiving, timer := .armed }
  | recv (hpc : s.pc = .receiving) : Steps setup s s.recv
  | resume (arrival : Arrival) (hpc : s.pc = .parked) (hslot : s.home.slot = some arrival) :
      Steps setup s
        { s with pc := .received (some arrival), home := { s.home with slot := none } }
  | wake (hpc : s.pc = .parked) (hclosed : s.home.arrival.closed = true) :
      Steps setup s { s with pc := .received none }
  | cancel (arrival : Option Arrival) (hpc : s.pc = .received arrival) :
      Steps setup s
        { s with pc := afterArrival arrival, timer := if s.timer = .armed then .done else s.timer }
  | drained (item : Bool) (hpc : s.pc = .streaming) :
      Steps setup s
        { s with
          pc := if setup.kind = .unary ∧ item = false then .threw .noResponse else .returned }
  | expire (htimer : s.timer = .armed) : Steps setup s { s with timer := .firing }
  | timeout (htimer : s.timer = .firing) :
      Steps setup s { s with timer := .done, home := s.home.signal .timer timedOut }
  | release (hleft : s.pc.left = true) :
      Steps setup s
        { s with home := { s.home with arrival := { s.home.arrival with receivers := 0 } } }
  | close (hreceivers : s.home.arrival.receivers = 0) :
      Steps setup s { s with home := { s.home with arrival := s.home.arrival.closeLocked.1 } }
  | home (home : PendingStream) (hmoves : s.home.Moves home) : Steps setup s { s with home }

theorem exec_steps {setup : CallSetup} {s s' : Calling} {l : CallStep}
    (h : s.exec setup l = some s') : Steps setup s s' := by
  cases l with
  | noTarget what =>
    obtain ⟨⟨hpc, -⟩, rfl⟩ := enabled h
    exact .noTarget what hpc
  | register =>
    obtain ⟨hpc, rfl⟩ := enabled h
    exact .register hpc
  | encode error =>
    obtain ⟨hpc, rfl⟩ := enabled h
    exact .encode error hpc
  | dispatch move =>
    obtain ⟨-, heq⟩ := Option.ite_none_right_eq_some.mp h
    obtain ⟨dispatch, -, heq⟩ := Option.map_eq_some_iff.mp heq
    cases heq
    exact .inside dispatch
  | dispatched =>
    obtain ⟨⟨hpc, hkind⟩, heq⟩ := Option.ite_none_right_eq_some.mp h
    split at heq
    · cases heq
      exact .dispatched none hpc hkind
    · next error _ =>
      cases heq
      exact .dispatched (some error) hpc hkind
    · cases heq
  | queued error =>
    obtain ⟨⟨hpc, hkind⟩, rfl⟩ := enabled h
    exact .queued error hpc hkind
  | deregister =>
    simp only [exec] at h
    split at h
    · next failure hpc =>
      cases h
      exact .deregister failure hpc
    · cases h
  | schedule =>
    obtain ⟨hpc, rfl⟩ := enabled h
    exact .schedule hpc
  | recv =>
    obtain ⟨hpc, rfl⟩ := enabled h
    exact .recv hpc
  | resume =>
    obtain ⟨hpc, heq⟩ := Option.ite_none_right_eq_some.mp h
    unfold resume at heq
    split at heq
    · next arrival hslot =>
      cases heq
      exact .resume arrival hpc hslot
    · obtain ⟨hclosed, rfl⟩ := enabled heq
      exact .wake hpc hclosed
  | cancel =>
    simp only [exec] at h
    split at h
    · next arrival hpc =>
      cases h
      exact .cancel arrival hpc
    · cases h
  | drained item =>
    obtain ⟨hpc, rfl⟩ := enabled h
    exact .drained item hpc
  | expire =>
    obtain ⟨htimer, rfl⟩ := enabled h
    exact .expire htimer
  | timeout =>
    obtain ⟨⟨htimer, -⟩, rfl⟩ := enabled h
    exact .timeout htimer
  | release =>
    obtain ⟨hleft, rfl⟩ := enabled h
    exact .release hleft
  | close =>
    obtain ⟨hreceivers, rfl⟩ := enabled h
    exact .close hreceivers
  | home step =>
    obtain ⟨home, hexec, heq⟩ := Option.map_eq_some_iff.mp h
    cases heq
    exact .home home (PendingStream.exec_moves hexec)

end Calling

theorem closeLocked_eq (c : Runtime.ChannelState Arrival) :
    ∃ waiters, c.closeLocked.1 = { c with closed := true, asyncReceivers := waiters } := by
  unfold closeLocked
  split
  · next hclosed => exact ⟨c.asyncReceivers, by rw [← hclosed]⟩
  · exact ⟨[], rfl⟩

/-- What `recv` finds on the channel. -/
theorem Calling.recv_cases (s : Calling) :
    (∃ value queue, s.home.arrival.queue = value :: queue ∧
      s.recv = { s with
        pc := .received (some value)
        home := { s.home with arrival := { s.home.arrival with queue } } }) ∨
    (s.home.arrival.queue = [] ∧ s.home.arrival.closed = true ∧
      s.recv = { s with pc := .received none }) ∨
    (s.home.arrival.queue = [] ∧ s.home.arrival.closed = false ∧
      s.recv = { s with
        pc := .parked
        home := { s.home with
          arrival := { s.home.arrival with
            asyncReceivers := s.home.arrival.asyncReceivers ++ [0] } } }) := by
  cases hqueue : s.home.arrival.queue with
  | cons value queue =>
    refine .inl ⟨value, queue, rfl, ?_⟩
    simp [recv, awaitSuspend, hqueue]
  | nil =>
    cases hclosed : s.home.arrival.closed with
    | true =>
      refine .inr (.inl ⟨rfl, rfl, ?_⟩)
      simp [recv, awaitSuspend, hqueue, hclosed]
    | false =>
      refine .inr (.inr ⟨rfl, rfl, ?_⟩)
      simp [recv, awaitSuspend, hqueue, hclosed]

end DynamoCpp.Components
