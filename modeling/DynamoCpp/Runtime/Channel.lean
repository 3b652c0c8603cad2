import DynamoCpp.Framework.System
import Mathlib.Data.List.Nodup
import Mathlib.Logic.Function.Basic

/-! # Channels

    `coro::ChannelState`, a bounded channel between threads and coroutines.  The sections
    under the channel mutex are the steps of a transition system; a thread that waits on
    a condition variable takes its step when the condition holds.  A value travels through
    the queue, or directly into the slot of a parked receiver.  What happens outside the
    lock are steps of their own: resuming a receiver whose slot has been filled, and
    resetting the slots of the receivers that were parked when the channel was closed.
-/

namespace DynamoCpp.Runtime

open Framework

variable {T : Type}

/-! ## Under the mutex -/

/-- `ChannelState`.  An awaiter is named by the call of `recv` that it belongs to. -/
structure ChannelState (T : Type) where
  capacity       : Nat
  queue          : List T := []
  closed         : Bool := false
  senders        : Nat := 1
  receivers      : Nat := 1
  asyncReceivers : List Nat := []

namespace ChannelState

/-- Closes the channel, once, and returns the receivers that were parked. -/
def closeLocked (s : ChannelState T) : ChannelState T × List Nat :=
  if s.closed then (s, [])
  else ({ s with closed := true, asyncReceivers := [] }, s.asyncReceivers)

/-- What `push` waits for. -/
def canPush (s : ChannelState T) : Bool :=
  s.closed || decide (s.queue.length < s.capacity) || !s.asyncReceivers.isEmpty

/-- `push`: whether the value is accepted, and the parked receiver that took it. -/
def push (s : ChannelState T) (value : T) : Bool × Option Nat × ChannelState T :=
  if s.closed then (false, none, s)
  else
    match s.asyncReceivers with
    -- the value goes past the queue
    | w :: ws => (true, some w, { s with asyncReceivers := ws })
    | [] => (true, none, { s with queue := s.queue ++ [value] })

/-- `await_suspend`: whether the receiver is parked, and what is put into its slot. -/
def awaitSuspend (s : ChannelState T) (awaiter : Nat) : Bool × Option T × ChannelState T :=
  match s.queue with
  | value :: queue => (false, some value, { s with queue := queue })
  | [] =>
    -- a closed channel is drained first
    if s.closed then (false, none, s)
    else (true, none, { s with asyncReceivers := s.asyncReceivers ++ [awaiter] })

/-- What `sync_recv` waits for. -/
def canRecv (s : ChannelState T) : Bool := s.closed || !s.queue.isEmpty

def syncRecv (s : ChannelState T) : Option T × ChannelState T :=
  match s.queue with
  | [] => (none, s)
  | value :: queue => (some value, { s with queue := queue })

end ChannelState

/-! ## The channel and its users -/

/-- The state of the channel, what its users are about to do outside the lock, and what
    has happened so far. -/
structure Channel (T : Type) where
  state     : ChannelState T
  /-- The slot of each awaiter. -/
  slots     : Nat → Option T := fun _ => none
  nextCall  : Nat := 0
  /-- Awaiters that go on with what is in their slot. -/
  resuming  : List Nat := []
  /-- Awaiters taken by `close`, whose slots have yet to be reset. -/
  closing   : List Nat := []
  /-- Threads that have released the last handle and have yet to close the channel. -/
  closers   : Nat := 0
  /-- The values whose `send` was accepted. -/
  accepted  : List T := []
  /-- The values moved to a receiver, in that order, with the call that they went to. -/
  handedOut : List (Nat × T) := []
  /-- What the calls of `recv` and `sync_recv` have returned. -/
  given     : List (Nat × Option T) := []

inductive ChannelStep (T : Type) where
  | send (value : T)
  | recv
  | syncRecv
  /-- `await_resume`. -/
  | resume (call : Nat)
  | close
  /-- One turn of the loop of `close`. -/
  | closeNext
  | copySender
  | releaseSender
  | copyReceiver
  | releaseReceiver
  /-- The `close` of the thread that has released the last handle. -/
  | closeReleased

namespace Channel

def send (c : Channel T) (value : T) : Channel T :=
  match c.state.push value with
  | (false, _, s) => { c with state := s }
  | (true, none, s) => { c with state := s, accepted := c.accepted ++ [value] }
  | (true, some w, s) =>
    { c with
      state := s
      slots := Function.update c.slots w (some value)
      resuming := c.resuming ++ [w]
      accepted := c.accepted ++ [value]
      handedOut := c.handedOut ++ [(w, value)] }

def recv (c : Channel T) : Channel T :=
  let call := c.nextCall
  let c := { c with nextCall := call + 1 }
  match c.state.awaitSuspend call with
  | (true, _, s) => { c with state := s }
  | (false, none, s) => { c with state := s, resuming := c.resuming ++ [call] }
  | (false, some value, s) =>
    { c with
      state := s
      slots := Function.update c.slots call (some value)
      resuming := c.resuming ++ [call]
      handedOut := c.handedOut ++ [(call, value)] }

def syncRecv (c : Channel T) : Channel T :=
  let call := c.nextCall
  let r := c.state.syncRecv
  { c with
    state := r.2
    nextCall := call + 1
    handedOut := c.handedOut ++ r.1.toList.map fun value => (call, value)
    given := c.given ++ [(call, r.1)] }

def resume (c : Channel T) (call : Nat) : Channel T :=
  { c with
    resuming := c.resuming.erase call
    given := c.given ++ [(call, c.slots call)] }

def close (c : Channel T) : Channel T :=
  let r := c.state.closeLocked
  { c with state := r.1, closing := c.closing ++ r.2 }

def closeNext (c : Channel T) : Channel T :=
  match c.closing with
  | [] => c
  | w :: ws =>
    { c with
      slots := Function.update c.slots w none
      closing := ws
      resuming := c.resuming ++ [w] }

/-- The end of a handle; `left` are the handles of its kind that are left. -/
def released (c : Channel T) (left : Nat) (s : ChannelState T) : Channel T :=
  -- `close` takes the mutex again
  { c with state := s, closers := if left = 0 then c.closers + 1 else c.closers }

def exec (c : Channel T) : ChannelStep T → Option (Channel T)
  | .send value => if c.state.canPush then some (c.send value) else none
  | .recv => some c.recv
  | .syncRecv => if c.state.canRecv then some c.syncRecv else none
  | .resume call => if call ∈ c.resuming then some (c.resume call) else none
  | .close => some c.close
  | .closeNext => some c.closeNext
  | .copySender => some { c with state := { c.state with senders := c.state.senders + 1 } }
  | .releaseSender =>
    let left := c.state.senders - 1
    if c.state.senders = 0 then none
    else some (c.released left { c.state with senders := left })
  | .copyReceiver => some { c with state := { c.state with receivers := c.state.receivers + 1 } }
  | .releaseReceiver =>
    let left := c.state.receivers - 1
    if c.state.receivers = 0 then none
    else some (c.released left { c.state with receivers := left })
  | .closeReleased =>
    if c.closers = 0 then none else some { c.close with closers := c.closers - 1 }

end Channel

/-- `make_channel`. -/
def channel (T : Type) (capacity : Nat) : System (Channel T) (ChannelStep T) where
  init := { state := { capacity := capacity } }
  exec := Channel.exec

namespace Channel

/-! ## What the steps do -/

/-- A value is refused, handed to the first parked receiver, or queued. -/
theorem send_cases (c : Channel T) (value : T) :
    (c.state.closed = true ∧ c.send value = c) ∨
      (∃ w ws, c.state.closed = false ∧ c.state.asyncReceivers = w :: ws ∧
        c.send value =
          { c with
            state := { c.state with asyncReceivers := ws }
            slots := Function.update c.slots w (some value)
            resuming := c.resuming ++ [w]
            accepted := c.accepted ++ [value]
            handedOut := c.handedOut ++ [(w, value)] }) ∨
      (c.state.closed = false ∧ c.state.asyncReceivers = [] ∧
        c.send value =
          { c with
            state := { c.state with queue := c.state.queue ++ [value] }
            accepted := c.accepted ++ [value] }) := by
  by_cases hclosed : c.state.closed = true
  · have hpush : c.state.push value = (false, none, c.state) := by
      rw [ChannelState.push, if_pos hclosed]
    refine .inl ⟨hclosed, ?_⟩
    rw [send, hpush]
  · have hopen : c.state.closed = false := eq_false_of_ne_true hclosed
    rcases hparked : c.state.asyncReceivers with _ | ⟨w, ws⟩
    · have hpush : c.state.push value =
          (true, none, { c.state with queue := c.state.queue ++ [value] }) := by
        simp only [ChannelState.push, if_neg hclosed, hparked]
      refine .inr (.inr ⟨hopen, rfl, ?_⟩)
      rw [send, hpush]
    · have hpush : c.state.push value =
          (true, some w, { c.state with asyncReceivers := ws }) := by
        rw [ChannelState.push, if_neg hclosed, hparked]
      refine .inr (.inl ⟨w, ws, hopen, rfl, ?_⟩)
      rw [send, hpush]

/-- A receiver takes the first value of the queue, finds the channel closed, or parks. -/
theorem recv_cases (c : Channel T) :
    (∃ value queue, c.state.queue = value :: queue ∧
        c.recv =
          { c with
            state := { c.state with queue := queue }
            slots := Function.update c.slots c.nextCall (some value)
            nextCall := c.nextCall + 1
            resuming := c.resuming ++ [c.nextCall]
            handedOut := c.handedOut ++ [(c.nextCall, value)] }) ∨
      (c.state.queue = [] ∧ c.state.closed = true ∧
        c.recv =
          { c with nextCall := c.nextCall + 1, resuming := c.resuming ++ [c.nextCall] }) ∨
      (c.state.queue = [] ∧ c.state.closed = false ∧
        c.recv =
          { c with
            state :=
              { c.state with asyncReceivers := c.state.asyncReceivers ++ [c.nextCall] }
            nextCall := c.nextCall + 1 }) := by
  rcases hqueue : c.state.queue with _ | ⟨value, queue⟩
  · by_cases hclosed : c.state.closed = true
    · have hsuspend : c.state.awaitSuspend c.nextCall = (false, none, c.state) := by
        rw [ChannelState.awaitSuspend, hqueue, if_pos hclosed]
      refine .inr (.inl ⟨rfl, hclosed, ?_⟩)
      rw [recv, hsuspend]
    · have hsuspend : c.state.awaitSuspend c.nextCall = (true, none,
          { c.state with asyncReceivers := c.state.asyncReceivers ++ [c.nextCall] }) := by
        simp only [ChannelState.awaitSuspend, hqueue, if_neg hclosed]
      refine .inr (.inr ⟨rfl, eq_false_of_ne_true hclosed, ?_⟩)
      rw [recv, hsuspend]
  · have hsuspend : c.state.awaitSuspend c.nextCall =
        (false, some value, { c.state with queue := queue }) := by
      rw [ChannelState.awaitSuspend, hqueue]
    refine .inl ⟨value, queue, rfl, ?_⟩
    rw [recv, hsuspend]

theorem syncRecv_cases (c : Channel T) :
    (∃ value queue, c.state.queue = value :: queue ∧
        c.syncRecv =
          { c with
            state := { c.state with queue := queue }
            nextCall := c.nextCall + 1
            handedOut := c.handedOut ++ [(c.nextCall, value)]
            given := c.given ++ [(c.nextCall, some value)] }) ∨
      (c.state.queue = [] ∧
        c.syncRecv =
          { c with nextCall := c.nextCall + 1, given := c.given ++ [(c.nextCall, none)] }) := by
  rcases hqueue : c.state.queue with _ | ⟨value, queue⟩
  · have htaken : c.state.syncRecv = (none, c.state) := by
      rw [ChannelState.syncRecv, hqueue]
    refine .inr ⟨rfl, ?_⟩
    rw [syncRecv, htaken]
    simp
  · have htaken : c.state.syncRecv = (some value, { c.state with queue := queue }) := by
      rw [ChannelState.syncRecv, hqueue]
    refine .inl ⟨value, queue, rfl, ?_⟩
    rw [syncRecv, htaken]
    rfl

theorem close_cases (c : Channel T) :
    (c.state.closed = true ∧ c.close = c) ∨
      (c.state.closed = false ∧
        c.close =
          { c with
            state := { c.state with closed := true, asyncReceivers := [] }
            closing := c.closing ++ c.state.asyncReceivers }) := by
  by_cases hclosed : c.state.closed = true
  · refine .inl ⟨hclosed, ?_⟩
    rw [close, ChannelState.closeLocked, if_pos hclosed, List.append_nil]
  · refine .inr ⟨eq_false_of_ne_true hclosed, ?_⟩
    rw [close, ChannelState.closeLocked, if_neg hclosed]

theorem closeNext_cases (c : Channel T) :
    c.closeNext = c ∨ ∃ w ws, c.closing = w :: ws ∧
      c.closeNext =
        { c with
          slots := Function.update c.slots w none
          closing := ws
          resuming := c.resuming ++ [w] } := by
  unfold closeNext
  cases hclosing : c.closing with
  | nil => exact .inl rfl
  | cons w ws => exact .inr ⟨w, ws, rfl, rfl⟩

/-! ## Order -/

/-- Some call gets nothing: it has returned nothing already, or is bound to. -/
def Starves (c : Channel T) : Prop :=
  c.closing ≠ [] ∨ (∃ call ∈ c.resuming, c.slots call = none) ∨ ∃ call, (call, none) ∈ c.given

/-- What was accepted has been handed out or is queued, in this order; receivers are parked
    only while there is nothing for them, and get nothing only when there will be nothing. -/
structure Ordered (capacity : Nat) (c : Channel T) : Prop where
  limit   : c.state.capacity = capacity
  fifo    : c.accepted = c.handedOut.map (·.2) ++ c.state.queue
  bounded : c.state.queue.length ≤ capacity
  parked  : c.state.asyncReceivers ≠ [] → c.state.queue = []
  drained : c.Starves → c.state.closed = true ∧ c.state.queue = []

theorem ordered_init (capacity : Nat) :
    Ordered capacity ({ state := { capacity := capacity } } : Channel T) where
  limit := rfl
  fifo := rfl
  bounded := Nat.zero_le _
  parked := fun _ => rfl
  drained := by simp [Starves]

/-- A call whose slot has been filled does not starve. -/
theorem Starves.of_filled {c c' : Channel T} {call : Nat} {value : T} (hstarves : c'.Starves)
    (hclosing : c'.closing = c.closing) (hresuming : c'.resuming = c.resuming ++ [call])
    (hslots : c'.slots = Function.update c.slots call (some value)) (hgiven : c'.given = c.given) :
    c.Starves := by
  unfold Starves at hstarves
  rw [hclosing, hresuming, hslots, hgiven] at hstarves
  rcases hstarves with hclosing | ⟨other, hother, hslot⟩ | hnothing
  · exact .inl hclosing
  · have hne : other ≠ call := by
      rintro rfl
      simp at hslot
    refine .inr (.inl ⟨other, ?_, ?_⟩)
    · simpa [hne] using hother
    · simpa [hne] using hslot
  · exact .inr (.inr hnothing)

namespace Ordered

variable {capacity : Nat} {c : Channel T} (h : Ordered capacity c)
include h

theorem not_starves (hopen : c.state.closed = false) : ¬ c.Starves := fun hstarves => by
  rw [(h.drained hstarves).1] at hopen
  cases hopen

theorem send (hcan : c.state.canPush = true) (value : T) : Ordered capacity (c.send value) := by
  rcases send_cases c value with ⟨-, heq⟩ | ⟨w, ws, hopen, hparked, heq⟩ | ⟨hopen, hparked, heq⟩
  · rw [heq]
    exact h
  · -- nothing is queued before the value
    have hqueue : c.state.queue = [] := h.parked (by simp [hparked])
    have hnot := h.not_starves hopen
    rw [heq]
    refine ⟨h.limit, ?_, h.bounded, fun _ => hqueue, fun hstarves => absurd ?_ hnot⟩
    · show c.accepted ++ [value] = (c.handedOut ++ [(w, value)]).map (·.2) ++ c.state.queue
      rw [h.fifo, hqueue, List.map_append, List.append_nil, List.append_nil]
      rfl
    · exact Starves.of_filled hstarves rfl rfl rfl rfl
  · have hroom : c.state.queue.length < c.state.capacity := by
      simpa [ChannelState.canPush, hopen, hparked] using hcan
    have hnot := h.not_starves hopen
    rw [heq]
    refine ⟨h.limit, ?_, ?_, fun hne => absurd hparked hne,
      fun hstarves => absurd hstarves hnot⟩
    · show c.accepted ++ [value] = c.handedOut.map (·.2) ++ (c.state.queue ++ [value])
      rw [h.fifo, List.append_assoc]
    · show (c.state.queue ++ [value]).length ≤ capacity
      rw [List.length_append, ← h.limit]
      exact hroom

/-- The first value of the queue is handed out. -/
theorem fifo_of_taken {value : T} {queue : List T} (hqueue : c.state.queue = value :: queue)
    (call : Nat) : c.accepted = (c.handedOut ++ [(call, value)]).map (·.2) ++ queue := by
  rw [h.fifo, hqueue, List.map_append, List.append_assoc]
  rfl

theorem taken {value : T} {queue : List T} (hqueue : c.state.queue = value :: queue) :
    queue.length ≤ capacity ∧ c.state.asyncReceivers = [] ∧ ¬ c.Starves := by
  have hbounded := h.bounded
  rw [hqueue, List.length_cons] at hbounded
  refine ⟨by omega, ?_, fun hstarves => ?_⟩
  · by_contra hne
    rw [h.parked hne] at hqueue
    cases hqueue
  · rw [(h.drained hstarves).2] at hqueue
    cases hqueue

theorem recv : Ordered capacity c.recv := by
  rcases recv_cases c with ⟨value, queue, hqueue, heq⟩ | ⟨hqueue, hclosed, heq⟩ |
    ⟨hqueue, hopen, heq⟩
  · obtain ⟨hbounded, hparked, hnot⟩ := h.taken hqueue
    rw [heq]
    refine ⟨h.limit, h.fifo_of_taken hqueue _, hbounded, fun hne => absurd hparked hne,
      fun hstarves => absurd ?_ hnot⟩
    exact Starves.of_filled hstarves rfl rfl rfl rfl
  · rw [heq]
    exact ⟨h.limit, h.fifo, h.bounded, h.parked, fun _ => ⟨hclosed, hqueue⟩⟩
  · have hnot := h.not_starves hopen
    rw [heq]
    exact ⟨h.limit, h.fifo, h.bounded, fun _ => hqueue, fun hstarves => absurd hstarves hnot⟩

theorem syncRecv (hcan : c.state.canRecv = true) : Ordered capacity c.syncRecv := by
  rcases syncRecv_cases c with ⟨value, queue, hqueue, heq⟩ | ⟨hqueue, heq⟩
  · obtain ⟨hbounded, hparked, hnot⟩ := h.taken hqueue
    rw [heq]
    refine ⟨h.limit, h.fifo_of_taken hqueue _, hbounded, fun hne => absurd hparked hne,
      fun hstarves => absurd ?_ hnot⟩
    rcases hstarves with hclosing | hresuming | ⟨call, hgiven⟩
    · exact .inl hclosing
    · exact .inr (.inl hresuming)
    · exact .inr (.inr ⟨call, by simpa using hgiven⟩)
  · -- a thread that finds nothing has been woken by `close`
    have hclosed : c.state.closed = true := by
      simpa [ChannelState.canRecv, hqueue] using hcan
    rw [heq]
    exact ⟨h.limit, h.fifo, h.bounded, h.parked, fun _ => ⟨hclosed, hqueue⟩⟩

theorem resume {call : Nat} (hcall : call ∈ c.resuming) : Ordered capacity (c.resume call) := by
  refine ⟨h.limit, h.fifo, h.bounded, h.parked, fun hstarves => h.drained ?_⟩
  rcases hstarves with hclosing | ⟨other, hother, hslot⟩ | ⟨other, hother⟩
  · exact .inl hclosing
  · exact .inr (.inl ⟨other, List.mem_of_mem_erase hother, hslot⟩)
  · rcases List.mem_append.mp hother with hgiven | hnew
    · exact .inr (.inr ⟨other, hgiven⟩)
    · -- it returns what is in its slot
      obtain ⟨rfl, hslot⟩ := Prod.mk.inj (List.mem_singleton.mp hnew)
      exact .inr (.inl ⟨other, hcall, hslot.symm⟩)

theorem close : Ordered capacity c.close := by
  rcases close_cases c with ⟨-, heq⟩ | ⟨hopen, heq⟩
  · rw [heq]
    exact h
  · have hnot := h.not_starves hopen
    rw [heq]
    refine ⟨h.limit, h.fifo, h.bounded, fun hne => absurd rfl hne, fun hstarves => ⟨rfl, ?_⟩⟩
    rcases hstarves with hclosing | hresuming | hgiven
    · -- the queue is empty while a receiver is parked
      refine h.parked fun hparked => hclosing ?_
      show c.closing ++ c.state.asyncReceivers = []
      rw [hparked, List.append_nil]
      exact not_not.mp fun hne => hnot (.inl hne)
    · exact absurd (.inr (.inl hresuming)) hnot
    · exact absurd (.inr (.inr hgiven)) hnot

theorem closeNext : Ordered capacity c.closeNext := by
  rcases closeNext_cases c with heq | ⟨w, ws, hclosing, heq⟩
  · rw [heq]
    exact h
  · rw [heq]
    exact ⟨h.limit, h.fifo, h.bounded, h.parked, fun _ => h.drained (.inl (by simp [hclosing]))⟩

end Ordered

end Channel

end DynamoCpp.Runtime
