import DynamoCpp.Basic
import DynamoCpp.Framework.Document
import DynamoCpp.Framework.System

/-! # One response stream on the data plane

    A request that reached its worker: `EngineIngress::handle` on the worker,
    `serve_data_connection` in the requester's process, the channel between
    that connection thread and the typed stream, and the requester's
    `await_arrival` and `typed_stream`.  The worker calls home, sends a
    prologue, pumps the engine's items and ends with a sentinel.

    Frames arrive in order.  The socket can be lost at any point, with any
    suffix of the frames in flight; writes to a lost socket may still appear
    to succeed.  A shutdown of the requester's data plane server is a loss too.
-/

namespace DynamoCpp.Transports

open Framework

/-! ## Frames -/

/-- A response item with its JSON text, which is never empty: `none` if a string of the
    item is not UTF-8, and `dump` throws. -/
structure Item where
  text     : Option Bytes
  nonempty : text ≠ some []
  deriving DecidableEq

/-- Frames from the worker to the requester. -/
inductive StreamFrame where
  | handshake
  | prologue (error : Option Bytes)
  | data (item : Item)
  | sentinel
  deriving DecidableEq

/-- Frames from the requester to the worker. -/
inductive ControlKind where
  | stop
  | kill
  deriving DecidableEq

/-- What stays fixed during a call. -/
structure Call where
  requestType     : Bytes := str "single_in"
  responseType    : Bytes := str "many_out"
  recvBufferCount : Nat := 64
  /-- `Socket::max_frame_bytes()` of the requester. -/
  maxFrameBytes   : Nat := 256 * 1024 * 1024
  /-- Length of the JSON header of a frame without data. -/
  headerLen       : StreamFrame → Nat

/-- `header_len + body_len <= max_frame_bytes()`; a larger frame makes
    `read_frame` throw. -/
def Call.fits (c : Call) : StreamFrame → Bool
  | .data item => (item.text.getD []).length ≤ c.maxFrameBytes
  | f => c.headerLen f ≤ c.maxFrameBytes

/-- How the frame after the handshake is understood: a frame without a header
    ends the connection, any header without an `error` field opens the stream. -/
def StreamFrame.asPrologue : StreamFrame → Option (Option Bytes)
  | .data _ => none
  | .prologue error => some error
  | .handshake => some none
  | .sentinel => some none

/-! ## State -/

inductive WorkerPc where
  /-- In `StreamSender::connect`. -/
  | calling
  | starting
  | pumping
  /-- About to run `StreamSender::finish`, called or by the destructor. -/
  | finishing
  /-- The sentinel was written; waiting for the requester to close. -/
  | closing
  | gone
  deriving DecidableEq

/-- How the engine's stream ended. -/
inductive EngineEnd where
  | normal
  | exception
  deriving DecidableEq

/-- Where `serve_data_connection` stands. -/
inductive ServerPc where
  | handshake
  | prologue
  | reading
  /-- The connection thread is done, the channel is closed. -/
  | closed
  deriving DecidableEq

inductive RequesterPc where
  | awaiting
  | streaming
  /-- `recv` gave nullopt and the AbandonGuard was marked completed. -/
  | completed
  | failed (error : Bytes)
  | abandoned
  deriving DecidableEq

/-- `StreamArrival`. -/
inductive Arrival where
  | error (e : Bytes)
  | stream
  deriving DecidableEq

/-- The worker's process. -/
structure Worker where
  pc        : WorkerPc := .calling
  /-- Every item the engine's stream produced. -/
  items     : List Item := []
  engineEnd : Option EngineEnd := none
  stopped   : Bool := false
  killed    : Bool := false

/-- The requester's process: the connection thread, the channel it fills, the
    typed stream and the request context. -/
structure Home where
  server       : ServerPc := .handshake
  channel      : List Item := []
  receiverOpen : Bool := true
  arrival      : Option Arrival := none
  requester    : RequesterPc := .awaiting
  received     : List Item := []
  stopped      : Bool := false
  killed       : Bool := false

structure Session where
  worker   : Worker := {}
  /-- The socket between them was lost. -/
  lost     : Bool := false
  wire     : List StreamFrame := []
  controls : List ControlKind := []
  home     : Home := {}

/-- The requester called stop or kill, or dropped the stream. -/
def Home.signalled (h : Home) : Bool := h.stopped || h.killed

/-! ## The worker

    Each move gives the new worker and the frames it writes. -/

/-- What happened up to the call of `generate`. -/
inductive Start where
  | badPayload (what : Bytes)
  | threw (what : Bytes)
  /-- `generate` threw something that is not a `std::exception`. -/
  | threwOther
  | generated

/-- What one `stream.next()` gave. -/
inductive Next where
  | yield (item : Item)
  | ended
  | threw

/-- `StreamSender::connect`. -/
def Worker.connect (w : Worker) (ok : Bool) : Worker × List StreamFrame :=
  if ok then ({ w with pc := .starting }, [.handshake]) else ({ w with pc := .gone }, [])

/-- The error sent in the prologue, if any. -/
def prologueError (c : Call) (s : Start) : Option Bytes :=
  if c.requestType ≠ str "single_in" then
    some (str "request_type '" ++ c.requestType ++ str "' is not supported (single_in only)")
  else
    match s with
    | .badPayload what => some (str "invalid request payload: " ++ what)
    | .threw what => some what
    | .threwOther => none
    | .generated => none

/-- A prologue is sent: nobody catches what is not a `std::exception`, nor what the `dump`
    of an error throws that is not UTF-8. -/
def Start.sends (c : Call) (s : Start) : Bool :=
  match prologueError c s, s with
  | some e, _ => IsUtf8 e
  | none, .threwOther => false
  | none, _ => true

/-- `handle` from the request type check to the prologue.  Without a prologue the
    destructor of the sender still finishes the stream. -/
def Worker.start (c : Call) (w : Worker) (s : Start) : Worker × List StreamFrame :=
  if s.sends c = false then ({ w with pc := .finishing }, [])
  else
    match prologueError c s with
    | some e => ({ w with pc := .finishing }, [.prologue (some e)])
    | none => ({ w with pc := .pumping }, [.prologue none])

/-- One round of the pump; `ok` is the result of the write. -/
def Worker.pump (c : Call) (w : Worker) (n : Next) (ok : Bool) : Worker × List StreamFrame :=
  match n with
  | .ended => ({ w with engineEnd := some .normal, pc := .finishing }, [])
  | .threw => ({ w with engineEnd := some .exception, pc := .finishing }, [])
  | .yield item =>
    let w := { w with items := w.items ++ [item] }
    if w.killed then ({ w with pc := .finishing }, [])
    -- what `dump` throws leaves `handle`, and the destructor finishes the stream
    else if item.text = none then ({ w with pc := .finishing }, [])
    else if ok = false then ({ w with stopped := true, pc := .finishing }, [])
    else if c.responseType = str "single_out" then
      ({ w with stopped := true, pc := .finishing }, [.data item])
    else (w, [.data item])

/-- `StreamSender::finish` up to the sentinel. -/
def Worker.finish (w : Worker) : Worker × List StreamFrame :=
  ({ w with pc := .closing }, [.sentinel])

/-- The reader thread relays a control frame. -/
def Worker.control (w : Worker) : ControlKind → Worker
  | .stop => { w with stopped := true }
  | .kill => { w with stopped := true, killed := true }

/-! ## The requester

    Each move gives the new state and the control frames it writes. -/

/-- The stop and kill hooks fire at once if the context was already signalled. -/
def Home.hooks (h : Home) : List ControlKind :=
  (if h.stopped then [.stop] else []) ++ (if h.killed then [.kill] else [])

/-- `serve_data_connection` on its next frame.  `none`: the channel is full and
    the send blocks. -/
def Home.serve (c : Call) (h : Home) (f : StreamFrame) : Option (Home × List ControlKind) :=
  if c.fits f = false then some ({ h with server := .closed }, [])
  else
    match h.server with
    | .closed => none
    | .handshake =>
      match f, h.requester with
      -- a requester that timed out has deregistered the subject
      | .handshake, .failed _ => some ({ h with server := .closed }, [])
      | .handshake, _ => some ({ h with server := .prologue }, [])
      | _, _ => some ({ h with server := .closed }, [])
    | .prologue =>
      match f.asPrologue with
      | none => some ({ h with server := .closed }, [])
      | some (some e) => some ({ h with server := .closed, arrival := some (.error e) }, [])
      | some none => some ({ h with server := .reading, arrival := some .stream }, h.hooks)
    | .reading =>
      match f with
      | .data item =>
        if h.receiverOpen = false then some ({ h with server := .closed }, [.kill])
        -- an item for an empty channel is handed to the parked receiver
        else if h.channel.length < max c.recvBufferCount 1 then
          some ({ h with channel := h.channel ++ [item] }, [])
        else none
      | _ => some ({ h with server := .closed }, [])

/-- `await_arrival` after the worker's outcome arrived. -/
def Home.arrive (h : Home) : Option Home :=
  match h.requester, h.arrival with
  | .awaiting, some (.error e) =>
    some { h with requester := .failed (str "remote generate failed: " ++ e) }
  | .awaiting, some .stream => some { h with requester := .streaming }
  | _, _ => none

/-- The arrival timer fires before anything arrived. -/
def Home.timeout (h : Home) : Option Home :=
  match h.requester, h.arrival with
  | .awaiting, none =>
    some { h with
      requester := .failed
        (str "remote generate failed: timed out waiting for the worker's call-home")
      receiverOpen := false }
  | _, _ => none

/-- One `recv` of the typed stream: items stay readable after the channel closed. -/
def Home.recv (h : Home) : Option Home :=
  if h.requester = .streaming then
    match h.channel with
    | item :: rest => some { h with channel := rest, received := h.received ++ [item] }
    | [] => if h.server = .closed then some { h with requester := .completed } else none
  else none

/-- `stop_generating` on the request context; the hook relays it once. -/
def Home.stop (h : Home) : Home × List ControlKind :=
  if h.stopped then (h, [])
  else ({ h with stopped := true }, if h.server = .reading then [.stop] else [])

/-- `kill` on the request context: it stops first. -/
def Home.kill (h : Home) : Home × List ControlKind :=
  if h.killed then (h, [])
  else
    ({ h.stop.1 with killed := true },
      h.stop.2 ++ if h.server = .reading then [.kill] else [])

/-- The consumer destroys the stream before its end, and the guard kills. -/
def Home.abandon (h : Home) : Home × List ControlKind :=
  ({ h.kill.1 with requester := .abandoned, receiverOpen := false }, h.kill.2)

/-! ## Runs -/

inductive Move where
  | connect (ok : Bool)
  | start (s : Start)
  | next (n : Next) (ok : Bool)
  | finish
  | hangUp
  | control
  | lose (kept : Nat)
  | read
  | arrive
  | timeout
  | recv
  | stop
  | kill
  | abandon

/-- Nothing written to the socket arrives any more. -/
def Session.dead (σ : Session) : Bool := σ.lost || σ.home.server == .closed

/-- The worker moves and its frames go on the wire. -/
def Session.workerStep (σ : Session) (r : Worker × List StreamFrame) : Session :=
  { σ with worker := r.1, wire := if σ.dead then σ.wire else σ.wire ++ r.2 }

/-- The requester moves and its control frames go to the worker. -/
def Session.homeStep (σ : Session) (r : Home × List ControlKind) : Session :=
  { σ with home := r.1, controls := if σ.lost then σ.controls else σ.controls ++ r.2 }

/-- The socket is lost with the frames after the first `kept` ones. -/
def Session.lose (σ : Session) (kept : Nat) : Session :=
  { σ with lost := true, wire := σ.wire.take kept, controls := [] }

/-- The connection thread reads: a frame, or the end of a socket that is gone. -/
def Session.read (c : Call) (σ : Session) : Option Session :=
  if σ.home.server = .closed then none
  else
    match σ.wire with
    | f :: rest => (σ.home.serve c f).map { σ with wire := rest }.homeStep
    | [] =>
      if σ.lost = true ∨ σ.worker.pc = .gone then
        some { σ with home := { σ.home with server := .closed } }
      else none

def Move.exec (c : Call) (σ : Session) : Move → Option Session
  | .connect ok =>
    if σ.worker.pc = .calling then some (σ.workerStep (σ.worker.connect ok)) else none
  | .start s =>
    if σ.worker.pc = .starting then some (σ.workerStep (σ.worker.start c s)) else none
  | .next n ok =>
    -- a write to a dead socket may still report success
    if σ.worker.pc = .pumping then
      some (σ.workerStep (σ.worker.pump c n (if σ.dead then ok else true)))
    else none
  | .finish => if σ.worker.pc = .finishing then some (σ.workerStep σ.worker.finish) else none
  | .hangUp =>
    if σ.worker.pc = .closing then some (σ.workerStep ({ σ.worker with pc := .gone }, []))
    else none
  | .control =>
    match σ.controls with
    | [] => none
    | k :: rest => some ({ σ with controls := rest }.workerStep (σ.worker.control k, []))
  | .lose kept => if σ.lost then none else some (σ.lose kept)
  | .read => σ.read c
  | .arrive => σ.home.arrive.map fun h => σ.homeStep (h, [])
  | .timeout => σ.home.timeout.map fun h => σ.homeStep (h, [])
  | .recv => σ.home.recv.map fun h => σ.homeStep (h, [])
  | .stop => some (σ.homeStep σ.home.stop)
  | .kill => some (σ.homeStep σ.home.kill)
  | .abandon =>
    if σ.home.requester = .streaming then some (σ.homeStep σ.home.abandon) else none

/-- One call, from the moment the worker starts to handle it. -/
def stream (c : Call) : System Session Move where
  init := {}
  exec := Move.exec c

/-! ## Harmless steps -/

/-- What the connection thread will make of the frames in flight: `some true`
    if it opens the stream, `some false` if it ends without, `none` if it still
    waits. -/
def verdict (c : Call) : ServerPc → List StreamFrame → Option Bool
  | .reading, _ => some true
  | .closed, _ => some false
  | .handshake, .handshake :: fs =>
    if c.fits .handshake then
      match fs with
      | [] => none
      | f :: _ => some (c.fits f && f.asPrologue == some none)
    else some false
  | .handshake, _ :: _ => some false
  | .prologue, f :: _ => some (c.fits f && f.asPrologue == some none)
  | .handshake, [] => none
  | .prologue, [] => none

/-- The requester will never be given a stream. -/
def Session.Sealed (c : Call) (σ : Session) : Prop :=
  σ.home.requester = .awaiting ∧ σ.home.arrival ≠ some .stream ∧
    (verdict c σ.home.server σ.wire = some false ∨
      (verdict c σ.home.server σ.wire = none ∧ σ.lost = true))

instance (c : Call) (σ : Session) : Decidable (σ.Sealed c) :=
  inferInstanceAs (Decidable (_ ∧ _))

/-- The items among the frames. -/
def dataOf (fs : List StreamFrame) : List Item :=
  fs.filterMap fun f =>
    match f with
    | .data item => some item
    | _ => none

/-- The step is not one of those that end a stream early without an error:
    an exception of the engine, an error or an item that cannot be dumped, an
    item too large for a frame, and a loss of the socket before the engine
    ended and its last item was read.  None of them matters if the requester
    never gets the stream. -/
def harmless (c : Call) (σ : Session) : Move → Bool
  | .start s => s.sends c || decide (σ.Sealed c)
  | .next .threw _ => decide (σ.Sealed c)
  | .next (.yield item) _ =>
    item.text.isSome && c.fits (.data item) || decide (σ.Sealed c)
  | .lose kept =>
    decide ((σ.lose kept).Sealed c) ||
      (σ.worker.engineEnd = some .normal && (dataOf (σ.wire.drop kept)).isEmpty)
  | _ => true

end DynamoCpp.Transports
