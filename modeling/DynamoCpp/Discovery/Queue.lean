import DynamoCpp.Discovery.InProcess
import DynamoCpp.Discovery.Process
import DynamoCpp.Framework.RoundRobin

/-! # Work queues

    `queue_dispatch` of discoveryd and of the in-process backend: a payload goes to one
    subscriber of its subject, in turn.  Both loop over the subscribers of the subject
    from a cursor that they keep for it, drop those that cannot be reached and stop at
    the first that can.  The cursor is a natural number; it does not reach 2^64.
-/

namespace DynamoCpp.Discovery

open Framework

namespace InProcess

/-! ## The in-process backend -/

structure Subscriber where
  subject : Bytes
  sink    : Nat
  deriving DecidableEq

structure Event where
  subject : Bytes
  payload : Bytes
  deriving DecidableEq

/-- The part of the store that belongs to subjects.  The operations on it leave the rest
    of the store alone, and those on the rest leave it alone. -/
structure Queues where
  subscribers : List Subscriber := []
  queueCursor : OrdMap Bytes Nat := ∅

/-- One `sink.send` and whether it succeeded. -/
structure EventSent where
  sink  : Nat
  event : Event
  ok    : Bool
  deriving DecidableEq

def subscribe (q : Queues) (subject : Bytes) (sink : Nat) : Queues :=
  { q with subscribers := q.subscribers ++ [⟨subject, sink⟩] }

/-- The loop of `publish`: subscribers whose channel is closed are erased. -/
def publishLoop (net : Nat → Bool) (event : Event) :
    List Subscriber → List EventSent → List Subscriber × List EventSent
  | [], sent => ([], sent)
  | e :: es, sent =>
    if e.subject = event.subject then
      let rest := publishLoop net event es (sent ++ [⟨e.sink, event, net sent.length⟩])
      -- `net` says whether the channel is open
      if net sent.length then (e :: rest.1, rest.2) else rest
    else
      let rest := publishLoop net event es sent
      (e :: rest.1, rest.2)

def publish (net : Nat → Bool) (q : Queues) (subject payload : Bytes) : Queues × List EventSent :=
  let r := publishLoop net ⟨subject, payload⟩ q.subscribers []
  ({ q with subscribers := r.1 }, r.2)

def queueDispatch (net : Nat → Bool) (q : Queues) (subject payload : Bytes) :
    Except Bytes Unit × Queues × List EventSent :=
  let matching := group (fun e => decide (e.subject = subject)) q.subscribers
  let cursor := (q.queueCursor[subject]?).getD 0
  let r := roundRobin net matching matching.length cursor []
  let sent := r.2.map fun p => ⟨p.1.1.sink, ⟨subject, payload⟩, p.2⟩
  -- the cursor and the closed subscribers move even if nobody is reached
  let q :=
    { subscribers := eraseAt q.subscribers (failures r.2)
      queueCursor := q.queueCursor.insert subject r.1 }
  if r.2.any (·.2) then (.ok (), q, sent)
  else (.error (str "no responders for queue subject " ++ subject), q, sent)

/-- The operations on subjects; each runs under the store mutex. -/
inductive QueueOp where
  | subscribe (subject : Bytes) (sink : Nat)
  | publish (net : Nat → Bool) (subject payload : Bytes)
  | queueDispatch (net : Nat → Bool) (subject payload : Bytes)

def QueueOp.exec (q : Queues) : QueueOp → Queues
  | .subscribe subject sink => InProcess.subscribe q subject sink
  | .publish net subject payload => (InProcess.publish net q subject payload).1
  | .queueDispatch net subject payload => (InProcess.queueDispatch net q subject payload).2.1

def queues : System Queues QueueOp where
  init := {}
  exec := fun q op => some (op.exec q)

end InProcess

/-! ## The loop of discoveryd -/

/-- The frame that an attempt writes. -/
def attemptWrite (subject data : Bytes) (p : (Subscriber × Nat) × Bool) : Write :=
  ⟨p.1.1.conn, .event p.1.1.id subject data, p.2⟩

/-- Where a dispatch stands after some attempts. -/
def DispatchState.after (subject data : Bytes) (cursor : Nat)
    (tried : List ((Subscriber × Nat) × Bool)) : DispatchState :=
  ⟨tried.any (·.2), cursor, (failures tried).reverse, tried.map (attemptWrite subject data)⟩

/-- The loop is a round robin. -/
theorem dispatchLoop_eq (net : Net) (subject data : Bytes) (matching : List (Subscriber × Nat)) :
    ∀ (n cursor : Nat) (tried : List ((Subscriber × Nat) × Bool)),
      dispatchLoop net subject data matching n (.after subject data cursor tried) =
        .after subject data (roundRobin net matching n cursor tried).1
          (roundRobin net matching n cursor tried).2 := by
  intro n
  induction n with
  | zero => exact fun _ _ => rfl
  | succ n ih =>
    intro cursor tried
    have hlength : (tried.map (attemptWrite subject data)).length = tried.length :=
      List.length_map _
    cases hget : matching[cursor % matching.length]? with
    | none => simp only [dispatchLoop, roundRobin, DispatchState.after, hget]
    | some e =>
      simp only [dispatchLoop, roundRobin, DispatchState.after, hget, hlength, write]
      cases hnet : net tried.length with
      | true =>
        simp [failures, attemptWrite]
      | false =>
        have hnext := ih (cursor + 1) (tried ++ [(e, false)])
        simp only [Bool.false_eq_true, if_false]
        rw [← DispatchState.after, ← hnext]
        congr 1
        simp [DispatchState.after, failures, attemptWrite]

/-! ## One dispatch -/

def queueMember (subject : Bytes) (e : Subscriber) : Bool := e.subject = subject

def queueCursorOf (s : Server) (subject : Bytes) : Nat := (s.queueCursor[subject]?).getD 0

/-- The subscribers of a subject, with their positions. -/
def queueGroup (s : Server) (subject : Bytes) : List (Subscriber × Nat) :=
  group (queueMember subject) s.subscribers

section dispatch

variable {net : Net} {s : Server} {subject : Bytes} {live : Nat → Bool}
  (hnet : Answers net (fun e => live e.2) (queueGroup s subject) (queueCursorOf s subject))
include hnet

/-- A dispatch sweeps the group of the subject from the cursor. -/
theorem queueDispatch_eq (req : Nat) (data : Bytes) {tried : List ((Subscriber × Nat) × Bool)}
    (htried : tried = sweep (fun e => live e.2)
      ((queueGroup s subject).rotate (queueCursorOf s subject))) :
    queueDispatch net s req subject data =
      ⟨{ s with
          subscribers := eraseAt s.subscribers (failures tried)
          queueCursor := s.queueCursor.insert subject (queueCursorOf s subject + tried.length) },
        tried.map (attemptWrite subject data),
        { reply := req
          ok := tried.any (·.2)
          error := if tried.any (·.2) then none
            else some (str "no responders for queue subject " ++ subject) }⟩ := by
  -- the loop has tried the group up to the first member that is live
  have hloop : dispatchLoop net subject data (queueGroup s subject) (queueGroup s subject).length
      ⟨false, queueCursorOf s subject, [], []⟩ =
        .after subject data (queueCursorOf s subject + tried.length) tried := by
    have hround := dispatchLoop_eq net subject data (queueGroup s subject)
      (queueGroup s subject).length (queueCursorOf s subject) []
    rw [roundRobin_round hnet, ← htried] at hround
    exact hround
  have herased : (s.subscribers.zipIdx.filter fun e => e.2 ∉ (DispatchState.after subject data
      (queueCursorOf s subject + tried.length) tried).erased).map (·.1) =
      eraseAt s.subscribers (failures tried) := by
    unfold eraseAt
    simp only [DispatchState.after, List.mem_reverse]
  unfold queueDispatch
  rw [show (s.subscribers.zipIdx.filter fun e => e.1.subject = subject) = queueGroup s subject
    from rfl, show (s.queueCursor[subject]?).getD 0 = queueCursorOf s subject from rfl]
  dsimp only
  rw [hloop, herased]
  by_cases hok : tried.any (·.2) = true
  · simp only [DispatchState.after, hok, if_true]
  · simp only [DispatchState.after, hok, Bool.false_eq_true, if_false]

/-- **One dispatch of discoveryd**: the attempts, and what they leave behind. -/
theorem queueDispatch_dispatched (req : Nat) (data : Bytes) :
    ∃ tried, Dispatched (queueMember subject) live s.subscribers
        (queueDispatch net s req subject data).server.subscribers tried
        (queueDispatch net s req subject data).reply.ok ∧
      (queueDispatch net s req subject data).out = tried.map (attemptWrite subject data) ∧
      ∀ other, other ≠ subject →
        (queueDispatch net s req subject data).server.queueCursor[other]? =
          s.queueCursor[other]? := by
  refine ⟨sweep (fun e => live e.2) ((queueGroup s subject).rotate (queueCursorOf s subject)), ?_⟩
  rw [queueDispatch_eq hnet req data rfl]
  refine ⟨dispatched_sweep live _ rfl, rfl, fun other hother => ?_⟩
  rw [OrdMap.get_insert, if_neg hother]

end dispatch

namespace InProcess

/-! The same for the in-process backend. -/

def queueMember (subject : Bytes) (e : Subscriber) : Bool := e.subject = subject

def queueCursorOf (q : Queues) (subject : Bytes) : Nat := (q.queueCursor[subject]?).getD 0

def queueGroup (q : Queues) (subject : Bytes) : List (Subscriber × Nat) :=
  group (queueMember subject) q.subscribers

/-- What an attempt sends. -/
def attemptSent (subject payload : Bytes) (p : (Subscriber × Nat) × Bool) : EventSent :=
  ⟨p.1.1.sink, ⟨subject, payload⟩, p.2⟩

section dispatch

variable {net : Nat → Bool} {q : Queues} {subject : Bytes} {live : Nat → Bool}
  (hnet : Answers net (fun e => live e.2) (queueGroup q subject) (queueCursorOf q subject))
include hnet

theorem queueDispatch_eq (payload : Bytes) {tried : List ((Subscriber × Nat) × Bool)}
    (htried : tried = sweep (fun e => live e.2)
      ((queueGroup q subject).rotate (queueCursorOf q subject))) :
    queueDispatch net q subject payload =
      (if tried.any (·.2) then .ok ()
        else .error (str "no responders for queue subject " ++ subject),
        { subscribers := eraseAt q.subscribers (failures tried)
          queueCursor := q.queueCursor.insert subject (queueCursorOf q subject + tried.length) },
        tried.map (attemptSent subject payload)) := by
  have hround := roundRobin_round hnet
  rw [← htried] at hround
  unfold queueDispatch
  rw [show group (fun e => decide (e.subject = subject)) q.subscribers = queueGroup q subject
    from rfl, show (q.queueCursor[subject]?).getD 0 = queueCursorOf q subject from rfl]
  dsimp only
  rw [hround]
  cases tried.any (·.2) <;> rfl

/-- **One dispatch of the in-process backend.** -/
theorem queueDispatch_dispatched (payload : Bytes) :
    ∃ tried, Dispatched (queueMember subject) live q.subscribers
        (queueDispatch net q subject payload).2.1.subscribers tried
        (queueDispatch net q subject payload).1.isOk ∧
      (queueDispatch net q subject payload).2.2 = tried.map (attemptSent subject payload) ∧
      ∀ other, other ≠ subject →
        (queueDispatch net q subject payload).2.1.queueCursor[other]? =
          q.queueCursor[other]? := by
  obtain ⟨tried, htried⟩ : ∃ tried, tried = sweep (fun e => live e.2)
      ((queueGroup q subject).rotate (queueCursorOf q subject)) := ⟨_, rfl⟩
  have hisOk : (if tried.any (·.2) then Except.ok ()
      else .error (str "no responders for queue subject " ++ subject)).isOk = tried.any (·.2) := by
    split
    · next hok => exact hok.symm
    · next hfail => exact (eq_false_of_ne_true hfail).symm
  have hdispatched : Dispatched (queueMember subject) live q.subscribers _ tried _ :=
    dispatched_sweep live _ htried
  rw [← hisOk] at hdispatched
  rw [queueDispatch_eq hnet payload htried]
  refine ⟨tried, hdispatched, rfl, fun other hother => ?_⟩
  rw [OrdMap.get_insert, if_neg hother]

end dispatch

end InProcess

/-! ## Turns -/

/-- The subscribers of a subject. -/
def queueMembers (s : Server) (subject : Bytes) : List Subscriber :=
  s.subscribers.filter (queueMember subject)

/-- The connection and the id by which a subscriber is reached. -/
def Subscriber.address (e : Subscriber) : ConnId × Nat := (e.conn, e.id)

/-- The subscriber that an event has reached. -/
def Write.recipient : Write → Option (ConnId × Nat)
  | ⟨c, .event subId _ _, true⟩ => some (c, subId)
  | _ => none

def Step.dispatches (subject : Bytes) : Step → Bool
  | .request _ _ _ _ (.queueDispatch subject' _) => subject' = subject
  | _ => false

/-- The subscribers that a step has reached by a dispatch on the subject. -/
def queueServed (subject : Bytes) (s : Server) : Step → List (ConnId × Nat)
  | .request net _ _ req (.queueDispatch subject' data) =>
    if subject' = subject then
      (queueDispatch net s req subject data).out.filterMap Write.recipient
    else []
  | _ => []

theorem recipients_attemptWrite (subject data : Bytes) (tried : List ((Subscriber × Nat) × Bool)) :
    (tried.map (attemptWrite subject data)).filterMap Write.recipient =
      (tried.filter (·.2)).map fun p => p.1.1.address := by
  induction tried with
  | nil => rfl
  | cons p tried ih =>
    obtain ⟨e, ok⟩ := p
    cases ok with
    | true => exact congrArg (e.1.address :: ·) ih
    | false => exact ih

/-- If nobody is dropped, a dispatch serves the member at the cursor. -/
theorem queueDispatch_steady (net : Net) (s : Server) (req : Nat) (subject data : Bytes)
    (hsame : queueMembers (queueDispatch net s req subject data).server subject =
      queueMembers s subject) :
    (queueDispatch net s req subject data).out.filterMap Write.recipient =
        ((queueMembers s subject).map (·.address))[queueCursorOf s subject %
          ((queueMembers s subject).map (·.address)).length]?.toList ∧
      (queueMembers s subject ≠ [] →
        queueCursorOf (queueDispatch net s req subject data).server subject =
          queueCursorOf s subject + 1) := by
  obtain ⟨live, hnet⟩ := @exists_answers _ (queueMember subject) s.subscribers net
    (queueCursorOf s subject)
  obtain ⟨tried, htried⟩ : ∃ tried, tried = sweep (fun e => live e.2)
      ((queueGroup s subject).rotate (queueCursorOf s subject)) := ⟨_, rfl⟩
  rw [queueDispatch_eq hnet req data htried] at hsame ⊢
  obtain ⟨hserved, hlength⟩ := served_steady (·.address) htried hsame
  refine ⟨(recipients_attemptWrite subject data tried).trans hserved, fun hne => ?_⟩
  simp [queueCursorOf, hlength hne]

/-! ### What else moves a cursor -/

theorem storeKey_queueCursor (net : Net) (s : Server) (out : List Write) (key value : Bytes)
    (leaseId : LeaseId) : (storeKey net s out key value leaseId).1.queueCursor = s.queueCursor :=
  rfl

theorem bindLease_queueCursor (s : Server) (key : Bytes) (leaseId : LeaseId) :
    (bindLease s key leaseId).queueCursor = s.queueCursor := by
  unfold bindLease
  split <;> rfl

theorem unbindLeaseLocked_queueCursor (s : Server) (key : Bytes) (leaseId : LeaseId) :
    (unbindLeaseLocked s key leaseId).queueCursor = s.queueCursor := by
  unfold unbindLeaseLocked
  split
  · rfl
  · split <;> rfl

theorem expireLeaseLocked_queueCursor (net : Net) (s : Server) (out : List Write)
    (leaseId : LeaseId) :
    (expireLeaseLocked net s out leaseId).1.queueCursor = s.queueCursor := by
  -- the loop over the keys
  have hkeys : ∀ (keys : List Bytes) (r : Server × List Write),
      (keys.foldl (expireKey net leaseId) r).1.queueCursor = r.1.queueCursor := by
    intro keys
    induction keys with
    | nil => exact fun _ => rfl
    | cons key keys ih =>
      intro r
      have hkey : (expireKey net leaseId r key).1.queueCursor = r.1.queueCursor := by
        unfold expireKey
        split <;> rfl
      rw [List.foldl_cons, ih, hkey]
  unfold expireLeaseLocked
  split
  · rfl
  · exact hkeys _ _

/-- Only dispatches move cursors. -/
theorem handleOp_queueCursor (net : Net) (now : Int) (s : Server) (c : ConnId) (req : Nat)
    {r : Request} (hr : ∀ subject data, r ≠ .queueDispatch subject data) :
    (handleOp net now s c req r).server.queueCursor = s.queueCursor := by
  cases r with
  | queueDispatch subject data => exact absurd rfl (hr subject data)
  | revoke leaseId => exact expireLeaseLocked_queueCursor net s [] leaseId
  | keepalive leaseId =>
    simp only [handleOp, keepalive]
    split <;> rfl
  | kvCreate key value leaseId =>
    simp only [handleOp, kvCreate]
    split
    · rfl
    · split
      · rfl
      · exact bindLease_queueCursor s key leaseId
  | kvPut key value leaseId =>
    simp only [handleOp, kvPut]
    split
    · rfl
    · rw [storeKey_queueCursor]
      split
      · split
        · rw [bindLease_queueCursor, unbindLeaseLocked_queueCursor]
        · rfl
      · exact bindLease_queueCursor s key leaseId
  | kvCreateOrValidate key value leaseId =>
    simp only [handleOp, kvCreateOrValidate]
    split
    · split <;> rfl
    · split
      · rfl
      · exact bindLease_queueCursor s key leaseId
  | _ => rfl

/-- A step that does not dispatch on the subject leaves its cursor. -/
theorem queueCursorOf_step {s s' : Server} {l : Step} (hexec : discoveryd.exec s l = some s')
    {subject : Bytes} (hl : l.dispatches subject = false) :
    queueCursorOf s' subject = queueCursorOf s subject := by
  unfold queueCursorOf
  rcases step_cases hexec with ⟨-, rfl⟩ | ⟨net, now, c, req, r, rfl, -, rfl⟩ | ⟨c, -, -, rfl⟩ |
    ⟨net, now, leaseId, -, -, rfl⟩
  · rfl
  · by_cases hr : ∃ subject' data, r = .queueDispatch subject' data
    · -- a dispatch on another subject
      obtain ⟨subject', data, rfl⟩ := hr
      have hne : subject ≠ subject' := fun h => of_decide_eq_false hl h.symm
      obtain ⟨live, hnet⟩ := @exists_answers _ (queueMember subject') s.subscribers net
        (queueCursorOf s subject')
      obtain ⟨-, -, -, hothers⟩ := queueDispatch_dispatched hnet req data
      show ((queueDispatch net s req subject' data).server.queueCursor[subject]?).getD 0 = _
      rw [hothers subject hne]
    · rw [handleOp_queueCursor net now s c req fun subject' data h => hr ⟨subject', data, h⟩]
  · rfl
  · rw [expireLeaseLocked_queueCursor]

theorem queueServed_other {s : Server} {l : Step} {subject : Bytes}
    (hl : l.dispatches subject = false) : queueServed subject s l = [] := by
  unfold queueServed
  split
  · exact if_neg (of_decide_eq_false hl)
  · rfl

/-- While the subscribers of the subject stay the same, they are served in turn. -/
theorem queueServed_turns {subject : Bytes} {es : List Subscriber} {s : Server} {ls : List Step}
    (h : discoveryd.Along (fun s => queueMembers s subject = es) s ls) :
    discoveryd.collect (queueServed subject) s ls =
      turns (es.map (·.address)) (queueCursorOf s subject) (ls.countP (·.dispatches subject)) := by
  refine @collect_turns _ _ _ _ _ _ _ (fun s => queueCursorOf s subject) _ ?_ ?_ ls s h
  · rintro s l s' hexec rfl hs' hl
    rcases step_cases hexec with ⟨rfl, -⟩ | ⟨net, now, c, req, r, rfl, -, rfl⟩ | ⟨c, rfl, -, -⟩ |
      ⟨net, now, leaseId, rfl, -, -⟩
    · cases hl
    · cases r with
      | queueDispatch subject' data =>
        obtain rfl : subject' = subject := of_decide_eq_true hl
        obtain ⟨hserved, hcursor⟩ := queueDispatch_steady net s req subject' data hs'
        refine ⟨?_, fun hne => hcursor fun hnone => hne ?_⟩
        · rw [← hserved]
          exact if_pos rfl
        · rw [hnone]
          rfl
      | _ => cases hl
    · cases hl
    · cases hl
  · exact fun hexec hl => ⟨queueServed_other hl, queueCursorOf_step hexec hl⟩

namespace InProcess

/-- The subscribers of a subject. -/
def queueMembers (q : Queues) (subject : Bytes) : List Subscriber :=
  q.subscribers.filter (queueMember subject)

def QueueOp.dispatches (subject : Bytes) : QueueOp → Bool
  | .queueDispatch _ subject' _ => subject' = subject
  | _ => false

/-- The channels that an operation has sent to by a dispatch on the subject. -/
def queueServed (subject : Bytes) (q : Queues) : QueueOp → List Nat
  | .queueDispatch net subject' payload =>
    if subject' = subject then
      ((queueDispatch net q subject payload).2.2.filter (·.ok)).map (·.sink)
    else []
  | _ => []

theorem queueDispatch_steady (net : Nat → Bool) (q : Queues) (subject payload : Bytes)
    (hsame : queueMembers (queueDispatch net q subject payload).2.1 subject =
      queueMembers q subject) :
    ((queueDispatch net q subject payload).2.2.filter (·.ok)).map (·.sink) =
        ((queueMembers q subject).map (·.sink))[queueCursorOf q subject %
          ((queueMembers q subject).map (·.sink)).length]?.toList ∧
      (queueMembers q subject ≠ [] →
        queueCursorOf (queueDispatch net q subject payload).2.1 subject =
          queueCursorOf q subject + 1) := by
  obtain ⟨live, hnet⟩ := @exists_answers _ (queueMember subject) q.subscribers net
    (queueCursorOf q subject)
  obtain ⟨tried, htried⟩ : ∃ tried, tried = sweep (fun e => live e.2)
      ((queueGroup q subject).rotate (queueCursorOf q subject)) := ⟨_, rfl⟩
  rw [queueDispatch_eq hnet payload htried] at hsame ⊢
  obtain ⟨hserved, hlength⟩ := served_steady (·.sink) htried hsame
  refine ⟨?_, fun hne => ?_⟩
  · rw [List.filter_map, List.map_map]
    exact hserved
  · simp [queueCursorOf, hlength hne]

theorem queueServed_other {q : Queues} {op : QueueOp} {subject : Bytes}
    (hop : op.dispatches subject = false) : queueServed subject q op = [] := by
  unfold queueServed
  split
  · exact if_neg (of_decide_eq_false hop)
  · rfl

theorem queueCursorOf_exec {q : Queues} {op : QueueOp} {subject : Bytes}
    (hop : op.dispatches subject = false) :
    queueCursorOf (op.exec q) subject = queueCursorOf q subject := by
  cases op with
  | subscribe subject' sink => rfl
  | publish net subject' payload => rfl
  | queueDispatch net subject' payload =>
    have hne : subject ≠ subject' := fun h => of_decide_eq_false hop h.symm
    obtain ⟨live, hnet⟩ := @exists_answers _ (queueMember subject') q.subscribers net
      (queueCursorOf q subject')
    obtain ⟨-, -, -, hothers⟩ := queueDispatch_dispatched hnet payload
    unfold queueCursorOf
    show ((queueDispatch net q subject' payload).2.1.queueCursor[subject]?).getD 0 = _
    rw [hothers subject hne]

theorem queueServed_turns {subject : Bytes} {es : List Subscriber} {q : Queues}
    {ops : List QueueOp} (h : queues.Along (fun q => queueMembers q subject = es) q ops) :
    queues.collect (queueServed subject) q ops =
      turns (es.map (·.sink)) (queueCursorOf q subject) (ops.countP (·.dispatches subject)) := by
  refine @collect_turns _ _ _ _ _ _ _ (fun q => queueCursorOf q subject) _ ?_ ?_ ops q h
  · rintro q op q' hexec rfl hq' hop
    obtain rfl : op.exec q = q' := Option.some.inj hexec
    cases op with
    | queueDispatch net subject' payload =>
      obtain rfl : subject' = subject := of_decide_eq_true hop
      obtain ⟨hserved, hcursor⟩ := queueDispatch_steady net q subject' payload hq'
      refine ⟨?_, fun hne => hcursor fun hnone => hne ?_⟩
      · rw [← hserved]
        exact if_pos rfl
      · rw [hnone]
        rfl
    | _ => cases hop
  · intro q op q' hexec hop
    obtain rfl : op.exec q = q' := Option.some.inj hexec
    exact ⟨queueServed_other hop, queueCursorOf_exec hop⟩

end InProcess

/-- **Work queues deliver to one subscriber, in turn.**  A dispatch, of discoveryd and of
    the in-process backend, reaches exactly one live subscriber of its subject if there
    is one, and otherwise fails; it drops the dead ones that it has tried, nobody is tried
    twice and the other subjects are left alone.  While the `n` subscribers of a subject
    stay the same, `k * n` dispatches serve each of them `k` times. -/
theorem queue_delivers_once_in_turn (subject : Bytes) :
    (∀ (net : Net) (s : Server) (req : Nat) (data : Bytes) (live : Nat → Bool),
      Answers net (fun e => live e.2) (queueGroup s subject) (queueCursorOf s subject) →
      ∃ tried, Dispatched (queueMember subject) live s.subscribers
          (queueDispatch net s req subject data).server.subscribers tried
          (queueDispatch net s req subject data).reply.ok ∧
        (queueDispatch net s req subject data).out = tried.map (attemptWrite subject data) ∧
        ∀ other, other ≠ subject →
          (queueDispatch net s req subject data).server.queueCursor[other]? =
            s.queueCursor[other]?) ∧
    (∀ (net : Nat → Bool) (q : InProcess.Queues) (payload : Bytes) (live : Nat → Bool),
      Answers net (fun e => live e.2) (InProcess.queueGroup q subject)
        (InProcess.queueCursorOf q subject) →
      ∃ tried, Dispatched (InProcess.queueMember subject) live q.subscribers
          (InProcess.queueDispatch net q subject payload).2.1.subscribers tried
          (InProcess.queueDispatch net q subject payload).1.isOk ∧
        (InProcess.queueDispatch net q subject payload).2.2 =
          tried.map (InProcess.attemptSent subject payload) ∧
        ∀ other, other ≠ subject →
          (InProcess.queueDispatch net q subject payload).2.1.queueCursor[other]? =
            q.queueCursor[other]?) ∧
    (∀ (s : Server) (ls : List Step) (es : List Subscriber) (k : Nat),
      discoveryd.Along (fun s => queueMembers s subject = es) s ls →
      ls.countP (·.dispatches subject) = k * es.length →
      discoveryd.collect (queueServed subject) s ls =
          (List.replicate k ((es.map (·.address)).rotate (queueCursorOf s subject))).flatten ∧
        ∀ a, (discoveryd.collect (queueServed subject) s ls).count a =
          k * (es.map (·.address)).count a) ∧
    ∀ (q : InProcess.Queues) (ops : List InProcess.QueueOp) (es : List InProcess.Subscriber)
      (k : Nat), InProcess.queues.Along (fun q => InProcess.queueMembers q subject = es) q ops →
      ops.countP (·.dispatches subject) = k * es.length →
      InProcess.queues.collect (InProcess.queueServed subject) q ops =
          (List.replicate k ((es.map (·.sink)).rotate
            (InProcess.queueCursorOf q subject))).flatten ∧
        ∀ sink, (InProcess.queues.collect (InProcess.queueServed subject) q ops).count sink =
          k * (es.map (·.sink)).count sink := by
  refine ⟨fun net s req data live hnet => queueDispatch_dispatched hnet req data,
    fun net q payload live hnet => InProcess.queueDispatch_dispatched hnet payload, ?_, ?_⟩
  · intro s ls es k hsteady hcount
    rw [queueServed_turns hsteady, hcount, ← @List.length_map _ _ es (·.address)]
    exact ⟨turns_rounds _ k _, count_turns_rounds _ k _⟩
  · intro q ops es k hsteady hcount
    rw [InProcess.queueServed_turns hsteady, hcount, ← @List.length_map _ _ es (·.sink)]
    exact ⟨turns_rounds _ k _, count_turns_rounds _ k _⟩

/-- Two workers, of which the first has gone: the second gets the payload.  Two workers who
    stay: each gets two of four payloads. -/
theorem queue_delivers_two :
    (∃ tried, Dispatched (queueMember (str "q")) (fun i => i = 1)
        [⟨7, str "q", 1⟩, ⟨8, str "q", 2⟩]
        (queueDispatch (fun j => j = 1)
          { subscribers := [⟨7, str "q", 1⟩, ⟨8, str "q", 2⟩] } 5 (str "q") []).server.subscribers
        tried true) ∧
      (InProcess.queues.collect (InProcess.queueServed (str "q"))
        { subscribers := [⟨str "q", 1⟩, ⟨str "q", 2⟩] }
        (List.replicate 4 (.queueDispatch (fun _ => true) (str "q") []))).count 2 = 2 := by
  obtain ⟨hone, -, -, hturns⟩ := queue_delivers_once_in_turn (str "q")
  constructor
  · obtain ⟨tried, htried, -, -⟩ := hone (fun j => j = 1)
      { subscribers := [⟨7, str "q", 1⟩, ⟨8, str "q", 2⟩] } 5 [] (fun i => i = 1) (by
        intro j e he
        rcases j with _ | _ | j
        · cases he; rfl
        · cases he; rfl
        · cases he)
    exact ⟨tried, htried⟩
  · refine (hturns _ _ [⟨str "q", 1⟩, ⟨str "q", 2⟩] 2 ?_ (by decide +kernel)).2 2
    refine ⟨by decide +kernel, _, rfl, by decide +kernel, _, rfl, by decide +kernel, _, rfl,
      by decide +kernel, _, rfl, ?_⟩
    show InProcess.queueMembers _ _ = _
    decide +kernel

end DynamoCpp.Discovery
