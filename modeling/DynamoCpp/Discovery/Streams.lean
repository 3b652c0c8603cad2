import DynamoCpp.Discovery.Client
import DynamoCpp.Framework.System

/-! # The stream records of a TcpDiscovery client

    `kv_get_and_watch_prefix` and `subscribe` enter a record into a table of the
    client before they send their request, because the frames of the stream may
    come before the reply.  The manager thread routes frames by these records
    and asks for all of them again after a reconnect.

    A call is interrupted by its own failure, by the loss of the connection and
    by the shutdown of the client.  The model has every section under the
    client's mutex as a step, so these interleave in any way.
-/

namespace DynamoCpp.Discovery

open Framework

/-! ## Calls -/

/-- How a call fails once its record is in the table. -/
inductive StreamFailure where
  /-- `request` found the client shut down or not connected. -/
  | notConnected
  /-- The header has no JSON text. -/
  | unencodable (what : Bytes)
  | writeFailed
  /-- The connection was lost before the reply came. -/
  | lost
  | negative (error : Bytes)
  deriving DecidableEq

/-- What `request` throws without a reply. -/
def connectionLost : Bytes := str "discovery connection lost"

/-- The text of the exception; `failed` is the call's own prefix. -/
def StreamFailure.what (failed : Bytes) : StreamFailure → Bytes
  | .notConnected => connectionLost
  | .unencodable what => what
  | .writeFailed => connectionLost
  | .lost => connectionLost
  | .negative error => failed ++ error

/-- Where a call stands that has entered its record. -/
inductive StreamPc where
  /-- About to run `request`. -/
  | entered
  /-- About to write the request. -/
  | requested (req : Nat)
  | awaiting (req : Nat)
  /-- The caller has the stream, -/
  | holding
  /-- and has destroyed it. -/
  | released
  | threw (failure : StreamFailure)
  deriving DecidableEq

/-- The receiver of the stream is gone. -/
def StreamPc.gone : StreamPc → Bool
  | .released | .threw _ => true
  | _ => false

structure StreamCall where
  pc        : StreamPc := .entered
  /-- The manager has taken the record out of the table. -/
  collected : Bool := false
  deriving DecidableEq

/-! ## A table of records -/

/-- `watches` or `subs`, with the counter of its ids and the calls they were given to. -/
structure Streams (ρ : Type) where
  nextId  : Nat := 1
  records : OrdMap Nat ρ := ∅
  calls   : Nat → Option StreamCall := fun _ => none

/-- What the calls share with the manager thread. -/
structure Requests where
  shutdownRequested : Bool := false
  connected         : Bool := true
  nextReqId         : Nat := 1
  /-- The requests whose reply is awaited. -/
  pending           : OrdSet Nat := ∅
  /-- What came on the channel of a request: the error of the reply, if it was negative. -/
  replies           : Nat → Option (Option Bytes) := fun _ => none

inductive WriteOutcome where
  | ok
  | failed
  | unencodable (what : Bytes)
  deriving DecidableEq

/-- Steps of a call after it has entered its record. -/
inductive StreamStep where
  /-- The locked section of `request`. -/
  | request
  | write (outcome : WriteOutcome)
  /-- `request` returns or throws, and the call looks at the reply. -/
  | resume
  /-- The caller destroys the stream. -/
  | release

namespace Streams

variable {ρ : Type}

/-- The locked section that enters a record. -/
def enter (t : Streams ρ) (record : ρ) : Streams ρ where
  nextId  := t.nextId + 1
  records := t.records.insertIfNew t.nextId record
  calls   := Function.update t.calls t.nextId (some {})

def advance (t : Streams ρ) (id : Nat) (pc : StreamPc) : Streams ρ :=
  { t with calls := Function.update t.calls id ((t.calls id).map fun c => { c with pc }) }

/-- After a negative reply the call takes its record out. -/
def withdraw (t : Streams ρ) (id : Nat) (error : Bytes) : Streams ρ :=
  { t.advance id (.threw (.negative error)) with records := t.records.erase id }

/-- The manager takes out a record whose receiver is gone. -/
def collect (t : Streams ρ) (id : Nat) : Streams ρ :=
  { t with
    records := t.records.erase id
    calls := Function.update t.calls id ((t.calls id).map fun c => { c with collected := true }) }

/-- The manager ends and takes all records with it. -/
def clear (t : Streams ρ) : Streams ρ :=
  { t with
    records := ∅
    calls := fun id => (t.calls id).map fun c => { c with collected := true } }

/-- The receiver of the stream with this id is gone. -/
def gone (t : Streams ρ) (id : Nat) : Bool := (t.calls id).any (·.pc.gone)

/-- `request` after its write. -/
def resume (t : Streams ρ) (link : Requests) (id req : Nat) : Option (Streams ρ) :=
  match link.replies req with
  | some none => some (t.advance id .holding)
  | some (some error) => some (t.withdraw id error)
  -- no reply, and nobody left who would send one
  | none => if req ∈ link.pending then none else some (t.advance id (.threw .lost))

def exec (t : Streams ρ) (link : Requests) (id : Nat) (pc : StreamPc) :
    StreamStep → Option (Streams ρ × Requests)
  | .request =>
    if pc = .entered then
      if link.shutdownRequested = true ∨ link.connected = false then
        some (t.advance id (.threw .notConnected), link)
      else
        some (t.advance id (.requested link.nextReqId),
          { link with
            nextReqId := link.nextReqId + 1
            pending := link.pending.insert link.nextReqId })
    else none
  | .write outcome =>
    match pc with
    | .requested req =>
      match outcome with
      | .ok => some (t.advance id (.awaiting req), link)
      | .failed =>
        some (t.advance id (.threw .writeFailed), { link with pending := link.pending.erase req })
      -- the exception passes the erase as well
      | .unencodable what => some (t.advance id (.threw (.unencodable what)), link)
    | _ => none
  | .resume =>
    match pc with
    | .awaiting req => (t.resume link id req).map fun t => (t, link)
    | _ => none
  | .release => if pc = .holding then some (t.advance id .released, link) else none

end Streams

/-! ## The client -/

/-- `TcpDiscovery::State`, without its leases. -/
structure TcpClient where
  link       : Requests := {}
  watches    : Streams WatchRecord := {}
  /-- The subjects of the subscriptions. -/
  subs       : Streams Bytes := {}
  /-- The manager thread has ended. -/
  terminated : Bool := false

inductive ClientStep where
  | kvGetAndWatchPrefix (pre : Bytes)
  | subscribe (subject : Bytes)
  | watch (id : Nat) (step : StreamStep)
  | sub (id : Nat) (step : StreamStep)
  /-- `route_reply`; the error of a negative reply. -/
  | reply (req : Nat) (error : Option Bytes)
  /-- `route_watch_frame`. -/
  | watchFrame (id : Nat) (frame : Frame)
  /-- `route_event`. -/
  | event (id : Nat)
  | disconnect
  | reconnect
  | shutdown
  /-- The end of `manager_loop`. -/
  | terminate

/-- What `resubscribe_all` writes. -/
inductive Resubscription where
  | watch (id : Nat) (pre : Bytes) (fromRev : Int)
  | subscribe (id : Nat) (subject : Bytes)
  deriving DecidableEq

namespace TcpClient

/-- The requests of `resubscribe_all`. -/
def resubscriptions (c : TcpClient) : List Resubscription :=
  c.watches.records.toList.map (fun e => .watch e.1 e.2.pre e.2.fromRev) ++
    c.subs.records.toList.map fun e => .subscribe e.1 e.2

def resubscribeAll (c : TcpClient) : TcpClient :=
  { c with
    watches := { c.watches with
      records := c.watches.records.map fun _ record => record.resubscribe } }

/-- The first section of `kv_get_and_watch_prefix`; a client that is shut down throws. -/
def kvGetAndWatchPrefix (c : TcpClient) (pre : Bytes) : TcpClient :=
  if c.link.shutdownRequested = true then c
  else { c with watches := c.watches.enter (.fresh pre) }

/-- The first section of `subscribe`. -/
def subscribe (c : TcpClient) (subject : Bytes) : TcpClient :=
  if c.link.shutdownRequested = true then c else { c with subs := c.subs.enter subject }

def routeReply (c : TcpClient) (req : Nat) (error : Option Bytes) : TcpClient :=
  if req ∈ c.link.pending then
    { c with
      link := { c.link with
        pending := c.link.pending.erase req
        replies := Function.update c.link.replies req (some error) } }
  else c

/-- A frame for an unknown id is ignored; a receiver that is gone loses its record. -/
def routeWatch (c : TcpClient) (id : Nat) (frame : Frame) : TcpClient :=
  match c.watches.records[id]? with
  | none => c
  | some record =>
    let r := routeWatchFrame record frame
    if r.2 ≠ [] ∧ c.watches.gone id = true then { c with watches := c.watches.collect id }
    else
      { c with
        watches := { c.watches with records := c.watches.records.insert id r.1 } }

def routeEvent (c : TcpClient) (id : Nat) : TcpClient :=
  if c.subs.records.contains id = true ∧ c.subs.gone id = true then
    { c with subs := c.subs.collect id }
  else c

/-- The steps of the manager thread. -/
def manage (c : TcpClient) : ClientStep → Option TcpClient
  | .reply req error => some (c.routeReply req error)
  | .watchFrame id frame => some (c.routeWatch id frame)
  | .event id => some (c.routeEvent id)
  | .disconnect => some { c with link := { c.link with connected := false, pending := ∅ } }
  | .reconnect =>
    some { c.resubscribeAll with link := { c.link with connected := true } }
  | .terminate =>
    if c.link.shutdownRequested = true then
      some
        { link := { c.link with connected := false, pending := ∅ }
          watches := c.watches.clear
          subs := c.subs.clear
          terminated := true }
    else none
  | _ => none

def exec (c : TcpClient) : ClientStep → Option TcpClient
  | .kvGetAndWatchPrefix pre => some (c.kvGetAndWatchPrefix pre)
  | .subscribe subject => some (c.subscribe subject)
  | .watch id step => do
    let call ← c.watches.calls id
    let (watches, link) ← c.watches.exec c.link id call.pc step
    return { c with watches, link }
  | .sub id step => do
    let call ← c.subs.calls id
    let (subs, link) ← c.subs.exec c.link id call.pc step
    return { c with subs, link }
  | .shutdown => some { c with link := { c.link with shutdownRequested := true } }
  | step => if c.terminated = true then none else c.manage step

end TcpClient

/-- A client from its connection on. -/
def tcpClient : System TcpClient ClientStep where
  init := {}
  exec := TcpClient.exec

/-! ## Which records are in a table -/

/-- The failure passes the record by. -/
def StreamFailure.keeps : StreamFailure → Bool
  | .negative _ => false
  | _ => true

/-- The call has not taken its record out. -/
def StreamPc.keeps : StreamPc → Bool
  | .threw failure => failure.keeps
  | _ => true

/-- A step of a call leaves the table alone or takes the call's own record out. -/
theorem Streams.exec_cases {ρ : Type} {t : Streams ρ} {link : Requests} {id : Nat} {pc : StreamPc}
    {step : StreamStep} {r : Streams ρ × Requests} (h : t.exec link id pc step = some r) :
    (∃ pc', r.1 = t.advance id pc' ∧ pc'.keeps = pc.keeps) ∨
      ∃ error, r.1 = t.withdraw id error ∧ pc.keeps = true := by
  cases step with
  | request =>
    obtain ⟨rfl, hexec⟩ := Option.ite_none_right_eq_some.mp h
    split at hexec
    all_goals
      cases hexec
      exact .inl ⟨_, rfl, rfl⟩
  | write outcome =>
    simp only [exec] at h
    split at h
    · cases outcome with
      | ok | failed | unencodable =>
        cases h
        exact .inl ⟨_, rfl, rfl⟩
    · cases h
  | resume =>
    simp only [exec] at h
    split at h
    · obtain ⟨t', hresume, heq⟩ := Option.map_eq_some_iff.mp h
      cases heq
      unfold resume at hresume
      split at hresume
      · cases hresume
        exact .inl ⟨_, rfl, rfl⟩
      · next error _ =>
        cases hresume
        exact .inr ⟨error, rfl, rfl⟩
      · split at hresume
        · cases hresume
        · cases hresume
          exact .inl ⟨_, rfl, rfl⟩
    · cases h
  | release =>
    obtain ⟨rfl, rfl⟩ := enabled h
    exact .inl ⟨_, rfl, rfl⟩

/-- A record is in the table exactly if the call that entered it has not taken it out, and
    the manager has not. -/
structure Streams.Kept {ρ : Type} (t : Streams ρ) : Prop where
  fresh  : ∀ id, t.nextId ≤ id → t.calls id = none
  record : ∀ id, t.records.contains id = true ↔
    ∃ c, t.calls id = some c ∧ c.pc.keeps = true ∧ c.collected = false

namespace Streams.Kept

variable {ρ : Type} {t : Streams ρ} {id : Nat} {c : StreamCall}

theorem init : Kept ({} : Streams ρ) where
  fresh := fun _ _ => rfl
  record := by simp

/-- One call and its record change together. -/
theorem update (h : Kept t) (hc : t.calls id = some c) {c' : StreamCall} {records : OrdMap Nat ρ}
    (hown : records.contains id = true ↔ c'.pc.keeps = true ∧ c'.collected = false)
    (hothers : ∀ other, other ≠ id → records.contains other = t.records.contains other) :
    Kept { t with records, calls := Function.update t.calls id (some c') } where
  fresh := by
    intro other hle
    have hne : other ≠ id := by
      rintro rfl
      rw [h.fresh other hle] at hc
      cases hc
    exact (Function.update_of_ne hne _ _).trans (h.fresh other hle)
  record := by
    intro other
    by_cases hid : other = id
    · subst hid
      simp only [Function.update_self, Option.some.injEq, exists_eq_left']
      exact hown
    · simp only [Function.update_of_ne hid, hothers other hid]
      exact h.record other

theorem contains_iff (h : Kept t) (hc : t.calls id = some c) :
    t.records.contains id = true ↔ c.pc.keeps = true ∧ c.collected = false := by
  rw [h.record id, hc]
  simp

theorem contains_erase_ne {records : OrdMap Nat ρ} {other : Nat} (hne : other ≠ id) :
    (records.erase id).contains other = records.contains other := by
  simp [hne.symm]

theorem enter (h : Kept t) (record : ρ) : Kept (t.enter record) where
  fresh := by
    intro id hle
    have hne : id ≠ t.nextId := fun heq => absurd hle (by rw [heq]; exact Nat.not_succ_le_self _)
    exact (Function.update_of_ne hne _ _).trans (h.fresh id (Nat.le_of_succ_le hle))
  record := by
    intro id
    simp only [Streams.enter, Std.ExtTreeMap.contains_insertIfNew, Bool.or_eq_true, beq_iff_eq,
      Std.compare_eq_iff_eq]
    by_cases hid : id = t.nextId
    · subst hid
      simp [StreamPc.keeps]
    · have hne : t.nextId ≠ id := fun heq => hid heq.symm
      simp only [Function.update_of_ne hid, hne, false_or]
      exact h.record id

theorem advance (h : Kept t) (hc : t.calls id = some c) {pc : StreamPc}
    (hkeeps : pc.keeps = c.pc.keeps) : Kept (t.advance id pc) := by
  rw [Streams.advance, hc]
  refine h.update hc ?_ fun _ _ => rfl
  rw [h.contains_iff hc]
  dsimp only
  rw [hkeeps]

theorem withdraw (h : Kept t) (hc : t.calls id = some c) (error : Bytes) :
    Kept (t.withdraw id error) := by
  rw [Streams.withdraw, Streams.advance, hc]
  refine h.update hc ?_ fun other hne => contains_erase_ne hne
  simp [StreamPc.keeps, StreamFailure.keeps]

theorem collect (h : Kept t) (hc : t.calls id = some c) : Kept (t.collect id) := by
  rw [Streams.collect, hc]
  refine h.update hc ?_ fun other hne => contains_erase_ne hne
  simp

theorem clear (h : Kept t) : Kept t.clear where
  fresh := by
    intro id hle
    show (t.calls id).map _ = none
    rw [h.fresh id hle]
    rfl
  record := by
    intro id
    cases hc : t.calls id <;> simp [Streams.clear, hc]

/-- The records change, their ids do not. -/
theorem records (h : Kept t) {records : OrdMap Nat ρ}
    (hsame : ∀ id, records.contains id = t.records.contains id) : Kept { t with records } :=
  ⟨h.fresh, fun id => by rw [hsame id]; exact h.record id⟩

theorem exec (h : Kept t) {link : Requests} {step : StreamStep} {r : Streams ρ × Requests}
    (hc : t.calls id = some c) (hexec : t.exec link id c.pc step = some r) : Kept r.1 := by
  rcases exec_cases hexec with ⟨pc, heq, hkeeps⟩ | ⟨error, heq, -⟩
  · rw [heq]
    exact h.advance hc hkeeps
  · rw [heq]
    exact h.withdraw hc error

end Streams.Kept

/-! ## Runs of the client -/

namespace TcpClient

variable {c c' : TcpClient}

/-- Both tables have the records of the calls that have not taken them out. -/
structure Kept (c : TcpClient) : Prop where
  watches : c.watches.Kept
  subs    : c.subs.Kept

theorem contains_map {ρ : Type} (m : OrdMap Nat ρ) (f : Nat → ρ → ρ) (id : Nat) :
    (m.map f).contains id = m.contains id := by
  rw [Std.ExtTreeMap.contains_map]

theorem contains_insert_self {ρ : Type} {m : OrdMap Nat ρ} {id : Nat} {record : ρ}
    (hrecord : m[id]? = some record) (value : ρ) (other : Nat) :
    (m.insert id value).contains other = m.contains other := by
  rw [Std.ExtTreeMap.contains_insert]
  by_cases hid : id = other
  · subst hid
    rw [Std.ExtTreeMap.contains_eq_isSome_getElem?, hrecord]
    simp
  · simp [hid]

theorem Kept.routeWatch (h : c.Kept) (id : Nat) (frame : Frame) : (c.routeWatch id frame).Kept := by
  unfold TcpClient.routeWatch
  split
  · exact h
  · next record hrecord =>
    dsimp only
    split
    · -- the id of a record is the id of a call
      have hcontains : c.watches.records.contains id = true := by
        rw [Std.ExtTreeMap.contains_eq_isSome_getElem?, hrecord]
        rfl
      obtain ⟨call, hcall, -⟩ := (h.watches.record id).mp hcontains
      exact ⟨h.watches.collect hcall, h.subs⟩
    · exact ⟨h.watches.records (contains_insert_self hrecord _), h.subs⟩

theorem Kept.routeEvent (h : c.Kept) (id : Nat) : (c.routeEvent id).Kept := by
  unfold TcpClient.routeEvent
  split
  · next hcond =>
    obtain ⟨call, hcall, -⟩ := (h.subs.record id).mp hcond.1
    exact ⟨h.watches, h.subs.collect hcall⟩
  · exact h

theorem Kept.routeReply (h : c.Kept) (req : Nat) (error : Option Bytes) :
    (c.routeReply req error).Kept := by
  unfold TcpClient.routeReply
  split
  · exact ⟨h.watches, h.subs⟩
  · exact h

theorem Kept.manage (h : c.Kept) {step : ClientStep} (hexec : c.manage step = some c') :
    c'.Kept := by
  cases step with
  | reply req error =>
    cases hexec
    exact h.routeReply req error
  | watchFrame id frame =>
    cases hexec
    exact h.routeWatch id frame
  | event id =>
    cases hexec
    exact h.routeEvent id
  | disconnect =>
    cases hexec
    exact ⟨h.watches, h.subs⟩
  | reconnect =>
    cases hexec
    exact ⟨h.watches.records (contains_map _ _), h.subs⟩
  | terminate =>
    obtain ⟨-, rfl⟩ := enabled hexec
    exact ⟨h.watches.clear, h.subs.clear⟩
  | _ => cases hexec

theorem Kept.exec (h : c.Kept) {step : ClientStep} (hexec : c.exec step = some c') : c'.Kept := by
  cases step with
  | kvGetAndWatchPrefix pre =>
    cases hexec
    unfold kvGetAndWatchPrefix
    split
    · exact h
    · exact ⟨h.watches.enter _, h.subs⟩
  | subscribe subject =>
    cases hexec
    unfold subscribe
    split
    · exact h
    · exact ⟨h.watches, h.subs.enter _⟩
  | watch id step =>
    obtain ⟨call, hcall, hexec⟩ := Option.bind_eq_some_iff.mp hexec
    obtain ⟨r, hr, hexec⟩ := Option.bind_eq_some_iff.mp hexec
    cases hexec
    exact ⟨h.watches.exec hcall hr, h.subs⟩
  | sub id step =>
    obtain ⟨call, hcall, hexec⟩ := Option.bind_eq_some_iff.mp hexec
    obtain ⟨r, hr, hexec⟩ := Option.bind_eq_some_iff.mp hexec
    cases hexec
    exact ⟨h.watches, h.subs.exec hcall hr⟩
  | shutdown =>
    cases hexec
    exact ⟨h.watches, h.subs⟩
  | _ =>
    obtain ⟨-, hmanage⟩ := Option.ite_none_left_eq_some.mp hexec
    exact h.manage hmanage

theorem kept_of_reachable (h : tcpClient.Reachable c) : c.Kept :=
  @System.Reachable.invariant _ _ tcpClient Kept ⟨.init, .init⟩
    (fun _ _ _ hkept hexec => hkept.exec hexec) c h

end TcpClient

/-! ## One call among nothing else -/

/-- From `t₀` on, only the call with the next id has taken steps: its record is in the table
    unless the call took it out, and the rest is as it was. -/
def Streams.Alone {ρ : Type} (t₀ : Streams ρ) (record : ρ) (t : Streams ρ) : Prop :=
  ∃ c, t.calls t₀.nextId = some c ∧
    t.records = if c.pc.keeps = true then t₀.records.insertIfNew t₀.nextId record else t₀.records

namespace Streams.Alone

variable {ρ : Type} {t₀ t : Streams ρ} {record : ρ}

theorem enter (t₀ : Streams ρ) (record : ρ) : Alone t₀ record (t₀.enter record) :=
  ⟨{}, Function.update_self _ _ _, rfl⟩

theorem not_contains (h : t₀.Kept) : t₀.records.contains t₀.nextId = false := by
  rw [← Bool.not_eq_true, h.record]
  rintro ⟨c, hc, -⟩
  rw [h.fresh _ (Nat.le_refl _)] at hc
  cases hc

theorem erase_insertIfNew (h : t₀.Kept) :
    (t₀.records.insertIfNew t₀.nextId record).erase t₀.nextId = t₀.records := by
  have hnone := not_contains h
  refine Std.ExtTreeMap.ext_getElem? fun id => ?_
  rw [Std.ExtTreeMap.getElem?_erase, Std.ExtTreeMap.getElem?_insertIfNew]
  by_cases hid : t₀.nextId = id
  · subst hid
    rw [Std.ExtTreeMap.contains_eq_isSome_getElem?, Option.isSome_eq_false_iff,
      Option.isNone_iff_eq_none] at hnone
    rw [hnone]
    simp
  · simp [hid]

theorem advance (h : Alone t₀ record t) {c : StreamCall} (hc : t.calls t₀.nextId = some c)
    {pc : StreamPc} (hkeeps : pc.keeps = c.pc.keeps) :
    Alone t₀ record (t.advance t₀.nextId pc) := by
  obtain ⟨c', hc', hrecords⟩ := h
  cases hc.symm.trans hc'
  refine ⟨{ c with pc }, ?_, ?_⟩
  · rw [Streams.advance, hc]
    exact Function.update_self _ _ _
  · rw [hkeeps]
    exact hrecords

theorem withdraw (h : Alone t₀ record t) (hkept : t₀.Kept) {c : StreamCall}
    (hc : t.calls t₀.nextId = some c) (hkeeps : c.pc.keeps = true) (error : Bytes) :
    Alone t₀ record (t.withdraw t₀.nextId error) := by
  obtain ⟨c', hc', hrecords⟩ := h
  cases hc.symm.trans hc'
  rw [if_pos hkeeps] at hrecords
  refine ⟨{ c with pc := .threw (.negative error) }, ?_, ?_⟩
  · rw [Streams.withdraw, Streams.advance, hc]
    exact Function.update_self _ _ _
  · show t.records.erase t₀.nextId = t₀.records
    rw [hrecords, erase_insertIfNew hkept]

theorem exec (h : Alone t₀ record t) (hkept : t₀.Kept) {c : StreamCall} {link : Requests}
    {step : StreamStep} {r : Streams ρ × Requests} (hc : t.calls t₀.nextId = some c)
    (hexec : t.exec link t₀.nextId c.pc step = some r) : Alone t₀ record r.1 := by
  rcases exec_cases hexec with ⟨pc, heq, hkeeps⟩ | ⟨error, heq, hkeeps⟩
  · rw [heq]
    exact h.advance hc hkeeps
  · rw [heq]
    exact h.withdraw hkept hc hkeeps error

end Streams.Alone

inductive StreamKind where
  | watch
  | sub
  deriving DecidableEq

/-- The steps of one call, and of others what leaves the tables alone.  Frames of a stream,
    also of that of the call, change its record and are not among them. -/
def ClientStep.quiet (kind : StreamKind) (id : Nat) : ClientStep → Bool
  | .watch id' _ => kind = .watch ∧ id' = id
  | .sub id' _ => kind = .sub ∧ id' = id
  | .reply _ _ | .disconnect | .shutdown => true
  | _ => false

/-- A request of `resubscribe_all` for this stream. -/
def Resubscription.names : StreamKind → Nat → Resubscription → Bool
  | .watch, id, .watch id' _ _ => id' = id
  | .sub, id, .subscribe id' _ => id' = id
  | _, _, _ => false

namespace TcpClient

variable {c c' : TcpClient}

def call (c : TcpClient) : StreamKind → Nat → Option StreamCall
  | .watch => c.watches.calls
  | .sub => c.subs.calls

def nextId (c : TcpClient) : StreamKind → Nat
  | .watch => c.watches.nextId
  | .sub => c.subs.nextId

/-- `kv_get_and_watch_prefix` or `subscribe`. -/
def openStream (c : TcpClient) : StreamKind → Bytes → TcpClient
  | .watch => c.kvGetAndWatchPrefix
  | .sub => c.subscribe

/-- The tables are the same. -/
def SameTables (c c' : TcpClient) : Prop :=
  c'.watches.records = c.watches.records ∧ c'.subs.records = c.subs.records

theorem routeReply_tables (c : TcpClient) (req : Nat) (error : Option Bytes) :
    (c.routeReply req error).watches = c.watches ∧ (c.routeReply req error).subs = c.subs := by
  unfold routeReply
  split <;> exact ⟨rfl, rfl⟩

/-- Quiet steps are steps of the one call or keep both tables. -/
theorem exec_quiet {kind : StreamKind} {id : Nat} {l : ClientStep} (hquiet : l.quiet kind id = true)
    (hexec : c.exec l = some c') :
    (c'.watches = c.watches ∧ c'.subs = c.subs) ∨
    (kind = .watch ∧ c'.subs = c.subs ∧ ∃ call step r, c.watches.calls id = some call ∧
      c.watches.exec c.link id call.pc step = some r ∧ c'.watches = r.1) ∨
    (kind = .sub ∧ c'.watches = c.watches ∧ ∃ call step r, c.subs.calls id = some call ∧
      c.subs.exec c.link id call.pc step = some r ∧ c'.subs = r.1) := by
  cases l with
  | watch id' step =>
    obtain ⟨rfl, rfl⟩ := of_decide_eq_true hquiet
    obtain ⟨call, hcall, hexec⟩ := Option.bind_eq_some_iff.mp hexec
    obtain ⟨r, hr, hexec⟩ := Option.bind_eq_some_iff.mp hexec
    cases hexec
    exact .inr (.inl ⟨rfl, rfl, call, step, r, hcall, hr, rfl⟩)
  | sub id' step =>
    obtain ⟨rfl, rfl⟩ := of_decide_eq_true hquiet
    obtain ⟨call, hcall, hexec⟩ := Option.bind_eq_some_iff.mp hexec
    obtain ⟨r, hr, hexec⟩ := Option.bind_eq_some_iff.mp hexec
    cases hexec
    exact .inr (.inr ⟨rfl, rfl, call, step, r, hcall, hr, rfl⟩)
  | reply req error =>
    obtain ⟨-, rfl⟩ := not_blocked hexec
    exact .inl (c.routeReply_tables req error)
  | disconnect =>
    obtain ⟨-, rfl⟩ := not_blocked hexec
    exact .inl ⟨rfl, rfl⟩
  | shutdown =>
    cases hexec
    exact .inl ⟨rfl, rfl⟩
  | _ => cases hquiet

/-- The call that was begun in `c` is the only one that has moved. -/
structure Alone (c : TcpClient) (kind : StreamKind) (topic : Bytes) (c' : TcpClient) : Prop where
  watch : kind = .watch →
    c.watches.Alone (.fresh topic) c'.watches ∧ c'.subs.records = c.subs.records
  sub   : kind = .sub → c.subs.Alone topic c'.subs ∧ c'.watches.records = c.watches.records

theorem alone_openStream (h : c.link.shutdownRequested = false) (kind : StreamKind)
    (topic : Bytes) : Alone c kind topic (c.openStream kind topic) where
  watch := by
    rintro rfl
    rw [openStream, kvGetAndWatchPrefix, if_neg (by simp [h])]
    exact ⟨.enter c.watches _, rfl⟩
  sub := by
    rintro rfl
    rw [openStream, subscribe, if_neg (by simp [h])]
    exact ⟨.enter c.subs _, rfl⟩

theorem Alone.exec {kind : StreamKind} {topic : Bytes} {d d' : TcpClient} {l : ClientStep}
    (h : Alone c kind topic d) (hkept : c.Kept) (hquiet : l.quiet kind (c.nextId kind) = true)
    (hexec : d.exec l = some d') : Alone c kind topic d' := by
  rcases exec_quiet hquiet hexec with ⟨hwatches, hsubs⟩ |
    ⟨rfl, hsubs, call, step, r, hcall, hr, hwatches⟩ |
    ⟨rfl, hwatches, call, step, r, hcall, hr, hsubs⟩
  · refine ⟨?_, ?_⟩
    · rw [hwatches, hsubs]
      exact h.watch
    · rw [hwatches, hsubs]
      exact h.sub
  · obtain ⟨halone, hrecords⟩ := h.watch rfl
    refine ⟨fun _ => ⟨?_, hsubs ▸ hrecords⟩, nofun⟩
    rw [hwatches]
    exact halone.exec hkept.watches hcall hr
  · obtain ⟨halone, hrecords⟩ := h.sub rfl
    refine ⟨nofun, fun _ => ⟨?_, hwatches ▸ hrecords⟩⟩
    rw [hsubs]
    exact halone.exec hkept.subs hcall hr

theorem Alone.runFrom {kind : StreamKind} {topic : Bytes} (hkept : c.Kept)
    (steps : List ClientStep) (hquiet : ∀ l ∈ steps, l.quiet kind (c.nextId kind) = true) :
    ∀ {d d' : TcpClient}, Alone c kind topic d → tcpClient.runFrom d steps = some d' →
      Alone c kind topic d' := by
  induction steps with
  | nil =>
    intro d d' h hrun
    cases hrun
    exact h
  | cons l steps ih =>
    intro d d' h hrun
    obtain ⟨m, hm, hrest⟩ := Option.bind_eq_some_iff.mp hrun
    have hstep := h.exec hkept (hquiet l List.mem_cons_self) hm
    exact ih (fun l' hl' => hquiet l' (List.mem_cons_of_mem l hl')) hstep hrest

end TcpClient

/-- When the call has thrown, the table is as before exactly if the failure did not keep the
    record. -/
theorem Streams.Alone.records_iff {ρ : Type} {t₀ t : Streams ρ} {record : ρ}
    (h : t₀.Alone record t) (hkept : t₀.Kept) {failure : StreamFailure} {collected : Bool}
    (hc : t.calls t₀.nextId = some ⟨.threw failure, collected⟩) :
    t.records = t₀.records ↔ failure.keeps = false := by
  obtain ⟨c, hc', hrecords⟩ := h
  cases hc.symm.trans hc'
  rw [hrecords]
  cases hkeeps : failure.keeps with
  | false => simp [StreamPc.keeps, hkeeps]
  | true =>
    simp only [StreamPc.keeps, hkeeps, if_true, Bool.true_eq_false, iff_false]
    intro hsame
    have hcontains := not_contains hkept
    rw [← hsame, Std.ExtTreeMap.contains_insertIfNew] at hcontains
    simp at hcontains

namespace TcpClient

variable {c : TcpClient}

theorem contains_iff_exists {ρ : Type} (m : OrdMap Nat ρ) (id : Nat) :
    m.contains id = true ↔ ∃ e ∈ m.toList, e.1 = id := by
  rw [Std.ExtTreeMap.contains_eq_isSome_getElem?, Option.isSome_iff_exists]
  constructor
  · rintro ⟨record, hrecord⟩
    exact ⟨(id, record), Std.ExtTreeMap.mem_toList_iff_getElem?_eq_some.mpr hrecord, rfl⟩
  · rintro ⟨e, he, rfl⟩
    exact ⟨e.2, Std.ExtTreeMap.mem_toList_iff_getElem?_eq_some.mp he⟩

/-- `resubscribe_all` asks for the streams that have a record. -/
theorem resubscribed_iff (h : c.Kept) (kind : StreamKind) (id : Nat) :
    (∃ r ∈ c.resubscriptions, r.names kind id = true) ↔
      ∃ call, c.call kind id = some call ∧ call.pc.keeps = true ∧ call.collected = false := by
  cases kind with
  | watch =>
    rw [call, ← h.watches.record id, contains_iff_exists]
    simp [resubscriptions, Resubscription.names, or_and_right, exists_or]
  | sub =>
    rw [call, ← h.subs.record id, contains_iff_exists]
    simp [resubscriptions, Resubscription.names, or_and_right, exists_or]

/-- A failed `kv_get_and_watch_prefix` or `subscribe` leaves the tables as they were exactly if
    it found the client shut down or got a negative reply.  After a reconnect all records are
    asked for again, with those that other failures left behind. -/
theorem failed_stream_restores_iff (h : tcpClient.Reachable c) (kind : StreamKind)
    (topic : Bytes) :
    (c.link.shutdownRequested = true → c.openStream kind topic = c) ∧
    (c.link.shutdownRequested = false → ∀ (steps : List ClientStep) (c' : TcpClient)
      (failure : StreamFailure) (collected : Bool),
      (∀ l ∈ steps, l.quiet kind (c.nextId kind) = true) →
      tcpClient.runFrom (c.openStream kind topic) steps = some c' →
      c'.call kind (c.nextId kind) = some ⟨.threw failure, collected⟩ →
      (c.SameTables c' ↔ failure.keeps = false)) ∧
    ∀ id, (∃ r ∈ c.resubscriptions, r.names kind id = true) ↔
      ∃ call, c.call kind id = some call ∧ call.pc.keeps = true ∧ call.collected = false := by
  have hkept := kept_of_reachable h
  refine ⟨?_, ?_, resubscribed_iff hkept kind⟩
  · intro hshut
    cases kind with
    | watch | sub => exact if_pos hshut
  · intro hopen steps c' failure collected hquiet hrun hcall
    have halone := Alone.runFrom hkept steps hquiet (alone_openStream hopen kind topic) hrun
    cases kind with
    | watch =>
      obtain ⟨hwatch, hsubs⟩ := halone.watch rfl
      rw [← hwatch.records_iff hkept.watches hcall]
      exact ⟨fun hsame => hsame.1, fun hsame => ⟨hsame, hsubs⟩⟩
    | sub =>
      obtain ⟨hsub, hwatches⟩ := halone.sub rfl
      rw [← hsub.records_iff hkept.subs hcall]
      exact ⟨fun hsame => hsame.2, fun hsame => ⟨hwatches, hsame⟩⟩

end TcpClient

/-- The server answers a subscription with an error. -/
def rejectedSteps : List ClientStep :=
  [.sub 1 .request, .sub 1 (.write .ok), .reply 1 (some (str "denied")), .sub 1 .resume]

theorem rejected_subscribe_restores :
    ∃ c, tcpClient.runFrom (({} : TcpClient).openStream .sub (str "jobs")) rejectedSteps = some c ∧
      c.call .sub 1 = some ⟨.threw (.negative (str "denied")), false⟩ ∧
      ({} : TcpClient).SameTables c :=
  ⟨_, rfl, rfl, ((TcpClient.failed_stream_restores_iff .init .sub (str "jobs")).2.1 rfl
    rejectedSteps _ _ _ (by decide) rfl rfl).mpr rfl⟩

/-- A subscription while the connection is lost: it throws, and after the reconnect the client
    subscribes to a stream that nobody holds. -/
theorem lost_subscribe_leaves_record :
    ∃ c, tcpClient.run [.disconnect, .subscribe (str "jobs"), .sub 1 .request] = some c ∧
      c.call .sub 1 = some ⟨.threw .notConnected, false⟩ ∧
      c.resubscriptions = [.subscribe 1 (str "jobs")] :=
  ⟨_, rfl, rfl, by decide⟩

end DynamoCpp.Discovery
