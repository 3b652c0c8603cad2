import DynamoCpp.Components.Endpoint
import DynamoCpp.Framework.System

/-! # Serving an endpoint

    `serve_impl` installs a handler and a stats query in the tables of the
    control plane, joins the endpoint's queue if it was asked to, and registers
    the instance in discovery.  The tables are written before the operations
    that can fail.  What a failed call leaves behind depends on where it fails
    and on what was in the tables before it.
-/

namespace DynamoCpp.Components

open Framework

/-! ## The model -/

/-- Why `serve_impl` throws. -/
inductive ServeFailure where
  /-- `primary_lease` threw. -/
  | lease (what : Bytes)
  /-- The control plane cannot be started. -/
  | start (what : Bytes)
  | subscribe (what : Bytes)
  /-- The record has no JSON text, or `kv_create` threw. -/
  | create (what : Bytes)
  deriving DecidableEq

/-- Where `serve_impl` stands. -/
inductive ServePc where
  | leasing
  | starting
  /-- About to call `register_handler`. -/
  | registering
  | registeringQuery
  | subscribing
  | creating
  | serving
  /-- About to call `unregister_handler`, after an exception or at the end of the lease. -/
  | unregistering (what : Option Bytes)
  | unregisteringQuery (what : Option Bytes)
  | returned
  | threw (failure : ServeFailure)
  deriving DecidableEq

/-- A call of `serve_impl`. -/
structure ServeCall where
  endpoint   : Endpoint
  queueGroup : Bool
  /-- Known from the options, or once the primary lease is there. -/
  leaseId    : Int64 := 0
  pc         : ServePc := .leasing
  deriving DecidableEq

def ServeCall.subject (c : ServeCall) : Bytes := c.endpoint.subjectFor c.leaseId

def ServeCall.statsSubject (c : ServeCall) : Bytes := c.endpoint.statsSubject c.leaseId

/-- The tables of the control plane and the calls of `serve_impl`.  Every call makes an
    ingress of its own, so its entries are named by its number. -/
structure Serving where
  handlers : OrdMap Bytes Nat := ∅
  queries  : OrdMap Bytes Nat := ∅
  count    : Nat := 0
  calls    : Nat → Option ServeCall := fun _ => none

inductive ServeStep where
  | primaryLease (result : Except Bytes Int64)
  /-- `drt.control_plane()`. -/
  | controlPlane (error : Option Bytes)
  | registerHandler
  | registerQuery
  | subscribe (error : Option Bytes)
  | kvCreate (error : Option Bytes)
  /-- The token of the lease is cancelled. -/
  | cancelled
  | unregisterHandler
  | unregisterQuery

inductive ServingStep where
  | serve (endpoint : Endpoint) (lease : Option Int64) (queueGroup : Bool)
  | step (call : Nat) (step : ServeStep)

namespace Serving

def serve (s : Serving) (endpoint : Endpoint) (lease : Option Int64) (queueGroup : Bool) :
    Serving :=
  let call : ServeCall :=
    match lease with
    | some leaseId => { endpoint, queueGroup, leaseId, pc := .starting }
    | none => { endpoint, queueGroup }
  { s with count := s.count + 1, calls := Function.update s.calls s.count (some call) }

/-- Call `n` is now as in `c`. -/
def setCall (s : Serving) (n : Nat) (c : ServeCall) : Serving :=
  { s with calls := Function.update s.calls n (some c) }

def advance (s : Serving) (n : Nat) (c : ServeCall) : ServeStep → Option Serving
  | .primaryLease result =>
    if c.pc = .leasing then
      match result with
      | .ok leaseId => some (s.setCall n { c with leaseId, pc := .starting })
      | .error what => some (s.setCall n { c with pc := .threw (.lease what) })
    else none
  | .controlPlane error =>
    if c.pc = .starting then
      some (s.setCall n
        { c with pc := error.elim .registering fun what => .threw (.start what) })
    else none
  | .registerHandler =>
    if c.pc = .registering then
      some { s.setCall n { c with pc := .registeringQuery } with
        handlers := s.handlers.insert c.subject n }
    else none
  | .registerQuery =>
    if c.pc = .registeringQuery then
      some { s.setCall n { c with pc := if c.queueGroup then .subscribing else .creating } with
        queries := s.queries.insert c.statsSubject n }
    else none
  | .subscribe error =>
    -- not in the try block
    if c.pc = .subscribing then
      some (s.setCall n
        { c with pc := error.elim .creating fun what => .threw (.subscribe what) })
    else none
  | .kvCreate error =>
    if c.pc = .creating then
      some (s.setCall n
        { c with pc := error.elim .serving fun what => .unregistering (some what) })
    else none
  | .cancelled =>
    if c.pc = .serving then some (s.setCall n { c with pc := .unregistering none }) else none
  | .unregisterHandler =>
    match c.pc with
    | .unregistering what =>
      some { s.setCall n { c with pc := .unregisteringQuery what } with
        handlers := s.handlers.erase c.subject }
    | _ => none
  | .unregisterQuery =>
    match c.pc with
    | .unregisteringQuery what =>
      some { s.setCall n { c with pc := what.elim .returned fun what => .threw (.create what) } with
        queries := s.queries.erase c.statsSubject }
    | _ => none

def exec (s : Serving) : ServingStep → Option Serving
  | .serve endpoint lease queueGroup => some (s.serve endpoint lease queueGroup)
  | .step n step => (s.calls n).bind fun c => s.advance n c step

end Serving

/-- The calls of `serve_impl` in one process, in any interleaving. -/
def servings : System Serving ServingStep where
  init := {}
  exec := Serving.exec

/-! ## What a call has done to the tables -/

/-- The effect of a call on one table, up to where it stands. -/
inductive Mark where
  | untouched
  | written
  | erased
  deriving DecidableEq

/-- A table in which a key has been left alone, written or erased. -/
def Mark.apply (mark : Mark) (table : OrdMap Bytes Nat) (key : Bytes) (n : Nat) :
    OrdMap Bytes Nat :=
  match mark with
  | .untouched => table
  | .written => table.insert key n
  | .erased => table.erase key

def ServePc.handlerMark : ServePc → Mark
  | .leasing | .starting | .registering | .threw (.lease _) | .threw (.start _) => .untouched
  | .registeringQuery | .subscribing | .creating | .serving | .unregistering _
  | .threw (.subscribe _) => .written
  | .unregisteringQuery _ | .returned | .threw (.create _) => .erased

def ServePc.queryMark : ServePc → Mark
  | .leasing | .starting | .registering | .registeringQuery | .threw (.lease _)
  | .threw (.start _) => .untouched
  | .subscribing | .creating | .serving | .unregistering _ | .unregisteringQuery _
  | .threw (.subscribe _) => .written
  | .returned | .threw (.create _) => .erased

/-- From `s` on only the call with the next number has moved. -/
structure Serving.Alone (s s' : Serving) (c : ServeCall) : Prop where
  call     : s'.calls s.count = some c
  handlers : s'.handlers = c.pc.handlerMark.apply s.handlers c.subject s.count
  queries  : s'.queries = c.pc.queryMark.apply s.queries c.statsSubject s.count

theorem erase_insert (table : OrdMap Bytes Nat) (key : Bytes) (n : Nat) :
    (table.insert key n).erase key = table.erase key := by
  refine Std.ExtTreeMap.ext_getElem? fun other => ?_
  rw [OrdMap.get_erase, OrdMap.get_erase, OrdMap.get_insert]
  by_cases hkey : other = key <;> simp [hkey]

namespace Serving.Alone

variable {s t t' : Serving} {c : ServeCall}

theorem serve (s : Serving) (endpoint : Endpoint) (lease : Option Int64) (queueGroup : Bool) :
    ∃ c, Alone s (s.serve endpoint lease queueGroup) c := by
  cases lease with
  | none | some => exact ⟨_, Function.update_self _ _ _, rfl, rfl⟩

/-- A step that leaves the tables alone. -/
theorem setCall (h : Alone s t c) {c' : ServeCall} {old : ServePc} (hpc : c.pc = old)
    (hhandlers : c'.pc.handlerMark.apply s.handlers c'.subject s.count =
      old.handlerMark.apply s.handlers c.subject s.count)
    (hqueries : c'.pc.queryMark.apply s.queries c'.statsSubject s.count =
      old.queryMark.apply s.queries c.statsSubject s.count) :
    Alone s (t.setCall s.count c') c' where
  call := Function.update_self _ _ _
  handlers := by
    rw [hhandlers, ← hpc]
    exact h.handlers
  queries := by
    rw [hqueries, ← hpc]
    exact h.queries

theorem advance (h : Alone s t c) {step : ServeStep} (hexec : t.advance s.count c step = some t') :
    ∃ c', Alone s t' c' := by
  have hhandlers := h.handlers
  have hqueries := h.queries
  cases step with
  | primaryLease result =>
    obtain ⟨hpc, hexec⟩ := Option.ite_none_right_eq_some.mp hexec
    split at hexec
    all_goals
      cases hexec
      exact ⟨_, h.setCall hpc rfl rfl⟩
  | controlPlane error | subscribe error | kvCreate error =>
    obtain ⟨hpc, rfl⟩ := enabled hexec
    cases error <;> exact ⟨_, h.setCall hpc rfl rfl⟩
  | registerHandler =>
    obtain ⟨hpc, rfl⟩ := enabled hexec
    rw [hpc] at hhandlers hqueries
    refine ⟨_, Function.update_self _ _ _, ?_, hqueries⟩
    show t.handlers.insert c.subject s.count = s.handlers.insert c.subject s.count
    rw [hhandlers]
    rfl
  | registerQuery =>
    obtain ⟨hpc, rfl⟩ := enabled hexec
    rw [hpc] at hhandlers hqueries
    refine ⟨_, Function.update_self _ _ _, ?_, ?_⟩
    · cases hgroup : c.queueGroup <;> exact hhandlers
    · have hinsert : t.queries.insert c.statsSubject s.count =
          s.queries.insert c.statsSubject s.count := by rw [hqueries]; rfl
      cases hgroup : c.queueGroup <;> exact hinsert
  | cancelled =>
    obtain ⟨hpc, rfl⟩ := enabled hexec
    exact ⟨_, h.setCall hpc rfl rfl⟩
  | unregisterHandler =>
    simp only [Serving.advance] at hexec
    split at hexec
    · next what hpc =>
      cases hexec
      rw [hpc] at hhandlers hqueries
      refine ⟨_, Function.update_self _ _ _, ?_, hqueries⟩
      show t.handlers.erase c.subject = s.handlers.erase c.subject
      rw [hhandlers]
      exact erase_insert _ _ _
    · cases hexec
  | unregisterQuery =>
    simp only [Serving.advance] at hexec
    split at hexec
    · next what hpc =>
      cases hexec
      rw [hpc] at hhandlers hqueries
      have herase : t.queries.erase c.statsSubject = s.queries.erase c.statsSubject := by
        rw [hqueries]
        exact erase_insert _ _ _
      refine ⟨_, Function.update_self _ _ _, ?_, ?_⟩
      · cases what <;> exact hhandlers
      · cases what <;> exact herase
    · cases hexec

theorem runFrom (steps : List ServeStep) : ∀ {t t' : Serving} {c : ServeCall}, Alone s t c →
    servings.runFrom t (steps.map (.step s.count)) = some t' → ∃ c', Alone s t' c' := by
  induction steps with
  | nil =>
    intro t t' c h hrun
    cases hrun
    exact ⟨c, h⟩
  | cons step steps ih =>
    intro t t' c h hrun
    obtain ⟨m, hm, hrest⟩ := Option.bind_eq_some_iff.mp hrun
    obtain ⟨c', hc', hexec⟩ := Option.bind_eq_some_iff.mp hm
    cases h.call.symm.trans hc'
    obtain ⟨c'', h''⟩ := h.advance hexec
    exact ih h'' hrest

end Serving.Alone

/-! ## Which failures restore the tables -/

/-- The handlers in the table belong to calls that were made. -/
structure Serving.Numbered (s : Serving) : Prop where
  handlers : ∀ (subject : Bytes) (n : Nat), s.handlers[subject]? = some n → n < s.count
  calls    : ∀ n, s.count ≤ n → s.calls n = none

namespace Serving.Numbered

variable {s s' : Serving} {n : Nat} {c : ServeCall}

theorem init : Numbered {} where
  handlers := by simp
  calls := fun _ _ => rfl

theorem lt (h : Numbered s) (hc : s.calls n = some c) : n < s.count := by
  by_contra hle
  rw [h.calls n (Nat.le_of_not_lt hle)] at hc
  cases hc

theorem serve (h : Numbered s) (endpoint : Endpoint) (lease : Option Int64) (queueGroup : Bool) :
    Numbered (s.serve endpoint lease queueGroup) where
  handlers := fun subject n hn => Nat.lt_succ_of_lt (h.handlers subject n hn)
  calls := by
    intro n hle
    have hne : n ≠ s.count := fun heq => absurd hle (by rw [heq]; exact Nat.not_succ_le_self _)
    exact (Function.update_of_ne hne _ _).trans (h.calls n (Nat.le_of_succ_le hle))

theorem setCall (h : Numbered s) (hc : s.calls n = some c) (c' : ServeCall) :
    Numbered (s.setCall n c') where
  handlers := h.handlers
  calls := by
    intro m hle
    have hne : m ≠ n := fun heq => absurd (h.lt hc) (Nat.not_lt.mpr (heq ▸ hle))
    exact (Function.update_of_ne hne _ _).trans (h.calls m hle)

theorem insert (h : Numbered s) (hn : n < s.count) (key : Bytes) :
    Numbered { s with handlers := s.handlers.insert key n } where
  handlers := by
    intro subject m hm
    rcases OrdMap.get_of_insert hm with ⟨-, rfl⟩ | hm
    · exact hn
    · exact h.handlers subject m hm
  calls := h.calls

theorem erase (h : Numbered s) (key : Bytes) :
    Numbered { s with handlers := s.handlers.erase key } where
  handlers := by
    intro subject m hm
    exact h.handlers subject m (OrdMap.get_of_erase hm).2
  calls := h.calls

theorem queries (h : Numbered s) (queries : OrdMap Bytes Nat) : Numbered { s with queries } :=
  ⟨h.handlers, h.calls⟩

theorem advance (h : Numbered s) (hc : s.calls n = some c) {step : ServeStep}
    (hexec : s.advance n c step = some s') : Numbered s' := by
  cases step with
  | primaryLease result =>
    obtain ⟨-, hexec⟩ := Option.ite_none_right_eq_some.mp hexec
    split at hexec <;> cases hexec <;> exact h.setCall hc _
  | registerHandler =>
    obtain ⟨-, rfl⟩ := enabled hexec
    exact (h.setCall hc _).insert (h.lt hc) _
  | registerQuery =>
    obtain ⟨-, rfl⟩ := enabled hexec
    exact (h.setCall hc _).queries _
  | unregisterHandler =>
    simp only [Serving.advance] at hexec
    split at hexec
    · cases hexec
      exact (h.setCall hc _).erase _
    · cases hexec
  | unregisterQuery =>
    simp only [Serving.advance] at hexec
    split at hexec
    · cases hexec
      exact (h.setCall hc _).queries _
    · cases hexec
  | _ =>
    obtain ⟨-, rfl⟩ := enabled hexec
    exact h.setCall hc _

theorem of_reachable (h : servings.Reachable s) : Numbered s := by
  refine @System.Reachable.invariant _ _ servings Numbered .init ?_ s h
  intro s l s' hs hexec
  cases l with
  | serve endpoint lease queueGroup =>
    cases hexec
    exact hs.serve endpoint lease queueGroup
  | step n step =>
    obtain ⟨c, hc, hexec⟩ := Option.bind_eq_some_iff.mp hexec
    exact hs.advance hc hexec

end Serving.Numbered

/-- The call had not come to the tables. -/
def ServeFailure.early : ServeFailure → Bool
  | .lease _ | .start _ => true
  | .subscribe _ | .create _ => false

theorem erase_eq_self_iff (table : OrdMap Bytes Nat) (key : Bytes) :
    table.erase key = table ↔ table[key]? = none := by
  constructor
  · intro heq
    rw [← heq]
    simp
  · intro hnone
    refine Std.ExtTreeMap.ext_getElem? fun other => ?_
    rw [OrdMap.get_erase]
    by_cases hkey : other = key
    · subst hkey
      simp [hnone]
    · simp [hkey]

/-- A failed `serve_impl` leaves the tables as they were exactly if it failed before it wrote
    them, or if registering the instance failed and neither table had an entry for the
    instance.  Otherwise its own entries stay, or those of an earlier call are gone. -/
theorem failed_serve_restores_iff {s s' : Serving} (h : servings.Reachable s)
    (endpoint : Endpoint) (lease : Option Int64) (queueGroup : Bool) (steps : List ServeStep)
    (hrun : servings.runFrom s
      (.serve endpoint lease queueGroup :: steps.map (.step s.count)) = some s')
    {c : ServeCall} (hcall : s'.calls s.count = some c) {failure : ServeFailure}
    (hthrew : c.pc = .threw failure) :
    (s'.handlers = s.handlers ∧ s'.queries = s.queries) ↔
      failure.early = true ∨ (∃ what, failure = .create what) ∧
        s.handlers[c.subject]? = none ∧ s.queries[c.statsSubject]? = none := by
  obtain ⟨c₀, h₀⟩ := Serving.Alone.serve s endpoint lease queueGroup
  obtain ⟨c', halone⟩ := Serving.Alone.runFrom steps h₀ hrun
  cases halone.call.symm.trans hcall
  rw [halone.handlers, halone.queries, hthrew]
  cases failure with
  | lease | start => simp [ServePc.handlerMark, ServePc.queryMark, Mark.apply, ServeFailure.early]
  | subscribe what =>
    simp only [ServeFailure.early, Bool.false_eq_true, reduceCtorEq, exists_false, false_and,
      or_self, iff_false]
    rintro ⟨hhandlers, -⟩
    -- the ingress of this call was in no table before
    have hsome : s.handlers[c.subject]? = some s.count := by
      rw [← hhandlers]
      exact Std.ExtTreeMap.getElem?_insert_self
    exact absurd ((Serving.Numbered.of_reachable h).handlers _ _ hsome) (Nat.lt_irrefl _)
  | create what =>
    simp only [ServePc.handlerMark, ServePc.queryMark, Mark.apply, erase_eq_self_iff,
      ServeFailure.early]
    simp

/-! ## Two calls for one instance -/

def echoEndpoint : Endpoint where
  component :=
    ⟨⟨⟨str "test", List.cons_ne_nil _ _, rfl⟩⟩, ⟨str "backend", List.cons_ne_nil _ _, rfl⟩⟩
  name := ⟨str "generate", List.cons_ne_nil _ _, rfl⟩

/-- The steps up to a `kv_create` that fails. -/
def failingServe (what : Bytes) : List ServeStep :=
  [.controlPlane none, .registerHandler, .registerQuery, .kvCreate (some what), .unregisterHandler,
    .unregisterQuery]

def unknownLease : Bytes := str "kv_create: unknown or expired lease"

/-- An instance is being served. -/
def served : List ServingStep :=
  [.serve echoEndpoint (some 7) false, .step 0 (.controlPlane none), .step 0 .registerHandler,
    .step 0 .registerQuery, .step 0 (.kvCreate none)]

/-- A call whose lease is not known to discovery leaves the instance of another lease. -/
theorem unknown_lease_restores :
    ∃ s s', servings.run served = some s ∧
      servings.runFrom s (.serve echoEndpoint (some 8) false ::
        (failingServe unknownLease).map (.step 1)) = some s' ∧
      (s'.calls 1).map (·.pc) = some (.threw (.create unknownLease)) ∧
      s.handlers[echoEndpoint.subjectFor 7]? = some 0 ∧
      (s'.handlers = s.handlers ∧ s'.queries = s.queries) := by
  have hrun : servings.run served = some _ := rfl
  refine ⟨_, _, hrun, rfl, rfl, by decide, ?_⟩
  exact (failed_serve_restores_iff (.of_run hrun) echoEndpoint (some 8) false
    (failingServe unknownLease) rfl rfl rfl).mpr (.inr ⟨⟨_, rfl⟩, by decide, by decide⟩)

/-- A second call for the instance fails in `kv_create` because the key exists, and takes the
    handler of the first with it. -/
theorem second_serve_removes_handler :
    ∃ s s', servings.run served = some s ∧
      servings.runFrom s (.serve echoEndpoint (some 7) false ::
        (failingServe (str "kv_create: key already exists: " ++
          echoEndpoint.instanceKey 7)).map (.step 1)) = some s' ∧
      (s'.calls 0).map (·.pc) = some .serving ∧
      s.handlers[echoEndpoint.subjectFor 7]? = some 0 ∧
      s'.handlers[echoEndpoint.subjectFor 7]? = none :=
  ⟨_, _, rfl, rfl, rfl, by decide, by decide⟩

end DynamoCpp.Components
