import Mathlib.Data.List.Infix
import DynamoCpp.Discovery.Process

/-! # Replaying the log

    A resync replays the logged events after the revision that a client has
    seen.  Applied to the key map as it was at that revision they give the current
    key map, restricted to the prefix that the client watches, whenever
    `can_replay_from` says that the log reaches back far enough.

    The revisions that a process goes through are those between its steps and,
    since an expiring lease takes one revision for each of its keys, those inside of
    an expiry.
-/

namespace DynamoCpp.Discovery

open Framework EventLog

/-! ## The states that a run goes through -/

/-- The states in the loop of `expire_lease_locked`, after each of the keys. -/
def expiryStates (net : Net) (s : Server) (leaseId : LeaseId) : List Server :=
  match s.leases[leaseId]? with
  | none => []
  | some record =>
    record.keys.inits.map fun keys => (keys.foldl (expireKey net leaseId) (s, [])).1

/-- The states inside of a step. -/
def Step.passes (s : Server) : Step → List Server
  | .request net _ _ _ (.revoke leaseId) => expiryStates net s leaseId
  | .expire net _ leaseId => expiryStates net s leaseId
  | _ => []

/-- A run of the process has gone through the states `seen` and is now in `s`. -/
inductive Visited : List Server → Server → Prop where
  | init : Visited [discoveryd.init] discoveryd.init
  | step : ∀ {seen : List Server} {s s' : Server} (l : Step), Visited seen s →
      discoveryd.exec s l = some s' → Visited (seen ++ l.passes s ++ [s']) s'

theorem Visited.reachable {seen : List Server} {s : Server} (h : Visited seen s) :
    discoveryd.Reachable s := by
  induction h with
  | init => exact .init
  | step l _ hexec ih => exact .step l ih hexec

/-- A run goes on from what has been visited. -/
theorem Visited.run {ls : List Step} : ∀ {seen : List Server} {s s' : Server}, Visited seen s →
    discoveryd.runFrom s ls = some s' → ∃ seen', seen ⊆ seen' ∧ Visited seen' s' := by
  induction ls with
  | nil =>
    intro seen s s' h hrun
    obtain rfl := Option.some.inj hrun
    exact ⟨seen, fun _ hm => hm, h⟩
  | cons l ls ih =>
    intro seen s s' h hrun
    obtain ⟨m, hm, hrest⟩ := Option.bind_eq_some_iff.mp hrun
    obtain ⟨seen', hsub, hv⟩ := ih (h.step l hm) hrest
    refine ⟨seen', fun x hx => hsub ?_, hv⟩
    exact List.mem_append_left _ (List.mem_append_left _ hx)

/-! ## Histories only grow -/

/-- The expiry goes through its states on the way to its end. -/
theorem continues_expiryStates {net : Net} {s m : Server} {leaseId : LeaseId}
    (hm : m ∈ expiryStates net s leaseId) :
    Continues s m ∧ Continues m (expireLeaseLocked net s [] leaseId).1 := by
  unfold expiryStates at hm
  cases hrecord : s.leases[leaseId]? with
  | none =>
    rw [hrecord] at hm
    cases hm
  | some record =>
    rw [hrecord] at hm
    obtain ⟨done, hdone, rfl⟩ := List.mem_map.mp hm
    obtain ⟨rest, hrest⟩ := (List.mem_inits _ _).mp hdone
    refine ⟨.of_advances (advances_expireKeys net leaseId s [] done (s, []) [] (.same (.refl s))),
      ?_⟩
    obtain ⟨es, ha⟩ := advances_expireKeys net leaseId _ _ rest
      (done.foldl (expireKey net leaseId) (s, [])) [] (.same (.refl _))
    rw [← List.foldl_append, hrest] at ha
    rw [expireLeaseLocked, hrecord]
    exact .of_advances ⟨es, ha.sameStore ⟨⟨rfl, rfl, rfl⟩, rfl, rfl, rfl, rfl⟩⟩

theorem continues_passes {s s' m : Server} {l : Step} (hexec : discoveryd.exec s l = some s')
    (hm : m ∈ l.passes s) : Continues s m ∧ Continues m s' := by
  change Step.exec s l = some s' at hexec
  match l with
  | .request net now c req (.revoke leaseId) =>
    obtain ⟨-, rfl⟩ := enabled hexec
    exact continues_expiryStates hm
  | .expire net now leaseId =>
    obtain ⟨-, rfl⟩ := enabled hexec
    exact continues_expiryStates hm

/-- Every state that a run went through has a history that the present one continues. -/
theorem Visited.history {seen : List Server} {s : Server} (hv : Visited seen s) :
    ∀ m ∈ seen, ∃ h es, History m h ∧ History s (h ++ es) := by
  induction hv with
  | init =>
    intro m hm
    obtain rfl := List.mem_singleton.mp hm
    exact ⟨[], [], history_init, history_init⟩
  | @step seen s s' l hv hexec ih =>
    intro m hm
    rcases List.mem_append.mp hm with hm | hm
    · rcases List.mem_append.mp hm with hm | hm
      · obtain ⟨h, es, hist, hist'⟩ := ih m hm
        obtain ⟨es', hnext⟩ := continues_step hexec
        refine ⟨h, es ++ es', hist, ?_⟩
        rw [← List.append_assoc]
        exact hnext _ hist'
      · obtain ⟨⟨es, hto⟩, ⟨es', hfrom⟩⟩ := continues_passes hexec hm
        obtain ⟨h, hist⟩ := exists_history hv.reachable
        exact ⟨h ++ es, es', hto h hist, hfrom _ (hto h hist)⟩
    · obtain rfl := List.mem_singleton.mp hm
      obtain ⟨h, hist⟩ := exists_history (hv.reachable.step l hexec)
      exact ⟨h, [], hist, by rw [List.append_nil]; exact hist⟩

/-! ## Replay -/

/-- The part of a key map under a prefix. -/
def restrict (pre : Bytes) (kvs : OrdMap Bytes Entry) : OrdMap Bytes Entry :=
  kvs.filter fun k _ => decide (pre <+: k)

/-- The logged events after revision `r` whose key has the prefix. -/
def missed (s : Server) (pre : Bytes) (r : Nat) : List LoggedEvent :=
  s.eventLog.filter fun e => decide (r < e.rev) && decide (pre <+: e.key)

theorem restrict_getElem? (pre : Bytes) (kvs : OrdMap Bytes Entry) (k : Bytes) :
    (restrict pre kvs)[k]? = if pre <+: k then kvs[k]? else none := by
  rw [restrict, Std.ExtTreeMap.getElem?_filter']
  by_cases hk : pre <+: k
  · rw [if_pos hk]
    cases kvs[k]? <;> simp [hk]
  · rw [if_neg hk]
    simp [hk]

/-- Applying events to a map is replaying them. -/
theorem foldl_applyTo_getElem? (k : Bytes) : ∀ (es : List LoggedEvent) (kvs : OrdMap Bytes Entry),
    (es.foldl (fun kvs e => e.applyTo kvs) kvs)[k]? =
      replay (fun k => kvs[k]?) (changes es) k
  | [], _ => rfl
  | e :: es, kvs => by
    have happly : (fun k => (e.applyTo kvs)[k]?) = apply (fun k => kvs[k]?) e.change :=
      funext fun k => e.applyTo_getElem? kvs k
    rw [List.foldl_cons, foldl_applyTo_getElem? k es, happly]
    rfl

theorem changes_filter (es : List LoggedEvent) (pre : Bytes) :
    changes (es.filter fun e => decide (pre <+: e.key)) =
      (changes es).filter fun e => decide (pre <+: e.key) := by
  rw [changes, changes, List.filter_map]
  rfl

/-- The events after an earlier state lead from its key map to the present one. -/
theorem History.replay_continues {s m : Server} {h es : List LoggedEvent} (hm : History m h)
    (hs : History s (h ++ es)) (k : Bytes) :
    s.kvs[k]? = replay (fun k => m.kvs[k]?) (changes es) k := by
  have hstart : (fun k => m.kvs[k]?) = replay (fun _ => none) (changes h) := by
    funext k
    rw [hm.kvs k, ← changes_length, stateAt_length]
  rw [hs.kvs k, ← changes_length, stateAt_length, changes_append, replay_append,
    hstart]

/-- The revisions of the log. -/
theorem History.log_revs {s : Server} {h : List LoggedEvent} (hist : History s h) :
    s.eventLog.length = min s.revision kEventLogCapacity ∧
      s.eventLog.map (·.rev) =
        List.range' (s.revision - s.eventLog.length + 1) s.eventLog.length := by
  have hlen : s.eventLog.length = min s.revision kEventLogCapacity := by
    rw [hist.log, List.length_drop, hist.revision]
    omega
  refine ⟨hlen, List.ext_getElem? fun i => ?_⟩
  by_cases hi : i < s.eventLog.length
  · obtain ⟨e, he⟩ : ∃ e, s.eventLog[i]? = some e := ⟨_, List.getElem?_eq_getElem hi⟩
    rw [List.getElem?_map, he, List.getElem?_range' hi]
    -- the log starts at position `revision - length` of the history
    rw [hist.log, List.getElem?_drop] at he
    have hrev := hist.numbered _ e he
    have hpos : s.revision = h.length := hist.revision
    simp only [Option.map_some, Option.some.injEq]
    omega
  · rw [List.getElem?_eq_none (by simpa using hi), List.getElem?_eq_none (by simpa using hi)]

/-- **Replay is sound**, and the log holds the newest revisions without a gap. -/
theorem replay_sound {seen : List Server} {s m : Server} (hv : Visited seen s) (hm : m ∈ seen)
    (pre : Bytes) :
    (canReplayFrom s m.revision = true →
      (missed s pre m.revision).foldl (fun kvs e => e.applyTo kvs) (restrict pre m.kvs) =
        restrict pre s.kvs) ∧
    s.eventLog.length = min s.revision kEventLogCapacity ∧
      s.eventLog.map (·.rev) =
        List.range' (s.revision - s.eventLog.length + 1) s.eventLog.length := by
  obtain ⟨h, es, histm, hist⟩ := hv.history m hm
  refine ⟨fun hcan => ?_, hist.log_revs⟩
  have hmissed : missed s pre m.revision = es.filter fun e => decide (pre <+: e.key) := by
    rw [missed, hist.log_after hcan, histm.revision, List.drop_left]
  refine Std.ExtTreeMap.ext_getElem? fun k => ?_
  rw [foldl_applyTo_getElem?, hmissed, changes_filter, restrict_getElem?]
  by_cases hk : pre <+: k
  · -- every event of `k` is replayed
    rw [if_pos hk, histm.replay_continues hist, replay_filter]
    · refine replay_congr ?_ _
      rw [restrict_getElem?, if_pos hk]
    · intro e _ hek
      rw [hek]
      exact decide_eq_true hk
  · -- no event of `k` is
    rw [if_neg hk, replay_of_no_event]
    · rw [restrict_getElem?, if_neg hk]
    · intro e he hek
      have hpre := (List.mem_filter.mp he).2
      rw [hek] at hpre
      exact hk (of_decide_eq_true hpre)

/-- A key under a lease and one without, and the lease is revoked. -/
def revoking : List Step :=
  [.accept, .request (fun _ => true) 0 0 1 (.createLease 10),
    .request (fun _ => true) 0 0 2 (.kvCreate (str "w/a") (str "v") 1),
    .request (fun _ => true) 0 0 3 (.kvPut (str "w/b") (str "v") 0),
    .request (fun _ => true) 0 0 4 (.revoke 1)]

theorem revoking_runs : (discoveryd.run revoking).isSome = true := by decide

theorem revoking_replay :
    (missed ((discoveryd.run revoking).get revoking_runs) (str "w/") 0).foldl
        (fun kvs e => e.applyTo kvs) (restrict (str "w/") ∅) =
      restrict (str "w/") ((discoveryd.run revoking).get revoking_runs).kvs := by
  obtain ⟨seen, hsub, hv⟩ := Visited.init.run (Option.some_get revoking_runs).symm
  exact (replay_sound hv (hsub List.mem_cons_self) (str "w/")).1 (by decide)

end DynamoCpp.Discovery
