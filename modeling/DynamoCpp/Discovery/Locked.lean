import DynamoCpp.Discovery.Agreement

/-! # Sections under the store mutex

    What the operations of `InProcessDiscovery` do while they hold the mutex of the
    store.  `kv_create_or_validate` has two such sections, its lookup and, if the key is
    absent, `kv_create`.  Each section changes the key map by a list of mutations, one
    after the other, and sends each of them to the watchers of the key.
-/

namespace DynamoCpp.Discovery

open Framework EventLog WatchEvent

/-- A watch event as a change of the key map. -/
def WatchEvent.change (e : WatchEvent) : LogEvent Bytes KeyValue where
  key := e.kv.key
  img := if e.kind = .put then some e.kv else none

/-- What a consumer holds that has folded the events. -/
def folded (events : List WatchEvent) : Bytes → Option KeyValue :=
  EventLog.replay (fun _ => none) (events.map WatchEvent.change)

theorem folded_append (events more : List WatchEvent) :
    folded (events ++ more) = replay (folded events) (more.map change) := by
  rw [folded, List.map_append, replay_append]
  rfl

/-- The last event decides about its key. -/
theorem folded_concat (events : List WatchEvent) (e : WatchEvent) (k : Bytes) :
    folded (events ++ [e]) k =
      if e.kv.key = k then if e.kind = .put then some e.kv else none else folded events k := by
  rw [folded_append]
  simp only [List.map_cons, List.map_nil, replay_cons, replay_nil,
    apply, change, eq_comm]

namespace InProcess

/-- The lease id is neither "no lease" nor the id of a record. -/
def Store.leaseUnknown (s : Store) (leaseId : LeaseId) : Bool :=
  leaseId ≠ 0 && !s.leases.contains leaseId

/-- The first section of `kv_create_or_validate`: the result, or `none` to go on with
    `kv_create`. -/
def validate (s : Store) (key value : Bytes) : Option (Except Bytes Unit) :=
  match s.kvs[key]? with
  | some existing =>
    some (if existing.value = value then .ok ()
      else .error (str "kv_create_or_validate: existing value differs for " ++ key))
  | none => none

/-- The sections. -/
inductive Section where
  /-- The record of a new lease. -/
  | makeLease
  | revokeLease (leaseId : LeaseId)
  | kvCreate (key value : Bytes) (leaseId : Option LeaseId)
  | kvPut (key value : Bytes) (leaseId : Option LeaseId)
  | validate (key value : Bytes)

namespace Section

def run (net : Nat → Bool) (s : Store) : Section → Store × List Sent
  | .makeLease => (createLease s, [])
  | .revokeLease leaseId => InProcess.revokeLease net s leaseId
  | .kvCreate key value leaseId =>
    let o := InProcess.kvCreate net s key value leaseId
    (o.store, o.sent)
  | .kvPut key value leaseId =>
    let o := InProcess.kvPut net s key value leaseId
    (o.store, o.sent)
  -- the lookup changes nothing
  | .validate _ _ => (s, [])

/-- The mutations of the key map, in order. -/
def mutations (s : Store) : Section → List WatchEvent
  | .makeLease | .validate _ _ => []
  | .revokeLease leaseId => (((s.members leaseId).getD []).foldl collectDelete (s.kvs, [])).2
  | .kvCreate key value leaseId =>
    if s.kvs.contains key || s.leaseUnknown (leaseId.getD 0) then []
    else [⟨.put, ⟨key, value, leaseId.getD 0, s.revision + 1⟩⟩]
  | .kvPut key value leaseId =>
    if s.leaseUnknown (leaseId.getD 0) then []
    else [⟨.put, ⟨key, value, leaseId.getD 0, s.revision + 1⟩⟩]

end Section

/-! ## Keys -/

/-- Every entry is stored under its own key. -/
def Keyed (kvs : OrdMap Bytes KeyValue) : Prop :=
  ∀ (k : Bytes) (kv : KeyValue), kvs[k]? = some kv → kv.key = k

theorem replay_put (kvs : OrdMap Bytes KeyValue) (kv : KeyValue) :
    (fun k => (kvs.insert kv.key kv)[k]?) =
      replay (fun k => kvs[k]?) [change ⟨.put, kv⟩] := by
  funext k
  rw [OrdMap.get_insert]
  simp only [replay_cons, replay_nil, apply, change, if_true]

theorem replay_delete {kvs : OrdMap Bytes KeyValue} (hkeyed : Keyed kvs) {key : Bytes}
    {kv : KeyValue} (hkv : kvs[key]? = some kv) :
    (fun k => (kvs.erase key)[k]?) =
      replay (fun k => kvs[k]?) [change ⟨.delete, kv⟩] := by
  funext k
  rw [OrdMap.get_erase]
  simp [replay_cons, replay_nil, apply, change, hkeyed key kv hkv]

theorem Keyed.erase {kvs : OrdMap Bytes KeyValue} (h : Keyed kvs) (key : Bytes) :
    Keyed (kvs.erase key) := by
  intro k kv hkv
  exact h k kv (OrdMap.get_of_erase hkv).2

/-- The deletes that a revocation collects are the changes that it makes. -/
theorem replay_collectDelete (keys : List Bytes) :
    ∀ (r : OrdMap Bytes KeyValue × List WatchEvent), Keyed r.1 →
      Keyed (keys.foldl collectDelete r).1 ∧
      ∃ deletes, (keys.foldl collectDelete r).2 = r.2 ++ deletes ∧
        (fun k => (keys.foldl collectDelete r).1[k]?) =
          replay (fun k => r.1[k]?) (deletes.map change) := by
  induction keys with
  | nil => exact fun r h => ⟨h, [], (List.append_nil _).symm, rfl⟩
  | cons key keys ih =>
    intro r hkeyed
    rw [List.foldl_cons]
    cases hkv : r.1[key]? with
    | none =>
      -- a key that has gone is passed over
      have hskip : collectDelete r key = r := by rw [collectDelete, hkv]
      rw [hskip]
      exact ih r hkeyed
    | some kv =>
      have hcollect : collectDelete r key = (r.1.erase key, r.2 ++ [⟨.delete, kv⟩]) := by
        rw [collectDelete, hkv]
      rw [hcollect]
      obtain ⟨hkeyed', deletes, hdeletes, hreplay⟩ :=
        ih (r.1.erase key, r.2 ++ [⟨.delete, kv⟩]) (hkeyed.erase key)
      refine ⟨hkeyed', ⟨.delete, kv⟩ :: deletes, ?_, ?_⟩
      · rw [hdeletes, List.append_assoc]
        rfl
      · rw [hreplay, replay_delete hkeyed hkv, ← replay_append]
        rfl

/-! ## Notifying the watchers -/

/-- The events are sent one after the other. -/
def notifyAll (net : Nat → Bool) (events : List WatchEvent) (r : List Watcher × List Sent) :
    List Watcher × List Sent :=
  events.foldl (fun r event => notifyLoop net event r.1 r.2) r

theorem foldl_notifyLocked (net : Nat → Bool) (events : List WatchEvent) :
    ∀ r : Store × List Sent,
      events.foldl (notifyLocked net) r =
        ({ r.1 with watchers := (notifyAll net events (r.1.watchers, r.2)).1 },
          (notifyAll net events (r.1.watchers, r.2)).2) := by
  induction events with
  | nil => exact fun _ => rfl
  | cons event events ih =>
    intro r
    rw [List.foldl_cons, ih]
    rfl

/-- The events sent to a channel. -/
def sentTo (sent : List Sent) (sink : Nat) : List WatchEvent :=
  (sent.filter (·.sink = sink)).map (·.event)

theorem sentTo_append (sent sent' : List Sent) (sink : Nat) :
    sentTo (sent ++ sent') sink = sentTo sent sink ++ sentTo sent' sink := by
  simp [sentTo]

/-- One event goes to every watcher of its key once; a watcher is erased only if its send
    failed. -/
theorem notifyLoop_spec (net : Nat → Bool) (event : WatchEvent) (ws : List Watcher) :
    ∀ sent, ∃ new, (notifyLoop net event ws sent).2 = sent ++ new ∧
      (notifyLoop net event ws sent).1.Sublist ws ∧
      (∀ sink, sentTo new sink =
        (ws.filter fun w => w.sink = sink && decide (w.pre <+: event.kv.key)).map
          fun _ => event) ∧
      ∀ w ∈ ws, (∀ s ∈ new, s.sink = w.sink → s.ok = true) →
        w ∈ (notifyLoop net event ws sent).1 := by
  induction ws with
  | nil => exact fun sent => ⟨[], (List.append_nil _).symm, .slnil, fun _ => rfl, by simp⟩
  | cons x ws ih =>
    intro sent
    unfold notifyLoop
    split
    · next hpre =>
      obtain ⟨new, hsent, hsub, hto, hkept⟩ := ih (sent ++ [⟨x.sink, event, net sent.length⟩])
      refine ⟨⟨x.sink, event, net sent.length⟩ :: new, ?_, ?_, fun sink => ?_, ?_⟩
      · dsimp only
        split <;> rw [hsent, List.append_assoc] <;> rfl
      · dsimp only
        split
        · exact hsub.cons_cons x
        · exact hsub.cons x
      · rw [List.filter_cons, ← List.singleton_append, sentTo_append, hto sink]
        by_cases hsink : x.sink = sink <;> simp [sentTo, hsink, hpre]
      · intro w hw hok
        rcases List.mem_cons.mp hw with rfl | hw
        · have hsuccess : net sent.length = true := hok _ List.mem_cons_self rfl
          rw [if_pos hsuccess]
          exact List.mem_cons_self
        · have hrest := hkept w hw fun s hs => hok s (List.mem_cons_of_mem _ hs)
          split
          · exact List.mem_cons_of_mem _ hrest
          · exact hrest
    · next hpre =>
      obtain ⟨new, hsent, hsub, hto, hkept⟩ := ih sent
      refine ⟨new, hsent, hsub.cons_cons x, fun sink => ?_, fun w hw hok => ?_⟩
      · rw [List.filter_cons, hto sink]
        simp [hpre]
      · rcases List.mem_cons.mp hw with rfl | hw
        · exact List.mem_cons_self
        · exact List.mem_cons_of_mem _ (hkept w hw hok)

theorem filter_sink {ws : List Watcher} (hnodup : (ws.map (·.sink)).Nodup) {w : Watcher}
    (hw : w ∈ ws) : ws.filter (fun x => x.sink = w.sink) = [w] := by
  induction ws with
  | nil => cases hw
  | cons x ws ih =>
    rw [List.map_cons, List.nodup_cons] at hnodup
    rcases List.mem_cons.mp hw with rfl | hw
    · have hrest : ws.filter (fun x => x.sink = w.sink) = [] := by
        refine List.filter_eq_nil_iff.mpr fun x hx hsink => hnodup.1 ?_
        exact List.mem_map.mpr ⟨x, hx, of_decide_eq_true hsink⟩
      rw [List.filter_cons_of_pos (by simp), hrest]
    · have hne : x.sink ≠ w.sink := fun heq =>
        hnodup.1 (List.mem_map.mpr ⟨w, hw, heq.symm⟩)
      rw [List.filter_cons_of_neg (by simpa using hne), ih hnodup.2 hw]

/-- With one watcher for each channel, a channel that accepts its events gets those of its
    prefix in order, and its watcher stays. -/
theorem notifyAll_spec (net : Nat → Bool) (events : List WatchEvent) :
    ∀ (ws : List Watcher) (sent : List Sent), (ws.map (·.sink)).Nodup →
      ∃ new, (notifyAll net events (ws, sent)).2 = sent ++ new ∧
        (notifyAll net events (ws, sent)).1.Sublist ws ∧
        ∀ w ∈ ws, (∀ s ∈ new, s.sink = w.sink → s.ok = true) →
          w ∈ (notifyAll net events (ws, sent)).1 ∧
          sentTo new w.sink = events.filter fun e => decide (w.pre <+: e.kv.key) := by
  induction events with
  | nil =>
    exact fun ws sent _ => ⟨[], (List.append_nil _).symm, .refl _, fun w hw _ => ⟨hw, rfl⟩⟩
  | cons event events ih =>
    intro ws sent hnodup
    obtain ⟨new, hsent, hsub, hto, hkept⟩ := notifyLoop_spec net event ws sent
    obtain ⟨more, hsent', hsub', hrest⟩ := ih (notifyLoop net event ws sent).1
      (notifyLoop net event ws sent).2 (hnodup.sublist (hsub.map _))
    refine ⟨new ++ more, ?_, hsub'.trans hsub, fun w hw hok => ?_⟩
    · rw [← List.append_assoc, ← hsent]
      exact hsent'
    have hw' := hkept w hw fun s hs => hok s (List.mem_append_left _ hs)
    obtain ⟨hstays, hevents⟩ := hrest w hw' fun s hs => hok s (List.mem_append_right _ hs)
    refine ⟨hstays, ?_⟩
    have hone : (ws.filter fun x => x.sink = w.sink && decide (x.pre <+: event.kv.key)) =
        [w].filter fun x => decide (x.pre <+: event.kv.key) := by
      rw [← filter_sink hnodup hw, List.filter_filter]
      refine List.filter_congr fun x _ => ?_
      rw [Bool.and_comm]
    rw [sentTo_append, hto, hevents, hone]
    by_cases hpre : w.pre <+: event.kv.key <;> simp [hpre]

/-! ## What a section does -/

/-- The entry is stored and its put is sent. -/
theorem storeKey_eq (net : Nat → Bool) (s : Store) (kv : KeyValue) :
    storeKey net s kv =
      ⟨.ok (), { s with
          kvs := s.kvs.insert kv.key kv
          watchers := (notifyAll net [⟨.put, kv⟩] (s.watchers, [])).1 },
        (notifyAll net [⟨.put, kv⟩] (s.watchers, [])).2⟩ := rfl

theorem bindLease_watchers (s : Store) (key : Bytes) (leaseId : LeaseId) :
    (bindLease s key leaseId).watchers = s.watchers := by
  unfold bindLease
  split <;> rfl

theorem unbindLeaseLocked_watchers (s : Store) (key : Bytes) (leaseId : LeaseId) :
    (unbindLeaseLocked s key leaseId).watchers = s.watchers := by
  unfold unbindLeaseLocked
  split
  · rfl
  · split <;> rfl

/-- The bookkeeping of leases in `kv_put`. -/
def rebind (s : Store) (key : Bytes) (newLease : LeaseId) : Store :=
  match s.kvs[key]? with
  | some existing =>
    if existing.leaseId ≠ newLease then
      bindLease (unbindLeaseLocked s key existing.leaseId) key newLease
    else s
  | none => bindLease s key newLease

theorem rebind_frame (s : Store) (key : Bytes) (newLease : LeaseId) :
    (rebind s key newLease).kvs = s.kvs ∧ (rebind s key newLease).revision = s.revision ∧
      (rebind s key newLease).nextLeaseId = s.nextLeaseId ∧
      (rebind s key newLease).watchers = s.watchers := by
  unfold rebind
  split
  · next existing _ =>
    obtain ⟨hkvs, hrev, hnext⟩ := unbindLeaseLocked_frame s key existing.leaseId
    obtain ⟨hkvs', hrev', hnext'⟩ :=
      bindLease_frame (unbindLeaseLocked s key existing.leaseId) key newLease
    split
    · refine ⟨hkvs'.trans hkvs, hrev'.trans hrev, hnext'.trans hnext, ?_⟩
      rw [bindLease_watchers, unbindLeaseLocked_watchers]
    · exact ⟨rfl, rfl, rfl, rfl⟩
  · obtain ⟨hkvs, hrev, hnext⟩ := bindLease_frame s key newLease
    exact ⟨hkvs, hrev, hnext, bindLease_watchers s key newLease⟩

theorem kvPut_unknown {s : Store} {leaseId : Option LeaseId} (net : Nat → Bool)
    (key value : Bytes) (hunknown : s.leaseUnknown (leaseId.getD 0) = true) :
    kvPut net s key value leaseId = ⟨.error (str "kv_put: unknown or expired lease"), s, []⟩ :=
  if_pos hunknown

theorem kvPut_known {s : Store} {leaseId : Option LeaseId} (net : Nat → Bool)
    (key value : Bytes) (hknown : s.leaseUnknown (leaseId.getD 0) = false) :
    kvPut net s key value leaseId =
      storeKey net { rebind s key (leaseId.getD 0) with revision := s.revision + 1 }
        ⟨key, value, leaseId.getD 0, s.revision + 1⟩ := by
  have hrevision := (rebind_frame s key (leaseId.getD 0)).2.1
  rw [← hrevision]
  exact if_neg (by rw [← Store.leaseUnknown, hknown]; exact Bool.false_ne_true)

theorem kvCreate_present {s : Store} {key : Bytes} (net : Nat → Bool) (value : Bytes)
    (leaseId : Option LeaseId) (hpresent : s.kvs.contains key = true) :
    kvCreate net s key value leaseId =
      ⟨.error (str "kv_create: key already exists: " ++ key), s, []⟩ := by
  rw [kvCreate, if_pos hpresent]

/-- The new entry and its notification. -/
theorem store_spec (net : Nat → Bool) {s t : Store} (hkeyed : Keyed s.kvs) (hkvs : t.kvs = s.kvs)
    (hwatchers : t.watchers = s.watchers) (kv : KeyValue) :
    Keyed (storeKey net t kv).store.kvs ∧
      (fun k => (storeKey net t kv).store.kvs[k]?) =
        replay (fun k => s.kvs[k]?) [change ⟨.put, kv⟩] ∧
      ((storeKey net t kv).store.watchers, (storeKey net t kv).sent) =
        notifyAll net [⟨.put, kv⟩] (s.watchers, []) := by
  rw [storeKey_eq]
  rw [hkvs, hwatchers]
  refine ⟨fun k kv' hkv' => ?_, replay_put s.kvs kv, rfl⟩
  rcases OrdMap.get_of_insert hkv' with ⟨rfl, rfl⟩ | hkv'
  · rfl
  · exact hkeyed k kv' hkv'

/-- A section changes the key map by its mutations and sends them to the watchers. -/
theorem Section.run_spec (net : Nat → Bool) {s : Store} (hkeyed : Keyed s.kvs) (op : Section) :
    Keyed (op.run net s).1.kvs ∧
      (fun k => (op.run net s).1.kvs[k]?) =
        replay (fun k => s.kvs[k]?) ((op.mutations s).map change) ∧
      ((op.run net s).1.watchers, (op.run net s).2) =
        notifyAll net (op.mutations s) (s.watchers, []) := by
  cases op with
  | makeLease | validate => exact ⟨hkeyed, rfl, rfl⟩
  | revokeLease leaseId =>
    unfold run mutations InProcess.revokeLease
    dsimp only
    rw [Store.members]
    cases s.leases[leaseId]? with
    | none => exact ⟨hkeyed, rfl, rfl⟩
    | some record =>
      obtain ⟨hkeyed', deletes, hdeletes, hreplay⟩ :=
        replay_collectDelete record.keys (s.kvs, []) hkeyed
      dsimp only [Option.map_some, Option.getD_some]
      rw [foldl_notifyLocked]
      refine ⟨hkeyed', ?_, rfl⟩
      rw [hdeletes]
      exact hreplay
  | kvCreate key value leaseId =>
    unfold run mutations
    dsimp only
    cases hpresent : s.kvs.contains key with
    | true =>
      rw [kvCreate_present net value leaseId hpresent, Bool.true_or, if_pos rfl]
      exact ⟨hkeyed, rfl, rfl⟩
    | false =>
      rw [Bool.false_or]
      cases hunknown : s.leaseUnknown (leaseId.getD 0) with
      | true =>
        rw [kvCreate_unknown net value hpresent hunknown, if_pos rfl]
        exact ⟨hkeyed, rfl, rfl⟩
      | false =>
        obtain ⟨hkvs, hrevision, _⟩ := bindLease_frame s key (leaseId.getD 0)
        rw [kvCreate_known net value hpresent hunknown, if_neg Bool.false_ne_true, hrevision]
        exact store_spec net hkeyed hkvs (bindLease_watchers s key _) _
  | kvPut key value leaseId =>
    unfold run mutations
    dsimp only
    cases hunknown : s.leaseUnknown (leaseId.getD 0) with
    | true =>
      rw [kvPut_unknown net key value hunknown, if_pos rfl]
      exact ⟨hkeyed, rfl, rfl⟩
    | false =>
      obtain ⟨hkvs, _, _, hwatchers⟩ := rebind_frame s key (leaseId.getD 0)
      rw [kvPut_known net key value hunknown, if_neg Bool.false_ne_true]
      exact store_spec net hkeyed hkvs hwatchers _

end InProcess

end DynamoCpp.Discovery
