import DynamoCpp.Discovery.InProcess
import DynamoCpp.Discovery.Leases
import DynamoCpp.Discovery.Replay

/-! # Agreement of the two stores

    `InProcessDiscovery` and discoveryd implement the same operations twice.  Run on
    the same sequence of operations they carry out and reject the same ones, and hold
    the same keys with the same values and leases.  They number revisions
    differently: the in-process store takes a revision for a `kv_create` that it
    rejects for its lease, and none for the keys that a revocation deletes.  Two
    entries have the same `mod_revision` exactly if they were written while the two
    counts were equal (`Ledger`).
-/

namespace DynamoCpp.Discovery

open Framework InProcess

/-! ## Operations -/

/-- The operations of the interface that both backends answer on their own. -/
inductive Op where
  | createLease (ttl : Int)
  | revoke (leaseId : LeaseId)
  | kvCreate (key value : Bytes) (leaseId : Option LeaseId)
  | kvPut (key value : Bytes) (leaseId : Option LeaseId)
  | kvCreateOrValidate (key value : Bytes) (leaseId : Option LeaseId)
  | kvGetPrefix (pre : Bytes)

/-- What the environment decides for one operation: the clock and the connection of
    the request, and which writes and sends to watchers succeed. -/
structure Env where
  net   : Net
  now   : Int
  conn  : ConnId
  req   : Nat
  sinks : Nat → Bool

/-- Success or failure, and the list that `kv_get_prefix` returns. -/
structure OpResult where
  ok  : Bool
  kvs : Option (List KeyValue) := none
  deriving DecidableEq

/-- The request that the client sends. -/
def Op.request : Op → Request
  | .createLease ttl => .createLease ttl
  | .revoke leaseId => .revoke leaseId
  | .kvCreate key value leaseId => .kvCreate key value (leaseId.getD 0)
  | .kvPut key value leaseId => .kvPut key value (leaseId.getD 0)
  | .kvCreateOrValidate key value leaseId => .kvCreateOrValidate key value (leaseId.getD 0)
  | .kvGetPrefix pre => .getPrefix pre

namespace InProcess

def Outcome.answer (o : Outcome) : OpResult × Store :=
  match o.result with
  | .ok _ => (⟨true, none⟩, o.store)
  | .error _ => (⟨false, none⟩, o.store)

def Store.answer (env : Env) (t : Store) : Op → OpResult × Store
  | .createLease _ => (⟨true, none⟩, createLease t)
  | .revoke leaseId => (⟨true, none⟩, (revokeLease env.sinks t leaseId).1)
  | .kvCreate key value leaseId => (kvCreate env.sinks t key value leaseId).answer
  | .kvPut key value leaseId => (kvPut env.sinks t key value leaseId).answer
  | .kvCreateOrValidate key value leaseId =>
    (kvCreateOrValidate env.sinks t key value leaseId).answer
  | .kvGetPrefix pre => (⟨true, some (kvGetPrefix t pre)⟩, t)

end InProcess

/-! ## Where the revisions drift apart -/

/-- What makes the revisions differ. -/
structure Ledger where
  /-- Creates that were rejected because of their lease. -/
  rejected : Nat := 0
  /-- Keys that revocations have deleted. -/
  deleted  : Nat := 0
  /-- The keys whose last write came when the two counts differed. -/
  stale    : OrdSet Bytes := ∅

namespace Ledger

def reject (g : Ledger) : Ledger := { g with rejected := g.rejected + 1 }

def write (g : Ledger) (key : Bytes) : Ledger :=
  { g with
    stale := if g.rejected = g.deleted then g.stale.erase key else g.stale.insert key }

/-- The ledger after an operation that finds discoveryd in state `s`. -/
def step (g : Ledger) (s : Server) : Op → Ledger
  | .createLease _ => g
  | .revoke leaseId => { g with deleted := g.deleted + ((s.members leaseId).getD []).length }
  | .kvCreate key _ leaseId =>
    if s.kvs.contains key then g
    else if leaseUnknown s (leaseId.getD 0) then g.reject
    else g.write key
  | .kvPut key _ leaseId => if leaseUnknown s (leaseId.getD 0) then g else g.write key
  | .kvCreateOrValidate key _ leaseId =>
    if s.kvs.contains key then g
    else if leaseUnknown s (leaseId.getD 0) then g.reject
    else g.write key
  | .kvGetPrefix _ => g

end Ledger

/-! ## Lease tables -/

/-- The lists of keys after a key has been bound. -/
def bindMembers (m : LeaseId → Option (List Bytes)) (key : Bytes) (leaseId : LeaseId) :
    LeaseId → Option (List Bytes) :=
  if leaseId = 0 then m else Function.update m leaseId (some ((m leaseId).getD [] ++ [key]))

/-- The lists of keys after a key has been detached. -/
def unbindMembers (m : LeaseId → Option (List Bytes)) (key : Bytes) (leaseId : LeaseId) :
    LeaseId → Option (List Bytes) :=
  if leaseId = 0 then m
  else
    match m leaseId with
    | none => m
    | some keys => Function.update m leaseId (some (keys.filter (· ≠ key)))

theorem members_bindLease (s : Server) (key : Bytes) (leaseId : LeaseId) :
    (bindLease s key leaseId).members = bindMembers s.members key leaseId := by
  unfold bindLease bindMembers
  split
  · rfl
  · rw [@members_insert s _ leaseId _ rfl]
    cases h : s.leases[leaseId]? <;> simp [Server.members, h]

theorem members_unbindLeaseLocked (s : Server) (key : Bytes) (leaseId : LeaseId) :
    (unbindLeaseLocked s key leaseId).members = unbindMembers s.members key leaseId := by
  unfold unbindLeaseLocked unbindMembers
  split
  · rfl
  · cases h : s.leases[leaseId]? with
    | none => simp [Server.members, h]
    | some record =>
      rw [@members_insert s _ leaseId _ rfl]
      simp [Server.members, h]

namespace InProcess

/-- The keys that a lease lists. -/
def Store.members (t : Store) (l : LeaseId) : Option (List Bytes) :=
  (t.leases[l]?).map (·.keys)

theorem members_insert {t t' : Store} {leaseId : LeaseId} {record : LeaseRecord}
    (h : t'.leases = t.leases.insert leaseId record) :
    t'.members = Function.update t.members leaseId (some record.keys) := by
  have hlookup := OrdMap.lookup_insert (fun r => r.map (·.keys)) t.leases leaseId record
  rw [← h] at hlookup
  exact hlookup

theorem members_erase {t t' : Store} {leaseId : LeaseId}
    (h : t'.leases = t.leases.erase leaseId) :
    t'.members = Function.update t.members leaseId none := by
  have hlookup := OrdMap.lookup_erase (fun r => r.map (·.keys)) t.leases leaseId
  rw [← h] at hlookup
  exact hlookup

theorem members_bindLease (t : Store) (key : Bytes) (leaseId : LeaseId) :
    (bindLease t key leaseId).members = bindMembers t.members key leaseId := by
  unfold bindLease bindMembers
  split
  · rfl
  · rw [@members_insert t _ leaseId _ rfl]
    cases h : t.leases[leaseId]? <;> simp [Store.members, h]

theorem members_unbindLeaseLocked (t : Store) (key : Bytes) (leaseId : LeaseId) :
    (unbindLeaseLocked t key leaseId).members = unbindMembers t.members key leaseId := by
  unfold unbindLeaseLocked unbindMembers
  split
  · rfl
  · cases h : t.leases[leaseId]? with
    | none => simp [Store.members, h]
    | some record =>
      rw [@members_insert t _ leaseId _ rfl]
      simp [Store.members, h]

end InProcess

/-! ## The relation between the two states -/

/-- The entries of a key, up to the revision if the key is stale. -/
def SameEntry (stale : Prop) (k : Bytes) : Option Entry → Option KeyValue → Prop
  | none, none => True
  | some entry, some kv => kv.key = k ∧ kv.value = entry.value ∧ kv.leaseId = entry.leaseId ∧
      (entry.modRevision = kv.modRevision ↔ ¬ stale)
  | _, _ => False

structure Agrees (g : Ledger) (s : Server) (t : InProcess.Store) : Prop where
  bound    : s.Bound
  next     : t.nextLeaseId = s.nextLeaseId
  members  : t.members = s.members
  /-- Puts count for both, deletes for discoveryd, rejected creates for the store. -/
  revision : s.revision + g.rejected = t.revision + g.deleted
  entries  : ∀ k, SameEntry (k ∈ g.stale) k s.kvs[k]? t.kvs[k]?

theorem agrees_init : Agrees {} {} {} where
  bound := bound_init
  next := rfl
  members := rfl
  revision := rfl
  entries := by
    intro k
    simp [SameEntry]

namespace Agrees

variable {g : Ledger} {s s' : Server} {t t' : InProcess.Store}

/-- A key is in both stores or in none. -/
theorem entry_cases (h : Agrees g s t) (k : Bytes) :
    (s.kvs[k]? = none ∧ t.kvs[k]? = none) ∨
      ∃ entry kv, s.kvs[k]? = some entry ∧ t.kvs[k]? = some kv ∧ kv.key = k ∧
        kv.value = entry.value ∧ kv.leaseId = entry.leaseId ∧
        (entry.modRevision = kv.modRevision ↔ k ∉ g.stale) := by
  have hentry := h.entries k
  unfold SameEntry at hentry
  split at hentry
  · next hs ht => exact .inl ⟨hs, ht⟩
  · next entry kv hs ht => exact .inr ⟨entry, kv, hs, ht, hentry⟩
  · exact hentry.elim

theorem contains_kvs (h : Agrees g s t) (k : Bytes) : t.kvs.contains k = s.kvs.contains k := by
  rw [Std.ExtTreeMap.contains_eq_isSome_getElem?, Std.ExtTreeMap.contains_eq_isSome_getElem?]
  rcases h.entry_cases k with ⟨hs, ht⟩ | ⟨entry, kv, hs, ht, -⟩ <;> rw [hs, ht] <;> rfl

theorem contains_leases (h : Agrees g s t) (l : LeaseId) :
    t.leases.contains l = s.leases.contains l := by
  have hmembers := congrFun h.members l
  rw [Std.ExtTreeMap.contains_eq_isSome_getElem?, Std.ExtTreeMap.contains_eq_isSome_getElem?,
    ← Option.isSome_map (f := (·.keys)) (x := t.leases[l]?),
    ← Option.isSome_map (f := (·.keys)) (x := s.leases[l]?)]
  exact congrArg Option.isSome hmembers

/-- Both look a lease up with the same result. -/
theorem leaseUnknown_eq (h : Agrees g s t) (l : LeaseId) :
    (l ≠ 0 && !t.leases.contains l) = leaseUnknown s l := by
  rw [leaseUnknown, h.contains_leases]

/-- Both write a key. -/
theorem write (h : Agrees g s t) {key value : Bytes} {leaseId : LeaseId} (hbound : s'.Bound)
    (hnext : t'.nextLeaseId = s'.nextLeaseId) (hmembers : t'.members = s'.members)
    (hrev : s'.revision = s.revision + 1) (hrev' : t'.revision = t.revision + 1)
    (hkvs : s'.kvs = s.kvs.insert key ⟨value, leaseId, s.revision + 1⟩)
    (hkvs' : t'.kvs = t.kvs.insert key ⟨key, value, leaseId, t.revision + 1⟩) :
    Agrees (g.write key) s' t' where
  bound := hbound
  next := hnext
  members := hmembers
  revision := by
    have hcount := h.revision
    show s'.revision + g.rejected = t'.revision + g.deleted
    omega
  entries := by
    intro k
    rw [hkvs, hkvs', OrdMap.get_insert, OrdMap.get_insert]
    have hcount := h.revision
    by_cases hk : k = key
    · subst hk
      rw [if_pos rfl, if_pos rfl]
      refine ⟨rfl, rfl, rfl, ?_⟩
      -- the new revisions are equal exactly if the two counts are
      have hfresh : k ∈ (g.write k).stale ↔ g.rejected ≠ g.deleted := by
        unfold Ledger.write
        by_cases hequal : g.rejected = g.deleted <;> simp [hequal]
      rw [hfresh]
      show s.revision + 1 = t.revision + 1 ↔ _
      omega
    · rw [if_neg hk, if_neg hk]
      have hstale : k ∈ (g.write key).stale ↔ k ∈ g.stale := by
        unfold Ledger.write
        dsimp only
        split
        · rw [OrdSet.mem_erase, and_iff_right hk]
        · rw [OrdSet.mem_insert, or_iff_right hk]
      rw [hstale]
      exact h.entries k

end Agrees

namespace InProcess

theorem bindLease_frame (t : Store) (key : Bytes) (leaseId : LeaseId) :
    (bindLease t key leaseId).kvs = t.kvs ∧ (bindLease t key leaseId).revision = t.revision ∧
      (bindLease t key leaseId).nextLeaseId = t.nextLeaseId := by
  unfold bindLease
  split <;> exact ⟨rfl, rfl, rfl⟩

theorem unbindLeaseLocked_frame (t : Store) (key : Bytes) (leaseId : LeaseId) :
    (unbindLeaseLocked t key leaseId).kvs = t.kvs ∧
      (unbindLeaseLocked t key leaseId).revision = t.revision ∧
      (unbindLeaseLocked t key leaseId).nextLeaseId = t.nextLeaseId := by
  unfold unbindLeaseLocked
  split
  · exact ⟨rfl, rfl, rfl⟩
  · split <;> exact ⟨rfl, rfl, rfl⟩

end InProcess

/-- The bookkeeping of leases has gone from `s` to `s₁` and from `t` to `t₁`: the leases
    list the same keys in both, and nothing else has changed. -/
structure Rebound (s s₁ : Server) (t t₁ : InProcess.Store) : Prop where
  same     : SameStore s s₁
  ids      : SameLeaseIds s s₁
  kvs      : t₁.kvs = t.kvs
  revision : t₁.revision = t.revision
  next     : t₁.nextLeaseId = t.nextLeaseId
  members  : t₁.members = s₁.members

namespace Rebound

variable {s s₁ : Server} {t t₁ : InProcess.Store}

theorem refl (h : t.members = s.members) : Rebound s s t t :=
  ⟨.refl s, ⟨rfl, fun _ => rfl⟩, rfl, rfl, rfl, h⟩

theorem bind (h : Rebound s s₁ t t₁) (key : Bytes) {leaseId : LeaseId}
    (hknown : leaseUnknown s leaseId = false) :
    Rebound s (bindLease s₁ key leaseId) t (InProcess.bindLease t₁ key leaseId) := by
  have hknown₁ : leaseUnknown s₁ leaseId = false := by rw [h.ids.leaseUnknown, hknown]
  obtain ⟨hkvs, hrev, hnext⟩ := bindLease_frame t₁ key leaseId
  refine ⟨h.same.trans (sameStore_bindLease s₁ key leaseId),
    h.ids.trans (sameLeaseIds_bindLease hknown₁), hkvs.trans h.kvs, hrev.trans h.revision,
    hnext.trans h.next, ?_⟩
  rw [InProcess.members_bindLease, members_bindLease, h.members]

theorem unbind (h : Rebound s s₁ t t₁) (key : Bytes) (leaseId : LeaseId) :
    Rebound s (unbindLeaseLocked s₁ key leaseId) t
      (InProcess.unbindLeaseLocked t₁ key leaseId) := by
  obtain ⟨hkvs, hrev, hnext⟩ := unbindLeaseLocked_frame t₁ key leaseId
  refine ⟨h.same.trans (sameStore_unbindLeaseLocked s₁ key leaseId),
    h.ids.trans (sameLeaseIds_unbindLeaseLocked s₁ key leaseId), hkvs.trans h.kvs,
    hrev.trans h.revision, hnext.trans h.next, ?_⟩
  rw [InProcess.members_unbindLeaseLocked, members_unbindLeaseLocked, h.members]

end Rebound

/-- Both write a key after the same bookkeeping of leases. -/
theorem Agrees.store {g : Ledger} {s s₁ : Server} {t t₁ : InProcess.Store} (h : Agrees g s t)
    (hre : Rebound s s₁ t t₁) (net : Net) (sinks : Nat → Bool) {key value : Bytes}
    {leaseId : LeaseId} (hbound : (storeKey net s₁ [] key value leaseId).1.Bound) :
    Agrees (g.write key) (storeKey net s₁ [] key value leaseId).1
      (InProcess.storeKey sinks { t₁ with revision := t₁.revision + 1 }
        ⟨key, value, leaseId, t₁.revision + 1⟩).store := by
  refine @write g s _ t _ h key value leaseId hbound ?_ hre.members ?_ ?_ ?_ ?_
  · show t₁.nextLeaseId = s₁.nextLeaseId
    rw [hre.next, hre.ids.1, h.next]
  · show s₁.revision + 1 = _
    rw [hre.same.revision]
  · show t₁.revision + 1 = _
    rw [hre.revision]
  · show s₁.kvs.insert key ⟨value, leaseId, s₁.revision + 1⟩ = _
    rw [hre.same.kvs, hre.same.revision]
  · show t₁.kvs.insert key _ = _
    rw [hre.kvs, hre.revision]

namespace InProcess

/-- A create that is accepted binds the lease and stores the key. -/
theorem kvCreate_known {t : Store} {key : Bytes} {leaseId : Option LeaseId} (sinks : Nat → Bool)
    (value : Bytes) (habsent : t.kvs.contains key = false)
    (hknown : (leaseId.getD 0 ≠ 0 && !t.leases.contains (leaseId.getD 0)) = false) :
    kvCreate sinks t key value leaseId =
      storeKey sinks { bindLease t key (leaseId.getD 0) with
          revision := (bindLease t key (leaseId.getD 0)).revision + 1 }
        ⟨key, value, leaseId.getD 0, (bindLease t key (leaseId.getD 0)).revision + 1⟩ := by
  unfold kvCreate bindLease
  rw [habsent, if_neg Bool.false_ne_true]
  by_cases hzero : leaseId.getD 0 = 0
  · rw [if_pos hzero, if_pos hzero]
  · have hcontains : t.leases.contains (leaseId.getD 0) = true := by simpa [hzero] using hknown
    rw [Std.ExtTreeMap.contains_eq_isSome_getElem?] at hcontains
    obtain ⟨record, hrecord⟩ := Option.isSome_iff_exists.mp hcontains
    rw [if_neg hzero, if_neg hzero, hrecord]
    rfl

/-- One that is rejected for its lease has taken a revision. -/
theorem kvCreate_unknown {t : Store} {key : Bytes} {leaseId : Option LeaseId} (sinks : Nat → Bool)
    (value : Bytes) (habsent : t.kvs.contains key = false)
    (hunknown : (leaseId.getD 0 ≠ 0 && !t.leases.contains (leaseId.getD 0)) = true) :
    kvCreate sinks t key value leaseId =
      ⟨.error (str "kv_create: unknown or expired lease"),
        { t with revision := t.revision + 1 }, []⟩ := by
  obtain ⟨hzero, hcontains⟩ := (Bool.and_eq_true _ _).mp hunknown
  have hzero : leaseId.getD 0 ≠ 0 := of_decide_eq_true hzero
  have hnone : t.leases[leaseId.getD 0]? = none :=
    Std.ExtTreeMap.getElem?_eq_none_of_contains_eq_false (by simpa using hcontains)
  unfold kvCreate
  rw [habsent, if_neg Bool.false_ne_true]
  rw [if_neg hzero, hnone]

theorem collectDelete_getElem? (k : Bytes) :
    ∀ (keys : List Bytes) (r : OrdMap Bytes KeyValue × List WatchEvent),
      (keys.foldl collectDelete r).1[k]? = if k ∈ keys then none else r.1[k]?
  | [], r => by simp
  | key :: keys, r => by
    rw [List.foldl_cons, collectDelete_getElem? k keys]
    unfold collectDelete
    by_cases hk : k = key
    · subst hk
      cases hkv : r.1[k]? <;> simp [hkv]
    · have hne : key ≠ k := fun heq => hk heq.symm
      cases hkv : r.1[key]? <;> simp [hk, hne, Std.ExtTreeMap.getElem?_erase]

/-- Notifying changes the watchers only. -/
theorem notify_frame (sinks : Nat → Bool) : ∀ (events : List WatchEvent) (r : Store × List Sent),
    (events.foldl (notifyLocked sinks) r).1 =
      { r.1 with watchers := (events.foldl (notifyLocked sinks) r).1.watchers }
  | [], _ => rfl
  | event :: events, r => by
    rw [List.foldl_cons, notify_frame sinks events]
    rfl

theorem revokeLease_spec (sinks : Nat → Bool) (t : Store) (l : LeaseId) :
    (∀ k, (revokeLease sinks t l).1.kvs[k]? =
        if k ∈ (t.members l).getD [] then none else t.kvs[k]?) ∧
      (revokeLease sinks t l).1.revision = t.revision ∧
      (revokeLease sinks t l).1.nextLeaseId = t.nextLeaseId ∧
      (revokeLease sinks t l).1.members = Function.update t.members l none := by
  unfold revokeLease
  cases hrecord : t.leases[l]? with
  | none =>
    have hnone : t.members l = none := by
      rw [Store.members, hrecord]
      rfl
    refine ⟨fun k => by simp [hnone], rfl, rfl, ?_⟩
    exact (Function.update_eq_self_iff.mpr hnone.symm).symm
  | some record =>
    have hsome : t.members l = some record.keys := by
      rw [Store.members, hrecord]
      rfl
    rw [notify_frame]
    refine ⟨fun k => ?_, rfl, rfl, members_erase rfl⟩
    rw [hsome]
    exact collectDelete_getElem? k record.keys (t.kvs, [])

end InProcess

namespace Agrees

variable {g : Ledger} {s : Server} {t : InProcess.Store} {key value : Bytes}
  {leaseId : Option LeaseId}

/-- Both create an absent key or reject it for its lease. -/
theorem create (h : Agrees g s t) (env : Env) (habsent : s.kvs[key]? = none) :
    let unknown := leaseUnknown s (leaseId.getD 0)
    let create := storeKey env.net (bindLease s key (leaseId.getD 0)) [] key value (leaseId.getD 0)
    ((InProcess.kvCreate env.sinks t key value leaseId).answer.1 = ⟨!unknown, none⟩) ∧
      Agrees (if unknown then g.reject else g.write key) (if unknown then s else create.1)
        (InProcess.kvCreate env.sinks t key value leaseId).answer.2 := by
  have habsent' : t.kvs.contains key = false := by
    rw [h.contains_kvs, Std.ExtTreeMap.contains_eq_isSome_getElem?, habsent]
    rfl
  dsimp only
  cases hunknown : leaseUnknown s (leaseId.getD 0) with
  | true =>
    rw [kvCreate_unknown env.sinks value habsent' (by rw [h.leaseUnknown_eq, hunknown])]
    refine ⟨rfl, h.bound, h.next, h.members, ?_, h.entries⟩
    have hcount := h.revision
    show s.revision + (g.rejected + 1) = t.revision + 1 + g.deleted
    omega
  | false =>
    rw [kvCreate_known env.sinks value habsent' (by rw [h.leaseUnknown_eq, hunknown])]
    exact ⟨rfl, h.store ((Rebound.refl h.members).bind key hunknown) env.net env.sinks
      ((writes_create habsent hunknown).bound h.bound)⟩

theorem kvCreate (h : Agrees g s t) (env : Env) :
    (InProcess.kvCreate env.sinks t key value leaseId).answer.1 =
        ⟨(kvCreate env.net s env.req key value (leaseId.getD 0)).reply.ok,
          (kvCreate env.net s env.req key value (leaseId.getD 0)).reply.kvs⟩ ∧
      Agrees (g.step s (.kvCreate key value leaseId))
        (kvCreate env.net s env.req key value (leaseId.getD 0)).server
        (InProcess.kvCreate env.sinks t key value leaseId).answer.2 := by
  unfold DynamoCpp.Discovery.kvCreate Ledger.step
  dsimp only
  cases hkey : s.kvs.contains key with
  | true =>
    have hexists : InProcess.kvCreate env.sinks t key value leaseId =
        ⟨.error (str "kv_create: key already exists: " ++ key), t, []⟩ := by
      rw [InProcess.kvCreate, h.contains_kvs, hkey, if_pos rfl]
    rw [hexists, if_pos rfl, if_pos rfl]
    exact ⟨rfl, h⟩
  | false =>
    have habsent : s.kvs[key]? = none :=
      Std.ExtTreeMap.getElem?_eq_none_of_contains_eq_false hkey
    obtain ⟨hresult, hagrees⟩ := @create g s t key value leaseId h env habsent
    rw [if_neg Bool.false_ne_true, if_neg Bool.false_ne_true, hresult]
    cases hunknown : leaseUnknown s (leaseId.getD 0) with
    | true | false =>
      rw [hunknown] at hagrees
      exact ⟨rfl, hagrees⟩

theorem kvCreateOrValidate (h : Agrees g s t) (env : Env) :
    (InProcess.kvCreateOrValidate env.sinks t key value leaseId).answer.1 =
        ⟨(kvCreateOrValidate env.net s env.req key value (leaseId.getD 0)).reply.ok,
          (kvCreateOrValidate env.net s env.req key value (leaseId.getD 0)).reply.kvs⟩ ∧
      Agrees (g.step s (.kvCreateOrValidate key value leaseId))
        (kvCreateOrValidate env.net s env.req key value (leaseId.getD 0)).server
        (InProcess.kvCreateOrValidate env.sinks t key value leaseId).answer.2 := by
  unfold DynamoCpp.Discovery.kvCreateOrValidate InProcess.kvCreateOrValidate Ledger.step
  dsimp only
  rw [Std.ExtTreeMap.contains_eq_isSome_getElem?]
  rcases h.entry_cases key with ⟨hs, ht⟩ | ⟨existing, kv, hs, ht, -, hvalue, -, -⟩
  · obtain ⟨hresult, hagrees⟩ := @create g s t key value leaseId h env hs
    rw [hs, ht]
    dsimp only
    rw [hresult]
    cases hunknown : leaseUnknown s (leaseId.getD 0) with
    | true | false =>
      rw [hunknown] at hagrees
      exact ⟨rfl, hagrees⟩
  · rw [hs, ht]
    dsimp only
    rw [hvalue]
    by_cases hsame : existing.value = value
    · rw [if_pos hsame, if_neg (not_not.mpr hsame)]
      exact ⟨rfl, h⟩
    · rw [if_neg hsame, if_pos hsame]
      exact ⟨rfl, h⟩

/-- Both put a key, or reject it for its lease. -/
theorem put (h : Agrees g s t) (env : Env) :
    (InProcess.kvPut env.sinks t key value leaseId).answer.1 =
        ⟨(kvPut env.net s env.req key value (leaseId.getD 0)).reply.ok,
          (kvPut env.net s env.req key value (leaseId.getD 0)).reply.kvs⟩ ∧
      Agrees (if leaseUnknown s (leaseId.getD 0) then g else g.write key)
        (kvPut env.net s env.req key value (leaseId.getD 0)).server
        (InProcess.kvPut env.sinks t key value leaseId).answer.2 := by
  have hbound := (writes_kvPut env.net s env.req key value (leaseId.getD 0)).bound h.bound
  have hunknown := h.leaseUnknown_eq (leaseId.getD 0)
  unfold InProcess.kvPut kvPut at *
  dsimp only at *
  rw [hunknown]
  cases hknown : leaseUnknown s (leaseId.getD 0) with
  | true =>
    rw [if_pos rfl, if_pos rfl, if_pos rfl]
    exact ⟨rfl, h⟩
  | false =>
    rw [hknown] at hbound
    have hsame := Rebound.refl h.members
    rcases h.entry_cases key with ⟨hs, ht⟩ | ⟨existing, kv, hs, ht, -, -, hlease, -⟩
    · rw [hs] at hbound ⊢
      rw [ht]
      exact ⟨rfl, h.store (hsame.bind key hknown) env.net env.sinks hbound⟩
    · rw [hs] at hbound ⊢
      rw [ht]
      dsimp only at hbound ⊢
      rw [hlease]
      by_cases hmove : existing.leaseId ≠ leaseId.getD 0
      · rw [if_pos hmove] at hbound ⊢
        rw [if_pos hmove]
        -- the key moves from one lease to another in both
        exact ⟨rfl, h.store ((hsame.unbind key existing.leaseId).bind key hknown) env.net
          env.sinks hbound⟩
      · rw [if_neg hmove] at hbound ⊢
        rw [if_neg hmove]
        exact ⟨rfl, h.store hsame env.net env.sinks hbound⟩

/-- Both forget a lease and its keys; only discoveryd counts the deletes. -/
theorem revoke (h : Agrees g s t) (env : Env) (l : LeaseId) :
    Agrees { g with deleted := g.deleted + ((s.members l).getD []).length }
      (expireLeaseLocked env.net s [] l).1 (revokeLease env.sinks t l).1 := by
  have hexp := expireLeaseLocked_expires h.bound env.net [] l
  obtain ⟨hkvs, hrev, hnext, hmembers⟩ := revokeLease_spec env.sinks t l
  refine ⟨h.bound.expireLeaseLocked env.net [] l, ?_, ?_, ?_, fun k => ?_⟩
  · rw [hnext, hexp.next, h.next]
  · rw [hmembers, members_erase hexp.leases, h.members]
  · have hcount := h.revision
    have hexprev := hexp.revision
    show (expireLeaseLocked env.net s [] l).1.revision + g.rejected =
      (revokeLease env.sinks t l).1.revision +
        (g.deleted + ((s.members l).getD []).length)
    omega
  · -- the keys that the lease lists are those that are bound to it
    have hmem : k ∈ (t.members l).getD [] ↔ s.owner k = some l := by
      rw [h.members]
      cases hlist : s.members l with
      | some keys => exact h.bound.bindings.mem_iff hlist
      | none =>
        refine ⟨fun hk => (List.not_mem_nil hk).elim, fun hk => ?_⟩
        obtain ⟨keys, hkeys, _⟩ := h.bound.bindings.listed hk
        rw [hlist] at hkeys
        cases hkeys
    rw [hexp.kvs, hkvs]
    by_cases hk : s.owner k = some l
    · rw [if_pos hk, if_pos (hmem.mpr hk)]
      trivial
    · rw [if_neg hk, if_neg (fun hmem' => hk (hmem.mp hmem'))]
      exact h.entries k

theorem createLease (h : Agrees g s t) (now : Int) (req : Nat) (ttl : Int) :
    Agrees g (createLease now s req ttl).server (InProcess.createLease t) where
  bound := h.bound.createLease now req ttl
  next := by
    show t.nextLeaseId + 1 = s.nextLeaseId + 1
    rw [h.next]
  members := by
    have hs : (DynamoCpp.Discovery.createLease now s req ttl).server.members =
        Function.update s.members s.nextLeaseId (some []) :=
      @members_insert s _ s.nextLeaseId ⟨now + ttl, ttl, []⟩ rfl
    rw [@InProcess.members_insert t (InProcess.createLease t) t.nextLeaseId {} rfl, hs, h.members,
      h.next]
  revision := h.revision
  entries := h.entries

/-! ### Listing -/

/-- The entries of the store in the shape of those of the server. -/
def view (t : InProcess.Store) : OrdMap Bytes Entry :=
  t.kvs.map fun _ kv => ⟨kv.value, kv.leaseId, kv.modRevision⟩

theorem prefixEntries_eq (s : Server) (pre : Bytes) :
    prefixEntries s pre = (restrict pre s.kvs).toList.map fun kv =>
      ⟨kv.1, kv.2.value, kv.2.leaseId, kv.2.modRevision⟩ := by
  rw [prefixEntries, OrdMap.scanFrom_eq_filter _ (prefix_rangeFrom pre), restrict,
    Std.ExtTreeMap.toList_filter]

theorem kvGetPrefix_eq (h : Agrees g s t) (pre : Bytes) :
    kvGetPrefix t pre = (restrict pre (view t)).toList.map fun kv =>
      ⟨kv.1, kv.2.value, kv.2.leaseId, kv.2.modRevision⟩ := by
  rw [kvGetPrefix, OrdMap.scanFrom_eq_filter _ (prefix_rangeFrom pre), restrict,
    Std.ExtTreeMap.toList_filter, view, Std.ExtTreeMap.toList_map, List.filter_map, List.map_map]
  refine List.map_congr_left fun p hp => ?_
  -- the store keeps the key in the entry as well
  have hget : t.kvs[p.1]? = some p.2 :=
    Std.ExtTreeMap.mem_toList_iff_getElem?_eq_some.mp (List.mem_filter.mp hp).1
  rcases h.entry_cases p.1 with ⟨-, ht⟩ | ⟨-, kv, -, ht, hkey, -⟩
  · rw [hget] at ht
    cases ht
  · obtain rfl := Option.some.inj (hget.symm.trans ht)
    show p.2 = ⟨p.1, p.2.value, p.2.leaseId, p.2.modRevision⟩
    rw [← hkey]

/-- The lists are equal exactly if no listed key is stale. -/
theorem getPrefix_iff (h : Agrees g s t) (pre : Bytes) :
    prefixEntries s pre = kvGetPrefix t pre ↔
      ∀ kv ∈ prefixEntries s pre, kv.key ∉ g.stale := by
  constructor
  · intro heq kv hkv
    obtain ⟨entry, hget, _, hkv'⟩ := mem_prefixEntries_iff.mp hkv
    rw [heq, kvGetPrefix, List.mem_map] at hkv
    obtain ⟨⟨k, kv₁⟩, hmem, rfl⟩ := hkv
    obtain ⟨hget', _⟩ := (OrdMap.mem_scanFrom t.kvs (prefix_rangeFrom pre) k kv₁).mp hmem
    rcases h.entry_cases k with ⟨-, ht⟩ | ⟨entry₁, kv₂, hs, ht, hkey, -, -, hstale⟩
    · rw [hget'] at ht
      cases ht
    · obtain rfl := Option.some.inj (hget'.symm.trans ht)
      rw [hkey, hs] at hget
      obtain rfl := Option.some.inj hget
      rw [hkey]
      exact hstale.mp (congrArg KeyValue.modRevision hkv').symm
  · intro hfresh
    rw [h.kvGetPrefix_eq, prefixEntries_eq]
    congr 2
    refine Std.ExtTreeMap.ext_getElem? fun k => ?_
    rw [restrict_getElem?, restrict_getElem?, view, Std.ExtTreeMap.getElem?_map]
    by_cases hk : pre <+: k
    · rw [if_pos hk, if_pos hk]
      rcases h.entry_cases k with ⟨hs, ht⟩ | ⟨entry, kv, hs, ht, -, hvalue, hlease, hstale⟩
      · rw [hs, ht]
        rfl
      · have hlisted : (⟨k, entry.value, entry.leaseId, entry.modRevision⟩ : KeyValue) ∈
            prefixEntries s pre := mem_prefixEntries_iff.mpr ⟨entry, hs, hk, rfl⟩
        have hrev := hstale.mpr (hfresh _ hlisted)
        rw [hs, ht, Option.map_some, hvalue, hlease, ← hrev]
    · rw [if_neg hk, if_neg hk]

end Agrees

end DynamoCpp.Discovery
