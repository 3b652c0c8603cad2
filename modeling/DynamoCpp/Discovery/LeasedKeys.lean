import DynamoCpp.Discovery.InProcessLeases
import DynamoCpp.Discovery.InProcessWatch
import DynamoCpp.Framework.Tenancy

/-! # Keys that are put under leases

    Workers put keys under their leases, several of them perhaps the same key, and nobody
    writes keys in another way.  A put moves the key to its own lease, and a lease that ends
    takes the keys along that it has then.  So, in both backends, a key is there exactly if
    the lease under which it was put last is still there.
-/

namespace DynamoCpp.Discovery

open Framework

/-! ## discoveryd -/

/-- The only keys that the request writes are puts under a lease. -/
def Request.UnderLease : Request → Prop
  | .kvPut _ _ leaseId => leaseId ≠ 0
  | .kvCreate .. | .kvCreateOrValidate .. => False
  | _ => True

/-- The put that a request makes, if it is accepted: the key and its lease. -/
def Request.put (net : Net) (s : Server) (req : Nat) : Request → List (Bytes × LeaseId)
  | .kvPut key value leaseId =>
    if (Discovery.kvPut net s req key value leaseId).reply.ok then [(key, leaseId)] else []
  | _ => []

theorem Request.put_kvPut (net : Net) (s : Server) (req : Nat) (key value : Bytes)
    (leaseId : LeaseId) :
    Request.put net s req (.kvPut key value leaseId) =
      if leaseUnknown s leaseId then [] else [(key, leaseId)] := by
  simp only [put]
  cases hunknown : leaseUnknown s leaseId with
  | true =>
    rw [kvPut_unknown net req key value hunknown]
    rfl
  | false =>
    rw [if_pos (kvPut_known net req key value hunknown).1]
    rfl

/-- The lease is in the table. -/
def Server.Live (s : Server) (l : LeaseId) : Prop := (s.leases[l]?).isSome = true

instance (s : Server) (l : LeaseId) : Decidable (s.Live l) :=
  inferInstanceAs (Decidable (_ = true))

/-- Every key is held by the lease under which it was put last. -/
structure Server.Leased (s : Server) (puts : List (Bytes × LeaseId)) : Prop where
  bound   : s.Bound
  leased  : ∀ (k : Bytes) (entry : Entry), s.kvs[k]? = some entry → entry.leaseId ≠ 0
  tenancy : Tenancy (· < s.nextLeaseId) s.Live s.owner puts

namespace Server.Leased

variable {s s' : Server} {puts : List (Bytes × LeaseId)}

theorem init : Server.Leased {} [] where
  bound := bound_init
  leased := by
    intro k entry h
    simp at h
  tenancy := by
    have howner : owner {} = fun _ => none := by
      funext k
      simp [owner]
    have hlive : Server.Live {} = fun _ => False := by
      funext l
      simp [Server.Live]
    rw [howner, hlive]
    exact Tenancy.empty

/-- A step that puts nothing. -/
theorem noPut (h : s.Leased puts) : s.Leased (puts ++ []) := by
  rw [List.append_nil]
  exact h

/-- A key is there exactly if the lease of its last put is. -/
theorem isSome_iff (h : s.Leased puts) (k : Bytes) :
    (s.kvs[k]?).isSome = true ↔ ∃ l, lastFor puts k = some l ∧ s.Live l := by
  -- every key has an owner, since no key was written without a lease
  rw [← h.tenancy.isSome_holder k, owner]
  cases hentry : s.kvs[k]? with
  | none => rfl
  | some entry =>
    have hsome : leaseOf entry.leaseId = some entry.leaseId := if_neg (h.leased k entry hentry)
    rw [Option.bind_some, hsome]
    rfl

/-- The tables stay but for the lists of keys and the deadlines. -/
theorem congr (h : s.Leased puts) (hbound : s'.Bound) (hkvs : s'.kvs = s.kvs)
    (hids : SameLeaseIds s s') : s'.Leased puts where
  bound := hbound
  leased := by
    rw [hkvs]
    exact h.leased
  tenancy := by
    have howner : s'.owner = s.owner := by
      funext k
      rw [owner, hkvs]
      rfl
    have hlive : s'.Live = s.Live := by
      funext l
      rw [Server.Live, hids.2]
      rfl
    rw [howner, hlive, hids.1]
    exact h.tenancy

theorem createLease (h : s.Leased puts) (now : Int) (req : Nat) (ttl : Int) :
    (createLease now s req ttl).server.Leased puts where
  bound := h.bound.createLease now req ttl
  leased := h.leased
  tenancy := by
    -- the id of the new lease is above all that were given out
    refine h.tenancy.enter (l := s.nextLeaseId) (Int.lt_irrefl _) ?_ ?_
    · intro x hx
      exact Int.lt_add_one_of_le (Int.le_iff_lt_or_eq.mpr hx)
    · intro x
      show ((s.leases.insert s.nextLeaseId _)[x]?).isSome = true ↔ _
      rw [Std.ExtTreeMap.getElem?_insert]
      by_cases hx : s.nextLeaseId = x
      · simp [hx]
      · have hx' : x ≠ s.nextLeaseId := fun heq => hx heq.symm
        simp [hx, hx', Server.Live]

theorem keepalive (h : s.Leased puts) (now : Int) (req : Nat) (leaseId : LeaseId) :
    (keepalive now s req leaseId).server.Leased puts := by
  have hkvs : (DynamoCpp.Discovery.keepalive now s req leaseId).server.kvs = s.kvs := by
    unfold DynamoCpp.Discovery.keepalive
    split <;> rfl
  exact h.congr (h.bound.keepalive now req leaseId) hkvs
    (sameLeaseIds_keepalive now s req leaseId)

theorem expireLeaseLocked (h : s.Leased puts) (net : Net) (out : List Write)
    (leaseId : LeaseId) : (expireLeaseLocked net s out leaseId).1.Leased puts := by
  have hexp := expireLeaseLocked_expires h.bound net out leaseId
  refine ⟨h.bound.expireLeaseLocked net out leaseId, ?_, ?_⟩
  · intro k entry hentry
    rw [hexp.kvs] at hentry
    split at hentry
    · cases hentry
    · exact h.leased k entry hentry
  · -- the keys that are erased are those that the lease holds
    rw [hexp.owner, hexp.next]
    refine h.tenancy.leave leaseId fun x => ?_
    rw [Server.Live, hexp.leases, Std.ExtTreeMap.getElem?_erase]
    by_cases hx : leaseId = x
    · simp [hx]
    · have hx' : x ≠ leaseId := fun heq => hx heq.symm
      simp [hx, hx', Server.Live]

theorem kvPut (h : s.Leased puts) (net : Net) (req : Nat) (key value : Bytes)
    {leaseId : LeaseId} (hlease : leaseId ≠ 0) :
    (kvPut net s req key value leaseId).server.Leased
      (puts ++ Request.put net s req (.kvPut key value leaseId)) := by
  rw [Request.put_kvPut]
  cases hunknown : leaseUnknown s leaseId with
  | true =>
    rw [kvPut_unknown net req key value hunknown, if_pos rfl, List.append_nil]
    exact h
  | false =>
    obtain ⟨-, s₁, hserver, hsame, hids, hbind⟩ := kvPut_known net req key value hunknown
    have hsome : leaseOf leaseId = some leaseId := if_neg hlease
    rw [if_neg Bool.false_ne_true, hserver]
    refine ⟨h.bound.storeKey net [] hsame hids (hbind h.bound.bindings), ?_, ?_⟩
    · intro k entry hentry
      change (s₁.kvs.insert key _)[k]? = some entry at hentry
      rw [Std.ExtTreeMap.getElem?_insert, hsame.kvs] at hentry
      split at hentry
      · rw [← Option.some.inj hentry]
        exact hlease
      · exact h.leased k entry hentry
    · -- whoever held the key before, it now belongs to this lease
      obtain ⟨record, hrecord⟩ := members_of_known hunknown hlease
      have hlive : (storeKey net s₁ [] key value leaseId).1.Live = s.Live := by
        funext l
        exact congrArg (· = true) (hids.2 l)
      have hnext : (storeKey net s₁ [] key value leaseId).1.nextLeaseId = s.nextLeaseId := hids.1
      rw [owner_storeKey net [] hsame, hsome, hlive, hnext]
      exact h.tenancy.register key (by rw [Server.Live, hrecord]; rfl)

theorem handleOp (h : s.Leased puts) (net : Net) (now : Int) (c : ConnId) (req : Nat)
    {r : Request} (hr : r.UnderLease) :
    (handleOp net now s c req r).server.Leased (puts ++ r.put net s req) := by
  cases hop : r.isStoreOp with
  | false =>
    obtain ⟨hkvs, -, -⟩ := handleOp_readOnly net now s c req r hop
    obtain ⟨hleases, hnext⟩ := handleOp_leases net now s c req r hop
    have hputs : r.put net s req = [] := by
      cases r <;> first | rfl | cases hop
    rw [hputs]
    refine (h.congr (h.bound.handleOp net now c req r) hkvs ⟨hnext, fun l => ?_⟩).noPut
    rw [hleases]
  | true =>
    match r with
    | .createLease ttl => exact (h.createLease now req ttl).noPut
    | .keepalive leaseId => exact (h.keepalive now req leaseId).noPut
    | .revoke leaseId => exact (h.expireLeaseLocked net [] leaseId).noPut
    | .kvPut key value leaseId => exact h.kvPut net req key value hr
    | .kvCreate .. | .kvCreateOrValidate .. => exact hr.elim

end Server.Leased

/-! ### With a watching client -/

def Move.UnderLease : Move → Prop
  | .request _ _ _ _ r => r.UnderLease
  | _ => True

def Move.put (w : World) : Move → List (Bytes × LeaseId)
  | .request net _ _ req r => r.put net w.server req
  | _ => []

theorem Server.Leased.move {id : Nat} {w w' : World} {l : Move} {puts : List (Bytes × LeaseId)}
    (h : w.server.Leased puts) (hl : l.UnderLease) (hexec : Move.exec id w l = some w') :
    w'.server.Leased (puts ++ l.put w) := by
  -- moves that leave the tables alone
  have hsame : ∀ {s : Server}, s.kvs = w.server.kvs → s.leases = w.server.leases →
      s.nextLeaseId = w.server.nextLeaseId → s.Leased (puts ++ []) := by
    intro s hkvs hleases hnext
    have howner : s.owner = w.server.owner := by
      funext k
      rw [owner, hkvs]
      rfl
    exact (h.congr (h.bound.congr howner hleases hnext) hkvs
      ⟨hnext, fun l => by rw [hleases]⟩).noPut
  cases moved_of_exec hexec with
  | @request net now c req r _ _ => exact h.handleOp net now c req hl
  | @expire net now leaseId _ => exact (h.expireLeaseLocked net [] leaseId).noPut
  | accept | close | reconnect | serve | drop => exact hsame rfl rfl rfl
  | @deliver lk f rest _ _ =>
    -- reading a frame is the client's business
    have hserver : (w.read id lk f rest).server = w.server := by
      unfold World.read
      split <;> rfl
    rw [hserver]
    exact hsame rfl rfl rfl

/-! ## The in-process store -/

namespace InProcess

/-- The only keys that the section writes are puts under a lease. -/
def Section.UnderLease : Section → Prop
  | .kvPut _ _ leaseId => leaseId.getD 0 ≠ 0
  | .kvCreate .. => False
  | _ => True

/-- The put that a section makes, if it is accepted. -/
def Section.put (net : Nat → Bool) (s : Store) : Section → List (Bytes × LeaseId)
  | .kvPut key value leaseId =>
    if (InProcess.kvPut net s key value leaseId).result.isOk then [(key, leaseId.getD 0)] else []
  | _ => []

theorem Section.put_kvPut (net : Nat → Bool) (s : Store) (key value : Bytes)
    (leaseId : Option LeaseId) :
    Section.put net s (.kvPut key value leaseId) =
      if s.leaseUnknown (leaseId.getD 0) then [] else [(key, leaseId.getD 0)] := by
  simp only [put]
  cases hunknown : s.leaseUnknown (leaseId.getD 0) with
  | true =>
    rw [kvPut_unknown net key value hunknown]
    rfl
  | false =>
    rw [kvPut_known net key value hunknown]
    rfl

/-- The lease has a record. -/
def Store.Live (s : Store) (l : LeaseId) : Prop := (s.members l).isSome = true

instance (s : Store) (l : LeaseId) : Decidable (s.Live l) :=
  inferInstanceAs (Decidable (_ = true))

structure Store.Leased (s : Store) (puts : List (Bytes × LeaseId)) : Prop where
  bound   : s.Bound
  leased  : ∀ (k : Bytes) (kv : KeyValue), s.kvs[k]? = some kv → kv.leaseId ≠ 0
  tenancy : Tenancy (· < s.nextLeaseId) s.Live s.owner puts

namespace Store.Leased

variable {s : Store} {puts : List (Bytes × LeaseId)}

theorem init : Store.Leased {} [] where
  bound := .init
  leased := by
    intro k kv h
    simp at h
  tenancy := by
    have howner : owner {} = fun _ => none := by
      funext k
      simp [owner]
    have hlive : Store.Live {} = fun _ => False := by
      funext l
      simp [Store.Live, members]
    rw [howner, hlive]
    exact Tenancy.empty

theorem noPut (h : s.Leased puts) : s.Leased (puts ++ []) := by
  rw [List.append_nil]
  exact h

/-- A key is there exactly if the lease of its last put is. -/
theorem isSome_iff (h : s.Leased puts) (k : Bytes) :
    (s.kvs[k]?).isSome = true ↔ ∃ l, lastFor puts k = some l ∧ s.Live l := by
  rw [← h.tenancy.isSome_holder k, owner]
  cases hkv : s.kvs[k]? with
  | none => rfl
  | some kv =>
    have hsome : leaseOf kv.leaseId = some kv.leaseId := if_neg (h.leased k kv hkv)
    rw [Option.bind_some, hsome]
    rfl

theorem createLease (h : s.Leased puts) : (createLease s).Leased puts := by
  have hmembers : (InProcess.createLease s).members =
      Function.update s.members s.nextLeaseId (some []) := members_insert rfl
  have hfresh : s.members s.nextLeaseId = none := by
    by_contra hsome
    exact Int.lt_irrefl _ (h.tenancy.live s.nextLeaseId (Option.isSome_iff_ne_none.mpr hsome))
  refine ⟨?_, h.leased, h.tenancy.enter (l := s.nextLeaseId) (Int.lt_irrefl _) ?_ ?_⟩
  · have hbound := h.bound.register hfresh
    rw [← hmembers] at hbound
    exact hbound
  · intro x hx
    exact Int.lt_add_one_of_le (Int.le_iff_lt_or_eq.mpr hx)
  · intro x
    rw [Store.Live, hmembers, Function.update_apply]
    by_cases hx : x = s.nextLeaseId
    · simp [hx]
    · simp [hx, Store.Live]

theorem revokeLease (h : s.Leased puts) (net : Nat → Bool) (leaseId : LeaseId) :
    (revokeLease net s leaseId).1.Leased puts := by
  obtain ⟨hkvs, -, hnext, hmembers⟩ := revokeLease_spec net s leaseId
  refine ⟨h.bound.revokeLease net leaseId, ?_, ?_⟩
  · intro k kv hkv
    rw [hkvs] at hkv
    split at hkv
    · cases hkv
    · exact h.leased k kv hkv
  · rw [owner_revokeLease h.bound, hnext]
    refine h.tenancy.leave leaseId fun x => ?_
    rw [Store.Live, hmembers, Function.update_apply]
    by_cases hx : x = leaseId
    · simp [hx]
    · simp [hx, Store.Live]

theorem kvPut (h : s.Leased puts) (net : Nat → Bool) (key value : Bytes)
    {leaseId : Option LeaseId} (hlease : leaseId.getD 0 ≠ 0) :
    (kvPut net s key value leaseId).store.Leased
      (puts ++ Section.put net s (.kvPut key value leaseId)) := by
  rw [Section.put_kvPut]
  cases hunknown : s.leaseUnknown (leaseId.getD 0) with
  | true =>
    rw [kvPut_unknown net key value hunknown, if_pos rfl, List.append_nil]
    exact h
  | false =>
    have hsame := sameLeases_kvPut net s key value leaseId
    have hkvs := (rebind_frame s key (leaseId.getD 0)).1
    have hstored := kvPut_known net key value hunknown
    have hsome : leaseOf (leaseId.getD 0) = some (leaseId.getD 0) := if_neg hlease
    have hlive : (InProcess.kvPut net s key value leaseId).store.Live = s.Live := by
      funext l
      exact congrArg (· = true) (hsame.members l)
    have howner : (InProcess.kvPut net s key value leaseId).store.owner =
        Function.update s.owner key (some (leaseId.getD 0)) := by
      rw [hstored, ← hsome]
      exact owner_storeKey net hkvs _
    rw [if_neg Bool.false_ne_true]
    refine ⟨h.bound.kvPut net key value leaseId, ?_, ?_⟩
    · intro k kv hkv
      rw [hstored] at hkv
      change (Std.ExtTreeMap.insert (rebind s key (leaseId.getD 0)).kvs key _)[k]? =
        some kv at hkv
      rw [Std.ExtTreeMap.getElem?_insert, hkvs] at hkv
      split at hkv
      · rw [← Option.some.inj hkv]
        exact hlease
      · exact h.leased k kv hkv
    · rw [howner, hlive, hsame.next]
      exact h.tenancy.register key (members_of_known hunknown hlease)

theorem run (h : s.Leased puts) (net : Nat → Bool) {op : Section} (hop : op.UnderLease) :
    (op.run net s).1.Leased (puts ++ op.put net s) := by
  match op with
  | .makeLease => exact h.createLease.noPut
  | .revokeLease leaseId => exact (h.revokeLease net leaseId).noPut
  | .validate key value => exact h.noPut
  | .kvPut key value leaseId => exact h.kvPut net key value hop
  | .kvCreate .. => exact hop.elim

end Store.Leased

/-! ### With watchers -/

def WatchStep.UnderLease : WatchStep → Prop
  | .locked op _ _ => op.UnderLease
  | _ => True

def WatchStep.put (w : WatchedStore) : WatchStep → List (Bytes × LeaseId)
  | .locked op net _ => op.put net w.store
  | _ => []

theorem Store.Leased.step {w w' : WatchedStore} {step : WatchStep}
    {puts : List (Bytes × LeaseId)} (h : w.store.Leased puts) (hstep : step.UnderLease)
    (hexec : watchedStore.exec w step = some w') : w'.store.Leased (puts ++ step.put w) := by
  cases step with
  | locked op net closing =>
    obtain ⟨-, rfl⟩ := enabled hexec
    exact h.run net hstep
  | watch pre =>
    -- a watch adds a sink and leaves the tables
    cases hexec
    have hsame : (w.watch pre).store.Leased puts := ⟨h.bound, h.leased, h.tenancy⟩
    exact hsame.noPut
  | close sink =>
    cases hexec
    exact h.noPut

end InProcess

end DynamoCpp.Discovery
