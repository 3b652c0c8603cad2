import DynamoCpp.Discovery.Convergence
import DynamoCpp.Framework.Bindings

/-! # Leases and their keys

    The server keeps two redundant tables: an entry of the key map names its
    lease, and a lease record lists its keys.  Every operation maintains both by
    hand.  In every reachable state the two are in bijection (`Bindings`), so that
    expiring a lease deletes exactly the keys that are bound to it.
-/

namespace DynamoCpp.Discovery

open Framework Server

/-! ## The two tables -/

/-- The lease that a lease id of the protocol names; 0 is no lease. -/
def leaseOf (leaseId : LeaseId) : Option LeaseId := if leaseId = 0 then none else some leaseId

/-- The lease that a key is bound to. -/
def Server.owner (s : Server) (k : Bytes) : Option LeaseId :=
  (s.kvs[k]?).bind fun entry => leaseOf entry.leaseId

/-- The keys that a lease lists. -/
def Server.members (s : Server) (l : LeaseId) : Option (List Bytes) :=
  (s.leases[l]?).map (·.keys)

variable {leaseId l : LeaseId} {s s' s₁ : Server} {key : Bytes} {net : Net} {out : List Write}

theorem leaseOf_eq_some : leaseOf leaseId = some l ↔ leaseId = l ∧ l ≠ 0 := by
  unfold leaseOf
  split
  · next h => simp [h, eq_comm]
  · next h =>
    rw [Option.some.injEq]
    exact ⟨fun heq => ⟨heq, heq ▸ h⟩, fun heq => heq.1⟩

theorem Server.owner_eq_some {k : Bytes} :
    s.owner k = some l ↔ ∃ entry, s.kvs[k]? = some entry ∧ entry.leaseId = l ∧ l ≠ 0 := by
  simp only [owner, Option.bind_eq_some_iff, leaseOf_eq_some]

theorem Server.members_eq_some {keys : List Bytes} :
    s.members l = some keys ↔ ∃ record, s.leases[l]? = some record ∧ record.keys = keys := by
  simp only [members, Option.map_eq_some_iff]

section tables

variable {s s' : Server} {key : Bytes} {leaseId : LeaseId}

/-- Storing an entry. -/
theorem owner_insert {entry : Entry} (h : s'.kvs = s.kvs.insert key entry) :
    s'.owner = Function.update s.owner key (leaseOf entry.leaseId) := by
  have hlookup := OrdMap.lookup_insert (fun e => e.bind fun entry => leaseOf entry.leaseId)
    s.kvs key entry
  rw [← h] at hlookup
  exact hlookup

theorem members_insert {record : LeaseRecord} (h : s'.leases = s.leases.insert leaseId record) :
    s'.members = Function.update s.members leaseId (some record.keys) := by
  have hlookup := OrdMap.lookup_insert (fun r => r.map (·.keys)) s.leases leaseId record
  rw [← h] at hlookup
  exact hlookup

theorem members_erase (h : s'.leases = s.leases.erase leaseId) :
    s'.members = Function.update s.members leaseId none := by
  have hlookup := OrdMap.lookup_erase (fun r => r.map (·.keys)) s.leases leaseId
  rw [← h] at hlookup
  exact hlookup

end tables

/-! ## The invariant -/

/-- The tables agree, and lease ids are positive and not yet due. -/
structure Server.Bound (s : Server) : Prop where
  bindings : Bindings s.owner s.members
  next     : 0 < s.nextLeaseId
  issued   : ∀ l, (s.leases[l]?).isSome → 0 < l ∧ l < s.nextLeaseId

theorem bound_init : Server.Bound {} where
  bindings := Bindings.empty
  next := by decide
  issued := by
    intro l h
    simp at h

theorem Server.Bound.congr (h : s.Bound) (howner : s'.owner = s.owner)
    (hleases : s'.leases = s.leases) (hnext : s'.nextLeaseId = s.nextLeaseId) : s'.Bound where
  bindings := by
    have hmembers : s'.members = s.members := by
      funext l
      rw [members, hleases]
      rfl
    rw [howner, hmembers]
    exact h.bindings
  next := hnext ▸ h.next
  issued := by
    intro l hl
    rw [hleases] at hl
    rw [hnext]
    exact h.issued l hl

/-! ## Storing a key -/

section store

variable {s : Server} {key : Bytes} {leaseId : LeaseId} {owner : Bytes → Option LeaseId}

/-- The lease of an accepted request is known. -/
theorem members_of_known (h : leaseUnknown s leaseId = false) (hne : leaseId ≠ 0) :
    ∃ record, s.leases[leaseId]? = some record := by
  rw [leaseUnknown, decide_eq_true hne, Bool.true_and, Bool.not_eq_false'] at h
  have hmem : leaseId ∈ s.leases := Std.ExtTreeMap.mem_iff_contains.mpr h
  exact Option.isSome_iff_exists.mp (Std.ExtTreeMap.mem_iff_isSome_getElem?.mp hmem)

/-- Binding a key that is bound to no lease. -/
theorem bindings_bindLease (h : Bindings owner s.members) (hkey : owner key = none)
    (hknown : leaseUnknown s leaseId = false) :
    Bindings (Function.update owner key (leaseOf leaseId)) (bindLease s key leaseId).members := by
  by_cases hzero : leaseId = 0
  · have hnone : leaseOf leaseId = none := if_pos hzero
    have hsame : bindLease s key leaseId = s := if_pos hzero
    rw [hnone, hsame, ← hkey, Function.update_eq_self]
    exact h
  · obtain ⟨record, hrecord⟩ := members_of_known hknown hzero
    have hsome : leaseOf leaseId = some leaseId := if_neg hzero
    have hleases : (bindLease s key leaseId).leases =
        s.leases.insert leaseId { record with keys := record.keys ++ [key] } := by
      rw [bindLease, if_neg hzero, hrecord]
      rfl
    rw [hsome, members_insert hleases]
    exact h.attach hkey (members_eq_some.mpr ⟨record, hrecord, rfl⟩)

/-- Detaching a stored key from its lease. -/
theorem bindings_unbindLeaseLocked {entry : Entry} (h : Bindings s.owner s.members)
    (hentry : s.kvs[key]? = some entry) :
    Bindings (Function.update s.owner key none)
      (unbindLeaseLocked s key entry.leaseId).members := by
  by_cases hzero : entry.leaseId = 0
  · have hnone : s.owner key = none := by
      rw [owner, hentry]
      exact if_pos hzero
    rw [unbindLeaseLocked, if_pos hzero, ← hnone, Function.update_eq_self]
    exact h
  · have howner : s.owner key = some entry.leaseId :=
      owner_eq_some.mpr ⟨entry, hentry, rfl, hzero⟩
    obtain ⟨keys, hkeys, _⟩ := h.listed howner
    obtain ⟨record, hrecord, rfl⟩ := members_eq_some.mp hkeys
    have hleases : (unbindLeaseLocked s key entry.leaseId).leases =
        s.leases.insert entry.leaseId
          { record with keys := record.keys.filter (· ≠ key) } := by
      rw [unbindLeaseLocked, if_neg hzero, hrecord]
    rw [members_insert hleases]
    exact h.detach howner hkeys

end store

/-- The lease table is the same but for the lists of keys. -/
def SameLeaseIds (s s' : Server) : Prop :=
  s'.nextLeaseId = s.nextLeaseId ∧ ∀ l : LeaseId, (s'.leases[l]?).isSome = (s.leases[l]?).isSome

theorem sameLeaseIds_insert {s s' : Server} {l : LeaseId} {record : LeaseRecord}
    (hnext : s'.nextLeaseId = s.nextLeaseId) (hl : (s.leases[l]?).isSome)
    (hleases : s'.leases = s.leases.insert l record) : SameLeaseIds s s' := by
  refine ⟨hnext, fun l' => ?_⟩
  rw [hleases, OrdMap.get_insert]
  by_cases hll : l' = l
  · subst hll
    simpa using hl.symm
  · simp [hll]

theorem sameLeaseIds_bindLease
    (hknown : leaseUnknown s leaseId = false) : SameLeaseIds s (bindLease s key leaseId) := by
  unfold bindLease
  split
  · exact ⟨rfl, fun _ => rfl⟩
  · next hzero =>
    obtain ⟨record, hrecord⟩ := members_of_known hknown hzero
    exact sameLeaseIds_insert rfl (by rw [hrecord]; rfl) rfl

theorem sameLeaseIds_unbindLeaseLocked (s : Server) (key : Bytes) (leaseId : LeaseId) :
    SameLeaseIds s (unbindLeaseLocked s key leaseId) := by
  unfold unbindLeaseLocked
  split
  · exact ⟨rfl, fun _ => rfl⟩
  · split
    · exact ⟨rfl, fun _ => rfl⟩
    · next record hrecord => exact sameLeaseIds_insert rfl (by rw [hrecord]; rfl) rfl

theorem sameLeaseIds_keepalive (now : Int) (s : Server) (req : Nat) (leaseId : LeaseId) :
    SameLeaseIds s (keepalive now s req leaseId).server := by
  unfold keepalive
  split
  · exact ⟨rfl, fun _ => rfl⟩
  · next record hrecord =>
    exact @sameLeaseIds_insert s _ leaseId _ rfl (by rw [hrecord]; rfl) rfl

theorem SameLeaseIds.trans {s₂ s₃ : Server} (h₁ : SameLeaseIds s₁ s₂)
    (h₂ : SameLeaseIds s₂ s₃) : SameLeaseIds s₁ s₃ :=
  ⟨h₂.1.trans h₁.1, fun l => (h₂.2 l).trans (h₁.2 l)⟩

theorem SameLeaseIds.leaseUnknown (h : SameLeaseIds s s') (leaseId : LeaseId) :
    leaseUnknown s' leaseId = leaseUnknown s leaseId := by
  unfold DynamoCpp.Discovery.leaseUnknown
  rw [Std.ExtTreeMap.contains_eq_isSome_getElem?, Std.ExtTreeMap.contains_eq_isSome_getElem?, h.2]

/-- A stored key is bound to its lease. -/
theorem owner_storeKey (net : Net) (out : List Write) (hsame : SameStore s s₁)
    {value : Bytes} :
    (storeKey net s₁ out key value leaseId).1.owner =
      Function.update s.owner key (leaseOf leaseId) := by
  have hkvs : s₁.owner = s.owner := by
    funext k
    rw [owner, hsame.kvs]
    rfl
  rw [← hkvs]
  exact @owner_insert s₁ _ key ⟨value, leaseId, s₁.revision + 1⟩ rfl

/-- Storing a key keeps the invariant if its lease has been bound for it. -/
theorem Server.Bound.storeKey (h : s.Bound) (net : Net) (out : List Write)
    {value : Bytes} (hsame : SameStore s s₁) (hids : SameLeaseIds s s₁)
    (hbind : Bindings (Function.update s.owner key (leaseOf leaseId)) s₁.members) :
    (storeKey net s₁ out key value leaseId).1.Bound where
  bindings := by
    rw [owner_storeKey net out hsame]
    exact hbind
  next := by
    show 0 < s₁.nextLeaseId
    rw [hids.1]
    exact h.next
  issued := by
    intro l hl
    change (s₁.leases[l]?).isSome at hl
    show 0 < l ∧ l < s₁.nextLeaseId
    rw [hids.2] at hl
    rw [hids.1]
    exact h.issued l hl

/-! ## Expiring a lease -/

/-- The events are deletes of the lease, each with the value of its key. -/
def Deletes (s : Server) (leaseId : LeaseId) (es : List LoggedEvent) : Prop :=
  ∀ e ∈ es, e.isPut = false ∧ e.leaseId = leaseId ∧
    ∃ entry, s.kvs[e.key]? = some entry ∧ e.value = entry.value

/-- The loop of `expire_lease_locked` has deleted the keys `done`. -/
structure Expiring (net : Net) (leaseId : LeaseId) (s : Server) (out : List Write)
    (done : List Bytes) (r : Server × List Write) (es : List LoggedEvent) : Prop where
  advances : Advances net s out r.1 r.2 es
  keys     : es.map (·.key) = done
  deletes  : Deletes s leaseId es
  kvs      : ∀ k, r.1.kvs[k]? = if k ∈ done then none else s.kvs[k]?
  leases   : r.1.leases = s.leases
  next     : r.1.nextLeaseId = s.nextLeaseId

theorem Advances.revision {out' : List Write}
    {es : List LoggedEvent} (h : Advances net s out s' out' es) :
    s'.revision = s.revision + es.length := by
  induction h with
  | same hs => exact hs.revision
  | step _ hm hs ih =>
    rw [hs.revision, hm.revision, ih, List.length_append]
    rfl

theorem expireKey_frame (net : Net) (leaseId : LeaseId) (r : Server × List Write) (key : Bytes) :
    (expireKey net leaseId r key).1.leases = r.1.leases ∧
      (expireKey net leaseId r key).1.nextLeaseId = r.1.nextLeaseId := by
  unfold expireKey
  split <;> exact ⟨rfl, rfl⟩

theorem Expiring.step {net : Net} {leaseId : LeaseId} {s : Server} {out : List Write}
    {done : List Bytes} {r : Server × List Write} {es : List LoggedEvent}
    (h : Expiring net leaseId s out done r es) {key : Bytes} {entry : Entry}
    (hnew : key ∉ done) (hentry : s.kvs[key]? = some entry) :
    Expiring net leaseId s out (done ++ [key]) (expireKey net leaseId r key)
      (es ++ [mutation r.1 false key leaseId entry.value]) := by
  have hstored : r.1.kvs[key]? = some entry := by rw [h.kvs, if_neg hnew, hentry]
  have hmutates := expireKey_mutates net r.1 r.2 key leaseId hstored
  obtain ⟨hleases, hnext⟩ := expireKey_frame net leaseId r key
  constructor
  · exact .step h.advances hmutates (.refl _)
  · rw [List.map_append, h.keys]
    rfl
  · intro e he
    rcases List.mem_append.mp he with he | he
    · exact h.deletes e he
    · obtain rfl := List.mem_singleton.mp he
      exact ⟨rfl, rfl, entry, hentry, rfl⟩
  · intro k
    have hkvs : (expireKey net leaseId r key).1.kvs = r.1.kvs.erase key := hmutates.kvs
    rw [hkvs, OrdMap.get_erase, h.kvs]
    by_cases hk : k = key <;> simp [hk]
  · exact hleases.trans h.leases
  · exact hnext.trans h.next

theorem Expiring.run :
    ∀ {keys done : List Bytes} {r : Server × List Write} {es : List LoggedEvent},
      Expiring net leaseId s out done r es → (done ++ keys).Nodup →
      (∀ k ∈ keys, ∃ entry, s.kvs[k]? = some entry) →
      ∃ es', Expiring net leaseId s out (done ++ keys) (keys.foldl (expireKey net leaseId) r) es'
  | [], done, r, es, h, _, _ => ⟨es, by rw [List.append_nil]; exact h⟩
  | key :: keys, done, r, es, h, hnodup, hstored => by
    obtain ⟨entry, hentry⟩ := hstored key List.mem_cons_self
    have hnew : key ∉ done := fun hmem =>
      (List.nodup_append.mp hnodup).2.2 key hmem key List.mem_cons_self rfl
    have hnext := h.step hnew hentry
    rw [List.append_cons] at hnodup
    obtain ⟨es', hrest⟩ := run hnext hnodup
      (fun k hk => hstored k (List.mem_cons_of_mem _ hk))
    rw [← List.append_cons] at hrest
    exact ⟨es', hrest⟩

/-- What expiring a lease does. -/
structure Expires (net : Net) (leaseId : LeaseId) (s : Server) (out : List Write) (s' : Server)
    (out' : List Write) : Prop where
  /-- Exactly the keys bound to the lease are removed. -/
  kvs : ∀ k, s'.kvs[k]? = if s.owner k = some leaseId then none else s.kvs[k]?
  /-- No other lease changes. -/
  leases : s'.leases = s.leases.erase leaseId
  next : s'.nextLeaseId = s.nextLeaseId
  /-- Each of the keys takes one revision. -/
  revision : s'.revision = s.revision + ((s.members leaseId).getD []).length
  /-- One delete of each of these keys is logged and fanned out, and nothing else; a
      connection that fails no write is sent one frame for each of its watchers that
      match. -/
  events : ∃ es, Deletes s leaseId es ∧
    (∀ k, (es.map (·.key)).count k = if s.owner k = some leaseId then 1 else 0) ∧
    Advances net s out s' out' es ∧ (∀ h, History s h → History s' (h ++ es)) ∧
    ∀ c, (∀ x ∈ out', x.conn = c → x.ok = true) →
      onConn c s'.watchers = onConn c s.watchers ∧
        framesTo c out' = framesTo c out ++ served (onConn c s.watchers) es

/-- No key is bound to a lease that is not there. -/
theorem Server.Bound.owner_ne (h : s.Bound)
    (hrecord : s.leases[leaseId]? = none) (k : Bytes) : s.owner k ≠ some leaseId := by
  intro hk
  obtain ⟨keys, hkeys, _⟩ := h.bindings.listed hk
  obtain ⟨record, hsome, _⟩ := members_eq_some.mp hkeys
  rw [hrecord] at hsome
  cases hsome

/-- Expiring a lease that is not there does nothing. -/
theorem expires_none (h : s.Bound) (net : Net) (out : List Write)
    (hrecord : s.leases[leaseId]? = none) : Expires net leaseId s out s out := by
  have hfree := h.owner_ne hrecord
  refine ⟨fun k => (if_neg (hfree k)).symm, ?_, rfl, ?_, [], by simp [Deletes], ?_,
    .same (.refl s), ?_, ?_⟩
  · refine Std.ExtTreeMap.ext_getElem? fun l => ?_
    rw [OrdMap.get_erase]
    split
    · next heq => rw [heq, hrecord]
    · rfl
  · rw [members, hrecord]
    rfl
  · intro k
    rw [if_neg (hfree k)]
    rfl
  · intro hist hh
    rw [List.append_nil]
    exact hh
  · intro c _
    exact ⟨rfl, by simp [served]⟩

theorem expireLeaseLocked_expires (h : s.Bound) (net : Net) (out : List Write)
    (leaseId : LeaseId) :
    Expires net leaseId s out (expireLeaseLocked net s out leaseId).1
      (expireLeaseLocked net s out leaseId).2 := by
  cases hrecord : s.leases[leaseId]? with
  | none =>
    rw [expireLeaseLocked, hrecord]
    exact expires_none h net out hrecord
  | some record =>
    have hmembers : s.members leaseId = some record.keys :=
      members_eq_some.mpr ⟨record, hrecord, rfl⟩
    have hmem : ∀ k, k ∈ record.keys ↔ s.owner k = some leaseId := fun k =>
      h.bindings.mem_iff hmembers
    have hstored : ∀ k ∈ record.keys, ∃ entry, s.kvs[k]? = some entry := by
      intro k hk
      obtain ⟨entry, hentry, _⟩ := owner_eq_some.mp ((hmem k).mp hk)
      exact ⟨entry, hentry⟩
    have hnodup := h.bindings.nodup hmembers
    have hstart : Expiring net leaseId s out [] (s, out) [] :=
      ⟨.same (.refl s), rfl, by simp [Deletes], fun k => by simp, rfl, rfl⟩
    obtain ⟨es, hrun⟩ : ∃ es, Expiring net leaseId s out ([] ++ record.keys)
        (record.keys.foldl (expireKey net leaseId) (s, out)) es := hstart.run hnodup hstored
    rw [List.nil_append] at hrun
    rw [expireLeaseLocked, hrecord]
    -- the keys are gone; the record of the lease goes last
    have hadvances : Advances net s out
        { (record.keys.foldl (expireKey net leaseId) (s, out)).1 with
          leases := (record.keys.foldl (expireKey net leaseId) (s, out)).1.leases.erase leaseId }
        (record.keys.foldl (expireKey net leaseId) (s, out)).2 es :=
      hrun.advances.sameStore ⟨⟨rfl, rfl, rfl⟩, rfl, rfl, rfl, rfl⟩
    refine ⟨?_, ?_, hrun.next, ?_, es, hrun.deletes, ?_, hadvances, ?_, ?_⟩
    · intro k
      have hk := hrun.kvs k
      rw [if_congr (hmem k) rfl rfl] at hk
      exact hk
    · show Std.ExtTreeMap.erase _ leaseId = _
      rw [hrun.leases]
    · rw [hadvances.revision, hmembers, ← hrun.keys, Option.getD_some, List.length_map]
    · intro k
      rw [hrun.keys]
      by_cases hk : k ∈ record.keys
      · rw [if_pos ((hmem k).mp hk), List.count_eq_one_of_mem hnodup hk]
      · rw [if_neg (fun heq => hk ((hmem k).mpr heq)), List.count_eq_zero_of_not_mem hk]
    · intro hist hh
      exact hh.advances hadvances
    · intro c hok
      exact hadvances.connected c hok

theorem Expires.owner {out' : List Write}
    (h : Expires net leaseId s out s' out') :
    s'.owner = fun k => if s.owner k = some leaseId then none else s.owner k := by
  funext k
  rw [Server.owner, h.kvs]
  split <;> rfl

/-! ## Every step keeps the invariant -/

theorem Server.Bound.expireLeaseLocked (h : s.Bound) (net : Net) (out : List Write)
    (leaseId : LeaseId) : (expireLeaseLocked net s out leaseId).1.Bound := by
  have hexp := expireLeaseLocked_expires h net out leaseId
  refine ⟨?_, by rw [hexp.next]; exact h.next, ?_⟩
  · rw [hexp.owner, members_erase hexp.leases]
    exact h.bindings.retire leaseId
  · intro l hl
    rw [hexp.leases, OrdMap.get_erase] at hl
    rw [hexp.next]
    split at hl
    · cases hl
    · exact h.issued l hl

theorem Server.Bound.createLease (h : s.Bound) (now : Int) (req : Nat) (ttl : Int) :
    (createLease now s req ttl).server.Bound where
  bindings := by
    have hfresh : s.members s.nextLeaseId = none := by
      cases hl : s.leases[s.nextLeaseId]? with
      | none =>
        rw [members, hl]
        rfl
      | some record =>
        have hissued := h.issued s.nextLeaseId (by rw [hl]; rfl)
        exact absurd hissued.2 (Int.lt_irrefl _)
    have hmembers : (DynamoCpp.Discovery.createLease now s req ttl).server.members =
        Function.update s.members s.nextLeaseId (some []) :=
      @members_insert s _ s.nextLeaseId ⟨now + ttl, ttl, []⟩ rfl
    rw [hmembers]
    exact h.bindings.register hfresh
  next := Int.lt_add_one_of_le (Int.le_of_lt h.next)
  issued := by
    intro l hl
    change ((s.leases.insert s.nextLeaseId _)[l]?).isSome at hl
    show 0 < l ∧ l < s.nextLeaseId + 1
    rw [OrdMap.get_insert] at hl
    split at hl
    · next heq =>
      rw [heq]
      exact ⟨h.next, Int.lt_succ _⟩
    · have hissued := h.issued l hl
      exact ⟨hissued.1, Int.lt_add_one_of_le (Int.le_of_lt hissued.2)⟩

theorem keepalive_members (now : Int) (s : Server) (req : Nat) (leaseId : LeaseId) :
    (keepalive now s req leaseId).server.members = s.members := by
  unfold keepalive
  split
  · rfl
  · next record hrecord =>
    rw [@members_insert s _ leaseId { record with deadline := now + record.ttl } rfl]
    exact Function.update_eq_self_iff.mpr (members_eq_some.mpr ⟨record, hrecord, rfl⟩).symm

theorem keepalive_owner (now : Int) (s : Server) (req : Nat) (leaseId : LeaseId) :
    (keepalive now s req leaseId).server.owner = s.owner := by
  unfold keepalive
  split <;> rfl

theorem Server.Bound.keepalive (h : s.Bound) (now : Int) (req : Nat)
    (leaseId : LeaseId) : (keepalive now s req leaseId).server.Bound := by
  have hids := sameLeaseIds_keepalive now s req leaseId
  refine ⟨?_, hids.1.symm ▸ h.next, fun l hl => ?_⟩
  · rw [keepalive_owner, keepalive_members]
    exact h.bindings
  · rw [hids.1]
    exact h.issued l ((hids.2 l).symm.trans hl)

/-! ### Writing a key -/

/-- What a request that writes a key can do: it is rejected or has nothing to do, or it
    binds the lease of the key and stores the key. -/
def Writes (net : Net) (s s' : Server) : Prop :=
  s' = s ∨ ∃ s₁ key value leaseId, s' = (storeKey net s₁ [] key value leaseId).1 ∧
    SameStore s s₁ ∧ SameLeaseIds s s₁ ∧
    (Bindings s.owner s.members →
      Bindings (Function.update s.owner key (leaseOf leaseId)) s₁.members)

section writes

variable {net : Net} {s s' : Server} {key value : Bytes} {leaseId : LeaseId}

theorem Writes.sameLeaseIds (h : Writes net s s') : SameLeaseIds s s' := by
  rcases h with rfl | ⟨s₁, key, value, leaseId, rfl, -, hids, -⟩
  · exact ⟨rfl, fun _ => rfl⟩
  · exact ⟨hids.1, hids.2⟩

theorem Writes.bound (h : Writes net s s') (hbound : s.Bound) : s'.Bound := by
  rcases h with rfl | ⟨s₁, key, value, leaseId, rfl, hsame, hids, hbind⟩
  · exact hbound
  · exact hbound.storeKey net [] hsame hids (hbind hbound.bindings)

/-- Storing a key that is not there. -/
theorem writes_create (habsent : s.kvs[key]? = none) (hknown : leaseUnknown s leaseId = false) :
    Writes net s (storeKey net (bindLease s key leaseId) [] key value leaseId).1 := by
  have hfree : s.owner key = none := by
    rw [owner, habsent]
    rfl
  exact .inr ⟨_, key, value, leaseId, rfl, sameStore_bindLease s key leaseId,
    sameLeaseIds_bindLease hknown, fun h => bindings_bindLease h hfree hknown⟩

/-- An accepted put moves the key to its lease and stores it. -/
theorem kvPut_known (net : Net) (req : Nat) (key value : Bytes)
    (hknown : leaseUnknown s leaseId = false) :
    (kvPut net s req key value leaseId).reply.ok = true ∧
      ∃ s₁, (kvPut net s req key value leaseId).server =
          (storeKey net s₁ [] key value leaseId).1 ∧
        SameStore s s₁ ∧ SameLeaseIds s s₁ ∧
        (Bindings s.owner s.members →
          Bindings (Function.update s.owner key (leaseOf leaseId)) s₁.members) := by
  unfold kvPut
  rw [if_neg (by rw [hknown]; exact Bool.false_ne_true)]
  refine ⟨rfl, ?_⟩
  cases hentry : s.kvs[key]? with
  | none =>
    have hfree : s.owner key = none := by
      rw [owner, hentry]
      rfl
    exact ⟨_, rfl, sameStore_bindLease s key leaseId, sameLeaseIds_bindLease hknown,
      fun h => bindings_bindLease h hfree hknown⟩
  | some existing =>
    dsimp only
    split
    · -- the key moves from one lease to another
      have hunbound := sameLeaseIds_unbindLeaseLocked s key existing.leaseId
      have hknown' : leaseUnknown (unbindLeaseLocked s key existing.leaseId) leaseId = false := by
        rw [hunbound.leaseUnknown]
        exact hknown
      refine ⟨_, rfl, (sameStore_unbindLeaseLocked s key _).trans
        (sameStore_bindLease _ key leaseId), hunbound.trans (sameLeaseIds_bindLease hknown'), ?_⟩
      intro h
      have hbind := bindings_bindLease (bindings_unbindLeaseLocked h hentry)
        (Function.update_self key none s.owner) hknown'
      rwa [Function.update_idem] at hbind
    · next hsame =>
      -- the key stays with its lease
      have howner : Function.update s.owner key (leaseOf leaseId) = s.owner := by
        rw [Function.update_eq_self_iff, owner, hentry, ← not_not.mp hsame]
        rfl
      refine ⟨s, rfl, .refl s, ⟨rfl, fun _ => rfl⟩, fun h => ?_⟩
      rw [howner]
      exact h

theorem kvPut_unknown (net : Net) (req : Nat) (key value : Bytes)
    (hunknown : leaseUnknown s leaseId = true) :
    kvPut net s req key value leaseId = reject s req (str "lease expired or unknown") :=
  if_pos hunknown

theorem writes_kvPut (net : Net) (s : Server) (req : Nat) (key value : Bytes)
    (leaseId : LeaseId) : Writes net s (kvPut net s req key value leaseId).server := by
  cases hunknown : leaseUnknown s leaseId with
  | true =>
    rw [kvPut_unknown net req key value hunknown]
    exact .inl rfl
  | false =>
    obtain ⟨-, s₁, hstored⟩ := kvPut_known net req key value hunknown
    exact .inr ⟨s₁, key, value, leaseId, hstored⟩

theorem writes_kvCreate (net : Net) (s : Server) (req : Nat) (key value : Bytes)
    (leaseId : LeaseId) : Writes net s (kvCreate net s req key value leaseId).server := by
  unfold kvCreate
  split
  · exact .inl rfl
  next habsent =>
  split
  · exact .inl rfl
  next hknown =>
  have hnone : s.kvs[key]? = none := by
    simpa using habsent
  exact writes_create hnone (by simpa using hknown)

theorem writes_kvCreateOrValidate (net : Net) (s : Server) (req : Nat) (key value : Bytes)
    (leaseId : LeaseId) :
    Writes net s (kvCreateOrValidate net s req key value leaseId).server := by
  unfold kvCreateOrValidate
  split
  · split <;> exact .inl rfl
  next habsent =>
  split
  · exact .inl rfl
  next hknown => exact writes_create habsent (by simpa using hknown)

end writes

/-- The other requests do not touch leases either. -/
theorem handleOp_leases (net : Net) (now : Int) (s : Server) (c : ConnId) (req : Nat)
    (r : Request) (hr : r.isStoreOp = false) :
    (handleOp net now s c req r).server.leases = s.leases ∧
      (handleOp net now s c req r).server.nextLeaseId = s.nextLeaseId := by
  cases r with
  | queueDispatch subject data =>
    simp only [handleOp, queueDispatch]
    split <;> exact ⟨rfl, rfl⟩
  | getPrefix | watch | unwatch | subscribe | unsubscribe | publish | unknown => exact ⟨rfl, rfl⟩
  | _ => cases hr

theorem Server.Bound.handleOp (h : s.Bound) (net : Net) (now : Int) (c : ConnId)
    (req : Nat) (r : Request) : (handleOp net now s c req r).server.Bound := by
  cases hr : r.isStoreOp with
  | false =>
    obtain ⟨hkvs, _, _⟩ := handleOp_readOnly net now s c req r hr
    obtain ⟨hleases, hnext⟩ := handleOp_leases net now s c req r hr
    refine h.congr ?_ hleases hnext
    funext k
    rw [owner, hkvs]
    rfl
  | true =>
    match r with
    | .createLease ttl => exact h.createLease now req ttl
    | .keepalive leaseId => exact h.keepalive now req leaseId
    | .revoke leaseId => exact h.expireLeaseLocked net [] leaseId
    | .kvCreate key value leaseId => exact (writes_kvCreate net s req key value leaseId).bound h
    | .kvPut key value leaseId => exact (writes_kvPut net s req key value leaseId).bound h
    | .kvCreateOrValidate key value leaseId =>
      exact (writes_kvCreateOrValidate net s req key value leaseId).bound h

theorem bound_step {l : Step} (h : s.Bound)
    (hexec : discoveryd.exec s l = some s') : s'.Bound := by
  rcases step_cases hexec with ⟨-, rfl⟩ | ⟨net, now, c, req, r, -, -, rfl⟩ | ⟨c, -, -, rfl⟩ |
    ⟨net, now, leaseId, -, -, rfl⟩
  · exact h.congr rfl rfl rfl
  · exact h.handleOp net now c req r
  · exact h.congr rfl rfl rfl
  · exact h.expireLeaseLocked net [] leaseId

theorem bound_of_reachable (hs : discoveryd.Reachable s) : s.Bound :=
  hs.invariant bound_init fun _ _ _ h hexec => bound_step h hexec

/-- **Leases and keys are in bijection** in every reachable state, and expiring a
    lease deletes exactly the keys that are bound to it. -/
theorem leases_in_bijection {s : Server} (hs : discoveryd.Reachable s) :
    (∀ (k : Bytes) (entry : Entry), s.kvs[k]? = some entry → entry.leaseId ≠ 0 →
      ∃ record : LeaseRecord, s.leases[entry.leaseId]? = some record ∧ record.keys.count k = 1) ∧
    (∀ (l : LeaseId) (record : LeaseRecord) (k : Bytes), s.leases[l]? = some record →
      k ∈ record.keys → ∃ entry : Entry, s.kvs[k]? = some entry ∧ entry.leaseId = l) ∧
    ∀ net out l, Expires net l s out (expireLeaseLocked net s out l).1
      (expireLeaseLocked net s out l).2 := by
  have h := bound_of_reachable hs
  refine ⟨?_, ?_, fun net out l => expireLeaseLocked_expires h net out l⟩
  · intro k entry hentry hne
    obtain ⟨keys, hkeys, hcount⟩ :=
      h.bindings.listed (owner_eq_some.mpr ⟨entry, hentry, rfl, hne⟩)
    obtain ⟨record, hrecord, rfl⟩ := members_eq_some.mp hkeys
    exact ⟨record, hrecord, hcount⟩
  · intro l record k hrecord hk
    have howner := h.bindings.bound (members_eq_some.mpr ⟨record, hrecord, rfl⟩) hk
    obtain ⟨entry, hentry, hlease, _⟩ := owner_eq_some.mp howner
    exact ⟨entry, hentry, hlease⟩

/-- Two leases; a key is created under the first and moved to the second. -/
def rebinding : List Step :=
  [.accept, .request (fun _ => true) 0 0 1 (.createLease 10),
    .request (fun _ => true) 0 0 2 (.createLease 10),
    .request (fun _ => true) 0 0 3 (.kvCreate (str "k") (str "v") 1),
    .request (fun _ => true) 0 0 4 (.kvPut (str "k") (str "v") 2)]

theorem rebinding_runs : (discoveryd.run rebinding).isSome = true := by decide

theorem rebinding_bijection :
    ∃ record, ((discoveryd.run rebinding).get rebinding_runs).leases[(2 : LeaseId)]? = some record ∧
      record.keys.count (str "k") = 1 := by
  have hbound := (leases_in_bijection (System.Reachable.of_run_isSome rebinding_runs)).1
  exact hbound (str "k") ⟨str "v", 2, 2⟩ (by decide) (by decide)

end DynamoCpp.Discovery
