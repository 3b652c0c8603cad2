import DynamoCpp.Discovery.Locked

/-! # Leases of the in-process store

    A key that names a lease is listed once, by the record of that lease, and records list
    no other keys.  Every section under the store mutex keeps this, so a lease without a
    record has no keys.
-/

namespace DynamoCpp.Discovery

open Framework

section members

variable {owner : Bytes → Option LeaseId} {m : LeaseId → Option (List Bytes)} {key : Bytes}
  {leaseId : LeaseId}

/-- Binding a key that is bound to no lease. -/
theorem bindings_bindMembers (h : Bindings owner m) (hkey : owner key = none)
    (hknown : leaseId ≠ 0 → (m leaseId).isSome = true) :
    Bindings (Function.update owner key (leaseOf leaseId)) (bindMembers m key leaseId) := by
  unfold bindMembers leaseOf
  split
  · rw [← hkey, Function.update_eq_self]
    exact h
  · next hzero =>
    obtain ⟨keys, hkeys⟩ := Option.isSome_iff_exists.mp (hknown hzero)
    rw [hkeys]
    exact h.attach hkey hkeys

/-- Detaching a key from its lease. -/
theorem bindings_unbindMembers (h : Bindings owner m) (hkey : owner key = leaseOf leaseId) :
    Bindings (Function.update owner key none) (unbindMembers m key leaseId) := by
  unfold unbindMembers
  unfold leaseOf at hkey
  split
  · next hzero =>
    rw [if_pos hzero] at hkey
    rw [← hkey, Function.update_eq_self]
    exact h
  · next hzero =>
    rw [if_neg hzero] at hkey
    obtain ⟨keys, hkeys, _⟩ := h.listed hkey
    rw [hkeys]
    exact h.detach hkey hkeys

/-- Detaching keeps the leases. -/
theorem unbindMembers_isSome (m : LeaseId → Option (List Bytes)) (key : Bytes)
    (leaseId l : LeaseId) : (unbindMembers m key leaseId l).isSome = (m l).isSome := by
  unfold unbindMembers
  split
  · rfl
  · cases hkeys : m leaseId with
    | none => rfl
    | some keys =>
      dsimp only
      rw [Function.update_apply]
      split
      · next hl =>
        rw [hl, hkeys]
        rfl
      · rfl

theorem bindMembers_isSome (key : Bytes) (hknown : leaseId ≠ 0 → (m leaseId).isSome = true)
    (l : LeaseId) : (bindMembers m key leaseId l).isSome = (m l).isSome := by
  unfold bindMembers
  split
  · rfl
  · next hzero =>
    rw [Function.update_apply]
    split
    · next hl =>
      rw [hl, hknown hzero]
      rfl
    · rfl

end members

namespace InProcess

/-- The lease that a key is bound to. -/
def Store.owner (s : Store) (k : Bytes) : Option LeaseId :=
  (s.kvs[k]?).bind fun kv => leaseOf kv.leaseId

/-- The keys name their leases and the leases list their keys. -/
def Store.Bound (s : Store) : Prop := Bindings s.owner s.members

theorem members_of_known {s : Store} {leaseId : LeaseId}
    (hknown : s.leaseUnknown leaseId = false) (hzero : leaseId ≠ 0) :
    (s.members leaseId).isSome = true := by
  simp only [Store.leaseUnknown, Bool.and_eq_false_iff, decide_eq_false_iff_not, ne_eq, hzero,
    not_false_eq_true, not_true_eq_false, false_or, Bool.not_eq_false'] at hknown
  rw [Store.members, Option.isSome_map, ← Std.ExtTreeMap.contains_eq_isSome_getElem?]
  exact hknown

theorem unknown_of_members {s : Store} {leaseId : LeaseId} (hnone : s.members leaseId = none)
    (hzero : leaseId ≠ 0) : s.leaseUnknown leaseId = true := by
  by_contra hknown
  have hsome := members_of_known (eq_false_of_ne_true hknown) hzero
  rw [hnone] at hsome
  cases hsome

/-- A stored key is bound to the lease of its entry. -/
theorem owner_storeKey (net : Nat → Bool) {s t : Store} (hkvs : t.kvs = s.kvs) (kv : KeyValue) :
    (storeKey net t kv).store.owner = Function.update s.owner kv.key (leaseOf kv.leaseId) := by
  have hlookup := OrdMap.lookup_insert (fun e => e.bind fun kv => leaseOf kv.leaseId)
    s.kvs kv.key kv
  rw [← hkvs] at hlookup
  exact hlookup.trans (by rw [hkvs]; rfl)

/-- A revocation erases the keys that are bound to the lease. -/
theorem owner_revokeLease {s : Store} (h : s.Bound) (net : Nat → Bool) (l : LeaseId) :
    (revokeLease net s l).1.owner =
      fun k => if s.owner k = some l then none else s.owner k := by
  -- the keys that are erased are those of the lease, also if it has no record
  have hlisted : ∀ k, k ∈ (s.members l).getD [] ↔ s.owner k = some l := by
    intro k
    cases hl : s.members l with
    | some keys => exact h.mem_iff hl
    | none =>
      constructor
      · intro hk
        cases hk
      · intro howner
        obtain ⟨keys, hkeys, _⟩ := h.listed howner
        rw [hl] at hkeys
        cases hkeys
  funext k
  rw [Store.owner, (revokeLease_spec net s l).1]
  simp only [hlisted]
  split <;> rfl

namespace Store.Bound

variable {s : Store}

theorem init : Store.Bound {} := by
  exact Bindings.empty

/-- Storing a key whose lease has been bound for it. -/
theorem store (net : Nat → Bool) {t : Store} {kv : KeyValue} (hkvs : t.kvs = s.kvs)
    (h : Bindings (Function.update s.owner kv.key (leaseOf kv.leaseId)) t.members) :
    (storeKey net t kv).store.Bound := by
  rw [Store.Bound, owner_storeKey net hkvs kv]
  exact h

theorem kvCreate (h : s.Bound) (net : Nat → Bool) (key value : Bytes)
    (leaseId : Option LeaseId) : (InProcess.kvCreate net s key value leaseId).store.Bound := by
  cases hpresent : s.kvs.contains key with
  | true =>
    rw [kvCreate_present net value leaseId hpresent]
    exact h
  | false =>
    cases hunknown : s.leaseUnknown (leaseId.getD 0) with
    | true =>
      rw [kvCreate_unknown net value hpresent hunknown]
      exact h
    | false =>
      have hkey : s.owner key = none := by
        rw [owner, Std.ExtTreeMap.getElem?_eq_none_of_contains_eq_false hpresent]
        rfl
      rw [kvCreate_known net value hpresent hunknown]
      refine @store s net _ _ (bindLease_frame s key (leaseId.getD 0)).1 ?_
      have hmembers := members_bindLease s key (leaseId.getD 0)
      exact hmembers ▸ bindings_bindMembers h hkey (members_of_known hunknown)

/-- The bookkeeping of `kv_put` binds the key to its new lease. -/
theorem rebind (h : s.Bound) (key : Bytes) {newLease : LeaseId}
    (hknown : s.leaseUnknown newLease = false) :
    Bindings (Function.update s.owner key (leaseOf newLease))
      (InProcess.rebind s key newLease).members := by
  unfold InProcess.rebind
  split
  · next existing hexisting =>
    have hkey : s.owner key = leaseOf existing.leaseId := by
      rw [owner, hexisting]
      rfl
    split
    -- the key leaves its lease and joins the new one
    · have hidem : Function.update (Function.update s.owner key none) key (leaseOf newLease) =
          Function.update s.owner key (leaseOf newLease) := Function.update_idem ..
      rw [members_bindLease, members_unbindLeaseLocked, ← hidem]
      refine bindings_bindMembers (bindings_unbindMembers h hkey) (Function.update_self ..)
        fun hzero => ?_
      rw [unbindMembers_isSome]
      exact members_of_known hknown hzero
    · next hsame =>
      -- it stays with its lease, which lists it already
      rw [← not_not.mp hsame, ← hkey, Function.update_eq_self]
      exact h
  · next hnone =>
    have hkey : s.owner key = none := by
      rw [owner, hnone]
      rfl
    rw [members_bindLease]
    exact bindings_bindMembers h hkey (members_of_known hknown)

theorem kvPut (h : s.Bound) (net : Nat → Bool) (key value : Bytes) (leaseId : Option LeaseId) :
    (InProcess.kvPut net s key value leaseId).store.Bound := by
  cases hunknown : s.leaseUnknown (leaseId.getD 0) with
  | true =>
    rw [kvPut_unknown net key value hunknown]
    exact h
  | false =>
    rw [kvPut_known net key value hunknown]
    exact store net (rebind_frame s key (leaseId.getD 0)).1 (h.rebind key hunknown)

/-- A revoked lease takes its keys along. -/
theorem revokeLease (h : s.Bound) (net : Nat → Bool) (l : LeaseId) :
    (InProcess.revokeLease net s l).1.Bound := by
  obtain ⟨_, _, _, hmembers⟩ := revokeLease_spec net s l
  rw [Store.Bound, owner_revokeLease h, hmembers]
  exact h.retire l

end Store.Bound

/-! ## Which leases there are -/

/-- The lease table is the same but for the lists of keys. -/
structure SameLeases (s s' : Store) : Prop where
  next    : s'.nextLeaseId = s.nextLeaseId
  members : ∀ l, (s'.members l).isSome = (s.members l).isSome

theorem sameLeases_rebind {s : Store} (key : Bytes) {newLease : LeaseId}
    (hknown : s.leaseUnknown newLease = false) : SameLeases s (rebind s key newLease) where
  next := (rebind_frame s key newLease).2.2.1
  members := fun l => by
    unfold rebind
    split
    · split
      · rw [members_bindLease, members_unbindLeaseLocked, bindMembers_isSome, unbindMembers_isSome]
        intro hzero
        rw [unbindMembers_isSome]
        exact members_of_known hknown hzero
      · rfl
    · rw [members_bindLease, bindMembers_isSome key (members_of_known hknown)]

theorem sameLeases_kvCreate (net : Nat → Bool) (s : Store) (key value : Bytes)
    (leaseId : Option LeaseId) : SameLeases s (kvCreate net s key value leaseId).store := by
  cases hpresent : s.kvs.contains key with
  | true =>
    rw [kvCreate_present net value leaseId hpresent]
    exact ⟨rfl, fun _ => rfl⟩
  | false =>
    cases hunknown : s.leaseUnknown (leaseId.getD 0) with
    | true =>
      rw [kvCreate_unknown net value hpresent hunknown]
      exact ⟨rfl, fun _ => rfl⟩
    | false =>
      rw [kvCreate_known net value hpresent hunknown]
      refine ⟨(bindLease_frame s key (leaseId.getD 0)).2.2, fun l => ?_⟩
      show ((bindLease s key (leaseId.getD 0)).members l).isSome = _
      rw [members_bindLease, bindMembers_isSome key (members_of_known hunknown)]

theorem sameLeases_kvPut (net : Nat → Bool) (s : Store) (key value : Bytes)
    (leaseId : Option LeaseId) : SameLeases s (kvPut net s key value leaseId).store := by
  cases hunknown : s.leaseUnknown (leaseId.getD 0) with
  | true =>
    rw [kvPut_unknown net key value hunknown]
    exact ⟨rfl, fun _ => rfl⟩
  | false =>
    have hsame := sameLeases_rebind key hunknown
    rw [kvPut_known net key value hunknown]
    exact ⟨hsame.next, hsame.members⟩

/-- `leases[id] = LeaseRecord{..}` in `make_lease`. -/
def insertLease (s : Store) (id : LeaseId) : Store :=
  { s with leases := s.leases.insert id {} }

theorem Store.Bound.insertLease {s : Store} (h : s.Bound) {id : LeaseId}
    (hnone : s.members id = none) : (InProcess.insertLease s id).Bound := by
  have hmembers : (InProcess.insertLease s id).members = Function.update s.members id (some []) :=
    members_insert rfl
  rw [Store.Bound, hmembers]
  exact h.register hnone

/-- A lease without a record has no keys, and no key can be bound to it. -/
theorem Store.Bound.gone {s : Store} (h : s.Bound) {id : LeaseId} (hnone : s.members id = none)
    (hzero : id ≠ 0) (k : Bytes) (kv : KeyValue) (hkv : s.kvs[k]? = some kv) : kv.leaseId ≠ id := by
  rintro rfl
  have howner : s.owner k = some kv.leaseId := by
    rw [owner, hkv]
    exact if_neg hzero
  obtain ⟨keys, hkeys, _⟩ := h.listed howner
  rw [hnone] at hkeys
  cases hkeys

end InProcess

end DynamoCpp.Discovery
