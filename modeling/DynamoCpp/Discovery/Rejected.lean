import DynamoCpp.Discovery.Locked

/-! # Rejected operations

    What `kv_create`, `kv_put` and `kv_create_or_validate` leave behind when they fail.
    discoveryd makes all checks before the first update.  The in-process store does so too,
    with one exception: `kv_create` takes a revision for its entry and then looks the lease
    up.
-/

namespace DynamoCpp.Discovery

open Framework

inductive KvKind where
  | create
  | put
  | createOrValidate
  deriving DecidableEq

/-- A call of one of the three operations. -/
structure KvCall where
  kind    : KvKind
  key     : Bytes
  value   : Bytes
  leaseId : Option LeaseId

/-- The request that a client of discoveryd sends for it. -/
def KvCall.request (call : KvCall) : Request :=
  match call.kind with
  | .create => .kvCreate call.key call.value (call.leaseId.getD 0)
  | .put => .kvPut call.key call.value (call.leaseId.getD 0)
  | .createOrValidate => .kvCreateOrValidate call.key call.value (call.leaseId.getD 0)

/-- The call on the in-process store.  Nothing happens between the two sections of
    `kv_create_or_validate`. -/
def KvCall.run (net : Nat → Bool) (t : InProcess.Store) (call : KvCall) : InProcess.Outcome :=
  match call.kind with
  | .create => InProcess.kvCreate net t call.key call.value call.leaseId
  | .put => InProcess.kvPut net t call.key call.value call.leaseId
  | .createOrValidate => InProcess.kvCreateOrValidate net t call.key call.value call.leaseId

/-! ## discoveryd -/

section discoveryd

variable (net : Net) (s : Server) (req : Nat) (key value : Bytes) (leaseId : LeaseId)

/-- The server is as before and nothing was written. -/
def Outcome.Untouched (o : Outcome) (s : Server) : Prop := o.server = s ∧ o.out = []

theorem kvCreate_rejected (h : (kvCreate net s req key value leaseId).reply.ok = false) :
    (kvCreate net s req key value leaseId).Untouched s := by
  unfold kvCreate at h ⊢
  by_cases hpresent : s.kvs.contains key = true
  · rw [if_pos hpresent]
    exact ⟨rfl, rfl⟩
  · rw [if_neg hpresent] at h ⊢
    by_cases hunknown : leaseUnknown s leaseId = true
    · rw [if_pos hunknown]
      exact ⟨rfl, rfl⟩
    · rw [if_neg hunknown] at h
      cases h

theorem kvPut_rejected (h : (kvPut net s req key value leaseId).reply.ok = false) :
    (kvPut net s req key value leaseId).Untouched s := by
  unfold kvPut at h ⊢
  by_cases hunknown : leaseUnknown s leaseId = true
  · rw [if_pos hunknown]
    exact ⟨rfl, rfl⟩
  · rw [if_neg hunknown] at h
    cases h

theorem kvCreateOrValidate_rejected
    (h : (kvCreateOrValidate net s req key value leaseId).reply.ok = false) :
    (kvCreateOrValidate net s req key value leaseId).Untouched s := by
  cases hexisting : s.kvs[key]? with
  | some existing =>
    simp only [kvCreateOrValidate, hexisting]
    split <;> exact ⟨rfl, rfl⟩
  | none =>
    simp only [kvCreateOrValidate, hexisting] at h ⊢
    by_cases hunknown : leaseUnknown s leaseId = true
    · rw [if_pos hunknown]
      exact ⟨rfl, rfl⟩
    · rw [if_neg hunknown] at h
      cases h

end discoveryd

theorem KvCall.request_rejected (call : KvCall) (net : Net) (now : Int) (s : Server) (c : ConnId)
    (req : Nat) (h : (handleOp net now s c req call.request).reply.ok = false) :
    (handleOp net now s c req call.request).Untouched s := by
  obtain ⟨kind, key, value, leaseId⟩ := call
  cases kind with
  | create => exact kvCreate_rejected net s req key value _ h
  | put => exact kvPut_rejected net s req key value _ h
  | createOrValidate => exact kvCreateOrValidate_rejected net s req key value _ h

/-! ## The in-process store -/

namespace InProcess

/-- The call creates a key that is absent, under a lease without a record. -/
def TakesRevision (t : Store) (call : KvCall) : Prop :=
  call.kind ≠ .put ∧ t.kvs.contains call.key = false ∧
    t.leaseUnknown (call.leaseId.getD 0) = true

instance (t : Store) (call : KvCall) : Decidable (TakesRevision t call) :=
  inferInstanceAs (Decidable (_ ∧ _ ∧ _))

/-- Nothing was sent, and nothing has changed but the revision of a call that took one. -/
def Outcome.Rejected (o : Outcome) (t : Store) (taken : Prop) [Decidable taken] : Prop :=
  o.sent = [] ∧ o.store = { t with revision := if taken then t.revision + 1 else t.revision }

theorem Outcome.Rejected.of_same {o : Outcome} {t : Store} {taken : Prop} [Decidable taken]
    (hsent : o.sent = []) (hstore : o.store = t) (hnot : ¬ taken) : o.Rejected t taken := by
  refine ⟨hsent, ?_⟩
  rw [hstore, if_neg hnot]

section calls

variable {net : Nat → Bool} {t : Store} {key value : Bytes} {leaseId : Option LeaseId} {e : Bytes}

/-- An absent key is rejected for its lease only, and takes a revision. -/
theorem kvCreate_absent_rejected {kind : KvKind} (hkind : kind ≠ .put)
    (habsent : t.kvs.contains key = false)
    (h : (kvCreate net t key value leaseId).result = .error e) :
    (kvCreate net t key value leaseId).Rejected t
      (TakesRevision t ⟨kind, key, value, leaseId⟩) := by
  cases hunknown : t.leaseUnknown (leaseId.getD 0) with
  | true =>
    have htaken : TakesRevision t ⟨kind, key, value, leaseId⟩ := ⟨hkind, habsent, hunknown⟩
    rw [kvCreate_unknown net value habsent hunknown]
    refine ⟨rfl, ?_⟩
    rw [if_pos htaken]
  | false =>
    rw [kvCreate_known net value habsent hunknown] at h
    cases h

theorem kvCreate_rejected (h : (kvCreate net t key value leaseId).result = .error e) :
    (kvCreate net t key value leaseId).Rejected t
      (TakesRevision t ⟨.create, key, value, leaseId⟩) := by
  cases hpresent : t.kvs.contains key with
  | true =>
    rw [kvCreate_present net value leaseId hpresent]
    exact .of_same rfl rfl fun htaken => by simp [TakesRevision, hpresent] at htaken
  | false => exact kvCreate_absent_rejected (by decide) hpresent h

theorem kvPut_rejected (h : (kvPut net t key value leaseId).result = .error e) :
    (kvPut net t key value leaseId).Rejected t (TakesRevision t ⟨.put, key, value, leaseId⟩) := by
  cases hunknown : t.leaseUnknown (leaseId.getD 0) with
  | true =>
    rw [kvPut_unknown net key value hunknown]
    exact .of_same rfl rfl fun htaken => htaken.1 rfl
  | false =>
    rw [kvPut_known net key value hunknown] at h
    cases h

theorem kvCreateOrValidate_rejected
    (h : (kvCreateOrValidate net t key value leaseId).result = .error e) :
    (kvCreateOrValidate net t key value leaseId).Rejected t
      (TakesRevision t ⟨.createOrValidate, key, value, leaseId⟩) := by
  cases hexisting : t.kvs[key]? with
  | some existing =>
    have hpresent : t.kvs.contains key = true := by
      rw [Std.ExtTreeMap.contains_eq_isSome_getElem?, hexisting]
      rfl
    -- the value is compared, and that is all
    have hnot : ¬ TakesRevision t ⟨.createOrValidate, key, value, leaseId⟩ := fun htaken => by
      simp [TakesRevision, hpresent] at htaken
    simp only [kvCreateOrValidate, hexisting]
    split <;> exact .of_same rfl rfl hnot
  | none =>
    have habsent : t.kvs.contains key = false := by
      rw [Std.ExtTreeMap.contains_eq_isSome_getElem?, hexisting]
      rfl
    have heq : kvCreateOrValidate net t key value leaseId = kvCreate net t key value leaseId := by
      rw [kvCreateOrValidate, hexisting]
    rw [heq] at h ⊢
    exact kvCreate_absent_rejected (by decide) habsent h

end calls

end InProcess

theorem KvCall.run_rejected (call : KvCall) (net : Nat → Bool) (t : InProcess.Store) (e : Bytes)
    (h : (call.run net t).result = .error e) :
    (call.run net t).Rejected t (InProcess.TakesRevision t call) := by
  obtain ⟨kind, key, value, leaseId⟩ := call
  cases kind with
  | create => exact InProcess.kvCreate_rejected h
  | put => exact InProcess.kvPut_rejected h
  | createOrValidate => exact InProcess.kvCreateOrValidate_rejected h

/-- **Rejected operations.**  A call that discoveryd rejects leaves its whole state as it is
    and sends nothing to watchers.  One that the in-process store rejects sends nothing
    either and changes nothing but the revision, and that exactly if it creates an absent
    key under an unknown lease. -/
theorem rejected_untouched_iff (call : KvCall) :
    (∀ (net : Net) (now : Int) (s : Server) (c : ConnId) (req : Nat),
      (handleOp net now s c req call.request).reply.ok = false →
      (handleOp net now s c req call.request).server = s ∧
        (handleOp net now s c req call.request).out = []) ∧
    ∀ (net : Nat → Bool) (t : InProcess.Store) (e : Bytes), (call.run net t).result = .error e →
      (call.run net t).sent = [] ∧
      (call.run net t).store = { t with revision := (call.run net t).store.revision } ∧
      ((call.run net t).store = t ↔ ¬ InProcess.TakesRevision t call) := by
  refine ⟨fun net now s c req h => call.request_rejected net now s c req h, ?_⟩
  intro net t e h
  obtain ⟨hsent, hstore⟩ := call.run_rejected net t e h
  rw [hstore]
  refine ⟨hsent, rfl, ?_⟩
  by_cases htaken : InProcess.TakesRevision t call
  · rw [if_pos htaken]
    refine iff_of_false (fun heq => ?_) (not_not.mpr htaken)
    have hrevision : t.revision + 1 = t.revision := congrArg InProcess.Store.revision heq
    omega
  · rw [if_neg htaken]
    exact iff_of_true rfl htaken

/-- A key that has been put is created again. -/
theorem rejected_duplicate_untouched :
    (KvCall.run (fun _ => true) (KvCall.run (fun _ => true) {} ⟨.put, str "k", str "v", none⟩).store
        ⟨.create, str "k", str "w", some 7⟩).store =
      (KvCall.run (fun _ => true) {} ⟨.put, str "k", str "v", none⟩).store :=
  ((rejected_untouched_iff ⟨.create, str "k", str "w", some 7⟩).2 (fun _ => true) _
    (str "kv_create: key already exists: k") (by decide)).2.2.mpr (by decide)

/-- On a fresh store, a create under a lease that does not exist takes revision 1. -/
theorem rejected_create_takes_revision :
    let o := KvCall.run (fun _ => true) {} ⟨.create, str "k", str "v", some 7⟩
    o.result = .error (str "kv_create: unknown or expired lease") ∧
      ({} : InProcess.Store).revision = 0 ∧ o.store.revision = 1 := by
  decide

end DynamoCpp.Discovery
