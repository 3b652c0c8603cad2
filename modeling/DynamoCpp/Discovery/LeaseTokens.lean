import DynamoCpp.Discovery.InProcessLeases
import DynamoCpp.Framework.Interleaving
import Mathlib.Data.Multiset.Count

/-! # Leases and their tokens

    `make_lease` registers the callback that revokes the lease on the token, and then
    inserts the record under the store mutex.  The callback runs once: when the token is
    cancelled, or inline if it is cancelled already.  A callback that has run before the
    record was inserted found nothing to revoke, and nobody revokes the lease any more.
-/

namespace DynamoCpp.Discovery.InProcess

open Framework

/-! ## The model -/

/-- The store and the cancellation tokens of its leases. -/
structure LeasedStore where
  store     : Store := {}
  cancelled : Nat → Bool := fun _ => false
  /-- The leases whose revoke callback is registered on a token. -/
  callbacks : Nat → List LeaseId := fun _ => []
  -- what has happened
  /-- The token that a lease was made with. -/
  tokenOf   : LeaseId → Option Nat := fun _ => none
  inserted  : LeaseId → Bool := fun _ => false
  revoked   : LeaseId → Bool := fun _ => false

inductive LeaseAction where
  /-- `make_lease` up to `register_callback`. -/
  | register (token : Nat)
  /-- The rest of `make_lease`. -/
  | insertLease (id : LeaseId)
  /-- The locked section of `CancellationState::cancel`. -/
  | cancel (token : Nat)
  /-- The callback of a lease: `revoke_lease`. -/
  | revoke (id : LeaseId)
  | kvCreate (key value : Bytes) (leaseId : Option LeaseId)
  | kvPut (key value : Bytes) (leaseId : Option LeaseId)
  deriving DecidableEq

inductive LeaseCall where
  | makeLease (token : Nat)
  | cancel (token : Nat)
  | kvCreate (key value : Bytes) (leaseId : Option LeaseId)
  | kvPut (key value : Bytes) (leaseId : Option LeaseId)

namespace LeasedStore

def start (w : LeasedStore) : LeaseCall → LeasedStore × List LeaseAction
  | .makeLease token => (w, [.register token])
  | .cancel token => (w, [.cancel token])
  | .kvCreate key value leaseId => (w, [.kvCreate key value leaseId])
  | .kvPut key value leaseId => (w, [.kvPut key value leaseId])

def register (w : LeasedStore) (token : Nat) : LeasedStore × List LeaseAction :=
  let id := w.store.nextLeaseId
  let w :=
    { w with
      store := { w.store with nextLeaseId := id + 1 }
      tokenOf := Function.update w.tokenOf id (some token) }
  -- on a cancelled token the callback fires inline
  if w.cancelled token then (w, [.revoke id, .insertLease id])
  else
    ({ w with callbacks := Function.update w.callbacks token (w.callbacks token ++ [id]) },
      [.insertLease id])

def cancel (w : LeasedStore) (token : Nat) : LeasedStore × List LeaseAction :=
  if w.cancelled token then (w, [])
  else
    ({ w with
        cancelled := Function.update w.cancelled token true
        callbacks := Function.update w.callbacks token [] },
      (w.callbacks token).map .revoke)

/-- There are no watchers here, so the outcome of sends does not matter. -/
def act (w : LeasedStore) : LeaseAction → LeasedStore × List LeaseAction
  | .register token => w.register token
  | .insertLease id =>
    ({ w with
        store := InProcess.insertLease w.store id
        inserted := Function.update w.inserted id true }, [])
  | .cancel token => w.cancel token
  | .revoke id =>
    -- nothing happens to the store if there is no record
    ({ w with
        store := (revokeLease (fun _ => true) w.store id).1
        revoked := Function.update w.revoked id true }, [])
  | .kvCreate key value leaseId =>
    ({ w with store := (InProcess.kvCreate (fun _ => true) w.store key value leaseId).store }, [])
  | .kvPut key value leaseId =>
    ({ w with store := (InProcess.kvPut (fun _ => true) w.store key value leaseId).store }, [])

end LeasedStore

def leasing : Program LeasedStore LeaseCall LeaseAction where
  init := {}
  start := LeasedStore.start
  act := LeasedStore.act

/-! ## The invariant -/

namespace LeasedStore

/-- How often the callback of a lease is registered on its token. -/
def registered (w : LeasedStore) (id : LeaseId) : Nat :=
  (w.tokenOf id).elim 0 fun token => (w.callbacks token).count id

/-- Where the callback and the record of every lease are. -/
structure Traced (w : LeasedStore) (m : Multiset LeaseAction) : Prop where
  next     : 0 < w.store.nextLeaseId
  issued   : ∀ id, (w.tokenOf id).isSome = true → 0 < id ∧ id < w.store.nextLeaseId
  callback : ∀ id, w.registered id + m.count (.revoke id) + (w.revoked id).toNat =
    (w.tokenOf id).isSome.toNat
  record   : ∀ id, m.count (.insertLease id) + (w.inserted id).toNat = (w.tokenOf id).isSome.toNat
  held     : ∀ token, ∀ id ∈ w.callbacks token, w.tokenOf id = some token
  emptied  : ∀ token, w.cancelled token = true → w.callbacks token = []
  fired    : ∀ id, .revoke id ∈ m ∨ w.revoked id = true →
    ∃ token, w.tokenOf id = some token ∧ w.cancelled token = true
  stored   : ∀ id, (w.store.members id).isSome = true → w.inserted id = true
  bound    : w.store.Bound

theorem traced_init : Traced {} 0 where
  next := by decide
  issued := fun _ h => by cases h
  callback := fun _ => rfl
  record := fun _ => rfl
  held := fun _ _ h => by cases h
  emptied := fun _ h => by cases h
  fired := fun _ h => by simp at h
  stored := fun id h => by simp [Store.members] at h
  bound := .init

namespace Traced

variable {w : LeasedStore} {m : Multiset LeaseAction}

variable {a : LeaseAction} {id : LeaseId} {token : Nat}

/-- Other actions than those about callbacks and records may come and go. -/
theorem pending_congr (h : Traced w m) {m' : Multiset LeaseAction}
    (hrevoke : ∀ id, m'.count (.revoke id) = m.count (.revoke id))
    (hinsert : ∀ id, m'.count (.insertLease id) = m.count (.insertLease id)) : Traced w m' where
  next := h.next
  issued := h.issued
  callback := fun id => hrevoke id ▸ h.callback id
  record := fun id => hinsert id ▸ h.record id
  held := h.held
  emptied := h.emptied
  fired := fun id hid => h.fired id (hid.imp_left fun hmem => by
    rwa [← Multiset.count_pos, ← hrevoke, Multiset.count_pos])
  stored := h.stored
  bound := h.bound

/-- An action that is about neither a callback nor a record has run. -/
theorem done (h : Traced w (a ::ₘ m)) (hrevoke : ∀ id, a ≠ .revoke id)
    (hinsert : ∀ id, a ≠ .insertLease id) : Traced w m :=
  h.pending_congr (fun id => (Multiset.count_cons_of_ne (hrevoke id).symm _).symm)
    fun id => (Multiset.count_cons_of_ne (hinsert id).symm _).symm

/-- An action that nothing follows. -/
theorem last (h : Traced w m) : Traced w (m + ([] : List LeaseAction)) := by
  rwa [Multiset.coe_nil, Multiset.add_zero]

/-- Keys are written, and the leases stay. -/
theorem write (h : Traced w m) {s : Store} (hsame : SameLeases w.store s) (hbound : s.Bound) :
    Traced { w with store := s } m where
  next := hsame.next ▸ h.next
  issued := fun id hid => by
    show 0 < id ∧ id < s.nextLeaseId
    rw [hsame.next]
    exact h.issued id hid
  callback := h.callback
  record := h.record
  held := h.held
  emptied := h.emptied
  fired := h.fired
  stored := fun id hid => h.stored id (by rw [← hsame.members]; exact hid)
  bound := hbound

/-- A call begins with an action of this kind. -/
theorem begin (h : Traced w m) (hrevoke : ∀ id, a ≠ .revoke id)
    (hinsert : ∀ id, a ≠ .insertLease id) : Traced w (m + [a]) :=
  h.pending_congr (fun id => by simp [(hrevoke id).symm]) fun id => by simp [(hinsert id).symm]

theorem start (h : Traced w m) (call : LeaseCall) :
    Traced (w.start call).1 (m + (w.start call).2) := by
  cases call <;> exact h.begin (fun _ => by simp) (fun _ => by simp)

/-- The record of a lease is inserted once. -/
theorem insertLease (h : Traced w (.insertLease id ::ₘ m)) :
    Traced
      { w with
        store := InProcess.insertLease w.store id
        inserted := Function.update w.inserted id true } m := by
  have hrecord := h.record id
  rw [Multiset.count_cons_self] at hrecord
  have hone := Bool.toNat_le (w.tokenOf id).isSome
  -- the record has not been inserted before, so there is none
  have hfresh : w.inserted id = false := by
    cases hinserted : w.inserted id with
    | false => rfl
    | true =>
      rw [hinserted] at hrecord
      simp only [Bool.toNat_true] at hrecord
      omega
  have hnone : w.store.members id = none := by
    cases hmembers : w.store.members id with
    | none => rfl
    | some keys =>
      have hinserted := h.stored id (by rw [hmembers]; rfl)
      rw [hfresh] at hinserted
      cases hinserted
  refine ⟨h.next, h.issued, fun l => ?_, fun l => ?_, h.held, h.emptied,
    fun l hl => h.fired l (hl.imp_left (Multiset.mem_cons_of_mem ·)), fun l hl => ?_,
    h.bound.insertLease hnone⟩
  · have hcallback := h.callback l
    rw [Multiset.count_cons_of_ne (by simp)] at hcallback
    exact hcallback
  · by_cases hl : l = id
    · subst hl
      rw [hfresh] at hrecord
      simp only [Function.update_self, Bool.toNat_true]
      exact hrecord
    · have hother := h.record l
      rw [Multiset.count_cons_of_ne (by simpa using hl)] at hother
      simp only [Function.update_of_ne hl]
      exact hother
  · simp only [Function.update_apply]
    split
    · rfl
    · next hne =>
      have hmembers : (InProcess.insertLease w.store id).members =
          Function.update w.store.members id (some []) := members_insert rfl
      have hl : ((InProcess.insertLease w.store id).members l).isSome = true := hl
      rw [hmembers, Function.update_of_ne hne] at hl
      exact h.stored l hl

/-- The callback of a lease runs once. -/
theorem revoke (h : Traced w (.revoke id ::ₘ m)) :
    Traced
      { w with
        store := (revokeLease (fun _ => true) w.store id).1
        revoked := Function.update w.revoked id true } m := by
  obtain ⟨_, _, hnext, hmembers⟩ := revokeLease_spec (fun _ => true) w.store id
  have hcallback := h.callback id
  rw [Multiset.count_cons_self] at hcallback
  have hone := Bool.toNat_le (w.tokenOf id).isSome
  refine ⟨by simpa [hnext] using h.next, fun l hl => by simpa [hnext] using h.issued l hl,
    fun l => ?_, fun l => ?_, h.held, h.emptied, fun l hl => ?_, fun l hl => ?_,
    h.bound.revokeLease _ id⟩
  · by_cases hl : l = id
    · subst hl
      simp only [Function.update_self, Bool.toNat_true]
      show w.registered l + _ + _ = _
      omega
    · have hother := h.callback l
      rw [Multiset.count_cons_of_ne (by simpa using hl)] at hother
      simp only [Function.update_of_ne hl]
      exact hother
  · have hrecord := h.record l
    rw [Multiset.count_cons_of_ne (by simp)] at hrecord
    exact hrecord
  · by_cases hne : l = id
    · exact hne ▸ h.fired id (.inl (Multiset.mem_cons_self _ _))
    · simp only [Function.update_of_ne hne] at hl
      exact h.fired l (hl.imp_left (Multiset.mem_cons_of_mem ·))
  · have hl : ((revokeLease (fun _ => true) w.store id).1.members l).isSome = true := hl
    rw [hmembers, Function.update_apply] at hl
    split at hl
    · cases hl
    · exact h.stored l hl

/-- A callback is registered only on the token of its lease. -/
theorem count_callbacks (h : Traced w m)
    (htoken : w.tokenOf id ≠ some token) : (w.callbacks token).count id = 0 :=
  List.count_eq_zero.mpr fun hmem => htoken (h.held token id hmem)

theorem unissued (h : Traced w m) : w.tokenOf w.store.nextLeaseId = none := by
  refine Option.not_isSome_iff_eq_none.mp fun hsome => ?_
  exact absurd (h.issued _ hsome).2 (Int.lt_irrefl _)

theorem count_unissued (h : Traced w m) (token : Nat) :
    (w.callbacks token).count w.store.nextLeaseId = 0 :=
  h.count_callbacks (by simp [h.unissued])

/-! ### A new lease -/

theorem issue_issued (h : Traced w m) (token : Nat) (id : LeaseId)
    (hid : (Function.update w.tokenOf w.store.nextLeaseId (some token) id).isSome = true) :
    0 < id ∧ id < w.store.nextLeaseId + 1 := by
  rw [Function.update_apply] at hid
  split at hid
  · next hnew =>
    rw [hnew]
    exact ⟨h.next, Int.lt_add_one_of_le (Int.le_refl _)⟩
  · obtain ⟨hpos, hlt⟩ := h.issued id hid
    exact ⟨hpos, Int.lt_add_one_of_le (Int.le_of_lt hlt)⟩

/-- A lease made before keeps its token. -/
theorem issue_kept (h : Traced w m) (token : Nat) {t : Nat}
    (hid : w.tokenOf id = some t) :
    Function.update w.tokenOf w.store.nextLeaseId (some token) id = some t := by
  rw [Function.update_of_ne, hid]
  rintro rfl
  rw [h.unissued] at hid
  cases hid

/-- What is there once for each lease is there once more. -/
theorem issue_count (h : Traced w m) (token : Nat) {count : LeaseId → Nat}
    (hcount : ∀ id, count id = (w.tokenOf id).isSome.toNat) (id : LeaseId) :
    (Function.update w.tokenOf w.store.nextLeaseId (some token) id).isSome.toNat =
      count id + if id = w.store.nextLeaseId then 1 else 0 := by
  rw [hcount]
  by_cases hnew : id = w.store.nextLeaseId
  · simp [hnew, h.unissued]
  · simp [hnew]

/-- The record of the new lease is to come. -/
theorem issue_record (h : Traced w m) (token : Nat) (front : List LeaseAction)
    (hfront : ∀ id, front.count (.insertLease id) = if id = w.store.nextLeaseId then 1 else 0)
    (id : LeaseId) :
    (m + front).count (.insertLease id) + (w.inserted id).toNat =
      (Function.update w.tokenOf w.store.nextLeaseId (some token) id).isSome.toNat := by
  rw [h.issue_count token h.record, Multiset.count_add, Multiset.coe_count, hfront,
    Nat.add_right_comm]

theorem issue_fired (h : Traced w m) (token : Nat)
    (hid : .revoke id ∈ m ∨ w.revoked id = true) :
    ∃ t, Function.update w.tokenOf w.store.nextLeaseId (some token) id = some t ∧
      w.cancelled t = true := by
  obtain ⟨t, ht, hfired⟩ := h.fired id hid
  exact ⟨t, h.issue_kept token ht, hfired⟩

/-- On a cancelled token the callback is about to run. -/
theorem register_cancelled (h : Traced w m) (hcancelled : w.cancelled token = true) :
    Traced
      { w with
        store := { w.store with nextLeaseId := w.store.nextLeaseId + 1 }
        tokenOf := Function.update w.tokenOf w.store.nextLeaseId (some token) }
      (m + ([.revoke w.store.nextLeaseId, .insertLease w.store.nextLeaseId] :
        List LeaseAction)) where
  next := Int.lt_add_one_of_le (Int.le_of_lt h.next)
  issued := h.issue_issued token
  callback := fun id => by
    rw [h.issue_count token h.callback, Multiset.count_add, Multiset.coe_count]
    by_cases hnew : id = w.store.nextLeaseId
    · subst hnew
      simp [registered, h.unissued, h.count_unissued]
      omega
    · simp [registered, hnew, Ne.symm hnew]
  record := h.issue_record token _ fun id => by simp [List.count_cons, @eq_comm _ id]
  held := fun t id hid => h.issue_kept token (h.held t id hid)
  emptied := h.emptied
  fired := fun id hid => by
    by_cases hnew : id = w.store.nextLeaseId
    · exact ⟨token, by rw [hnew]; exact Function.update_self .., hcancelled⟩
    · exact h.issue_fired token (by simpa [hnew] using hid)
  stored := h.stored
  bound := h.bound

/-- On any other token the callback is registered. -/
theorem register_open (h : Traced w m) (hopen : w.cancelled token ≠ true) :
    Traced
      { w with
        store := { w.store with nextLeaseId := w.store.nextLeaseId + 1 }
        tokenOf := Function.update w.tokenOf w.store.nextLeaseId (some token)
        callbacks := Function.update w.callbacks token
          (w.callbacks token ++ [w.store.nextLeaseId]) }
      (m + ([.insertLease w.store.nextLeaseId] : List LeaseAction)) where
  next := Int.lt_add_one_of_le (Int.le_of_lt h.next)
  issued := h.issue_issued token
  callback := fun id => by
    rw [h.issue_count token h.callback, Multiset.count_add, Multiset.coe_count]
    by_cases hnew : id = w.store.nextLeaseId
    · subst hnew
      simp [registered, h.unissued, h.count_unissued]
      omega
    · have hsame : ∀ t, (Function.update w.callbacks token
          (w.callbacks token ++ [w.store.nextLeaseId]) t).count id = (w.callbacks t).count id := by
        intro t
        by_cases ht : t = token
        · simp [ht, Ne.symm hnew]
        · simp [ht]
      simp [registered, hnew, hsame]
  record := h.issue_record token _ fun id => by simp [List.count_cons, @eq_comm _ id]
  held := fun t id hid => by
    simp only [Function.update_apply] at hid
    split at hid
    · next ht =>
      rcases List.mem_append.mp hid with hid | hid
      · exact h.issue_kept token (ht ▸ h.held token id hid)
      · rw [List.mem_singleton.mp hid, ht]
        exact Function.update_self ..
    · exact h.issue_kept token (h.held t id hid)
  emptied := fun t ht => by
    have hne : t ≠ token := by
      rintro rfl
      exact hopen ht
    simp only [Function.update_of_ne hne]
    exact h.emptied t ht
  fired := fun id hid => h.issue_fired token (by simpa using hid)
  stored := h.stored
  bound := h.bound

theorem register (h : Traced w m) (token : Nat) :
    Traced (w.register token).1 (m + (w.register token).2) := by
  unfold LeasedStore.register
  by_cases hcancelled : w.cancelled token = true
  · simp only [hcancelled, if_true]
    exact h.register_cancelled hcancelled
  · simp only [hcancelled, Bool.false_eq_true, if_false]
    exact h.register_open hcancelled

/-! ### The other actions -/

/-- The callbacks that were registered on the token are the ones about to run. -/
theorem cancel_callback (h : Traced w m) (token : Nat) (id : LeaseId) :
    (w.tokenOf id).elim 0 (fun t => (Function.update w.callbacks token [] t).count id) +
      (w.callbacks token).count id = w.registered id := by
  unfold registered
  by_cases htoken : w.tokenOf id = some token
  · simp [htoken]
  · rw [h.count_callbacks htoken, Nat.add_zero]
    cases hother : w.tokenOf id with
    | none => rfl
    | some t =>
      have hne : t ≠ token := by
        rintro rfl
        exact htoken hother
      simp [hne]

/-- The callbacks of a token that is cancelled are about to run. -/
theorem cancel_open (h : Traced w m) (token : Nat) :
    Traced
      { w with
        cancelled := Function.update w.cancelled token true
        callbacks := Function.update w.callbacks token [] }
      (m + (w.callbacks token).map LeaseAction.revoke) where
  next := h.next
  issued := h.issued
  callback := fun id => by
    have hmoved : ((w.callbacks token).map LeaseAction.revoke).count (.revoke id) =
        (w.callbacks token).count id :=
      List.count_map_of_injective _ _ (fun _ _ heq => LeaseAction.revoke.inj heq) id
    have hcallback := h.callback id
    rw [← h.cancel_callback token id] at hcallback
    rw [Multiset.count_add, Multiset.coe_count, hmoved]
    simp only [registered]
    omega
  record := fun id => by
    have hnone : ((w.callbacks token).map LeaseAction.revoke).count (.insertLease id) = 0 :=
      List.count_eq_zero.mpr (by simp)
    rw [Multiset.count_add, Multiset.coe_count, hnone]
    exact h.record id
  held := fun t id hid => by
    simp only [Function.update_apply] at hid
    split at hid
    · cases hid
    · exact h.held t id hid
  emptied := fun t ht => by
    simp only [Function.update_apply] at ht ⊢
    split
    · rfl
    · next hne =>
      rw [if_neg hne] at ht
      exact h.emptied t ht
  fired := fun id hid => by
    have hcases : (.revoke id ∈ m ∨ w.revoked id = true) ∨ id ∈ w.callbacks token := by
      rcases hid with hid | hid
      · rcases Multiset.mem_add.mp hid with hid | hid
        · exact .inl (.inl hid)
        · obtain ⟨l, hl, heq⟩ := List.mem_map.mp hid
          exact .inr (LeaseAction.revoke.inj heq ▸ hl)
      · exact .inl (.inr hid)
    rcases hcases with hid | hid
    · obtain ⟨t, ht, hfired⟩ := h.fired id hid
      refine ⟨t, ht, ?_⟩
      simp only [Function.update_apply]
      split
      · rfl
      · exact hfired
    · exact ⟨token, h.held token id hid, Function.update_self token true w.cancelled⟩
  stored := h.stored
  bound := h.bound

theorem cancel (h : Traced w m) (token : Nat) :
    Traced (w.cancel token).1 (m + (w.cancel token).2) := by
  unfold LeasedStore.cancel
  by_cases hcancelled : w.cancelled token = true
  · simp only [hcancelled, if_true]
    exact h.last
  · simp only [hcancelled, Bool.false_eq_true, if_false]
    exact h.cancel_open token

theorem act (h : Traced w (a ::ₘ m)) : Traced (w.act a).1 (m + (w.act a).2) := by
  cases a with
  | register token => exact (h.done (fun _ => by simp) fun _ => by simp).register token
  | cancel token => exact (h.done (fun _ => by simp) fun _ => by simp).cancel token
  | insertLease id => exact h.insertLease.last
  | revoke id => exact h.revoke.last
  | kvCreate key value leaseId =>
    exact ((h.done (fun _ => by simp) fun _ => by simp).write
      (sameLeases_kvCreate (fun _ => true) w.store key value leaseId)
      (h.bound.kvCreate _ key value leaseId)).last
  | kvPut key value leaseId =>
    exact ((h.done (fun _ => by simp) fun _ => by simp).write
      (sameLeases_kvPut (fun _ => true) w.store key value leaseId)
      (h.bound.kvPut _ key value leaseId)).last

end Traced

theorem traced_reachable {w : Interleaving LeasedStore LeaseAction}
    (hw : leasing.system.Reachable w) : Traced w.shared w.pending :=
  Program.reachable_invariant traced_init (fun _ _ call h => h.start call) (fun _ _ _ h => h.act) hw

/-! ## Leases that outlive their token -/

/-- A lease has a record although its callback has run. -/
def Lost (w : LeasedStore) (_ : Multiset LeaseAction) : Prop :=
  ∃ id, (w.store.members id).isSome = true ∧ w.revoked id = true

/-- A record is inserted before the callback of the lease has run. -/
def InTime (w : LeasedStore) (_ : Multiset LeaseAction) : LeaseAction → Prop
  | .insertLease id => w.revoked id = false
  | _ => True

instance (w : LeasedStore) (m : Multiset LeaseAction) (a : LeaseAction) :
    Decidable (InTime w m a) := by
  unfold InTime
  split <;> infer_instance

theorem lost_start (w : LeasedStore) (m : Multiset LeaseAction) (call : LeaseCall) :
    Lost (w.start call).1 (m + (w.start call).2) ↔ Lost w m := by
  cases call <;> rfl

theorem register_same (w : LeasedStore) (token : Nat) :
    (w.register token).1.store.members = w.store.members ∧
      (w.register token).1.revoked = w.revoked := by
  unfold register
  dsimp only
  split <;> exact ⟨rfl, rfl⟩

theorem cancel_same (w : LeasedStore) (token : Nat) :
    (w.cancel token).1.store = w.store ∧ (w.cancel token).1.revoked = w.revoked := by
  unfold cancel
  split <;> exact ⟨rfl, rfl⟩

/-- What an action does to the record and to the callback of a lease. -/
theorem act_cases (w : LeasedStore) (a : LeaseAction) (id : LeaseId) :
    (((w.act a).1.store.members id).isSome = (w.store.members id).isSome ∧
      (w.act a).1.revoked id = w.revoked id) ∨
    (a = .insertLease id ∧ ((w.act a).1.store.members id).isSome = true ∧
      (w.act a).1.revoked id = w.revoked id) ∨
    (a = .revoke id ∧ ((w.act a).1.store.members id).isSome = false ∧
      (w.act a).1.revoked id = true) := by
  cases a with
  | register token => exact .inl (by simp [act, register_same w token])
  | cancel token => exact .inl (by simp [act, cancel_same w token])
  | kvCreate key value leaseId =>
    exact .inl ⟨(sameLeases_kvCreate (fun _ => true) w.store key value leaseId).members id, rfl⟩
  | kvPut key value leaseId =>
    exact .inl ⟨(sameLeases_kvPut (fun _ => true) w.store key value leaseId).members id, rfl⟩
  | insertLease l =>
    have hmembers : (w.act (.insertLease l)).1.store.members =
        Function.update w.store.members l (some []) := members_insert rfl
    by_cases hl : id = l
    · subst hl
      refine .inr (.inl ⟨rfl, ?_, rfl⟩)
      rw [hmembers, Function.update_self]
      rfl
    · refine .inl ⟨?_, rfl⟩
      rw [hmembers, Function.update_of_ne hl]
  | revoke l =>
    have hmembers : (w.act (.revoke l)).1.store.members =
        Function.update w.store.members l none := (revokeLease_spec _ w.store l).2.2.2
    have hrevoked : (w.act (.revoke l)).1.revoked = Function.update w.revoked l true := rfl
    rw [hmembers, hrevoked]
    by_cases hl : id = l
    · subst hl
      rw [Function.update_self, Function.update_self]
      exact .inr (.inr ⟨rfl, rfl, rfl⟩)
    · rw [Function.update_of_ne hl, Function.update_of_ne hl]
      exact .inl ⟨rfl, rfl⟩

variable {w : LeasedStore} {m : Multiset LeaseAction} {a : LeaseAction}

theorem kept_act
    (hintime : InTime w (a ::ₘ m) a) (hkept : ¬ Lost w (a ::ₘ m)) :
    ¬ Lost (w.act a).1 (m + (w.act a).2) := by
  rintro ⟨id, hrecord, hrevoked⟩
  rcases act_cases w a id with ⟨hsame, hsame'⟩ | ⟨rfl, _, hsame'⟩ | ⟨_, hgone, _⟩
  · exact hkept ⟨id, hsame ▸ hrecord, hsame' ▸ hrevoked⟩
  · rw [hsame', hintime] at hrevoked
    cases hrevoked
  · rw [hgone] at hrecord
    cases hrecord

/-- A record that is inserted too late is there although the callback has run. -/
theorem lost_late
    (hlate : ¬ InTime w (a ::ₘ m) a) : Lost (w.act a).1 (m + (w.act a).2) := by
  cases a with
  | insertLease id =>
    have hrevoked : w.revoked id = true := eq_true_of_ne_false hlate
    have hmembers : (w.act (.insertLease id)).1.store.members =
        Function.update w.store.members id (some []) := members_insert rfl
    refine ⟨id, ?_, hrevoked⟩
    rw [hmembers, Function.update_self]
    rfl
  | _ => exact absurd trivial hlate

/-- Nobody revokes it then: the callback runs only once. -/
theorem lost_act
    (h : Traced w (a ::ₘ m)) (hlost : Lost w (a ::ₘ m)) :
    Lost (w.act a).1 (m + (w.act a).2) := by
  obtain ⟨id, hrecord, hrevoked⟩ := hlost
  refine ⟨id, ?_⟩
  rcases act_cases w a id with ⟨hsame, hsame'⟩ | ⟨_, hsome, hsame'⟩ | ⟨rfl, _, _⟩
  · rw [hsame, hsame']
    exact ⟨hrecord, hrevoked⟩
  · rw [hsame']
    exact ⟨hsome, hrevoked⟩
  · have hcallback := h.callback id
    have hone := Bool.toNat_le (w.tokenOf id).isSome
    rw [Multiset.count_cons_self, hrevoked, Bool.toNat_true] at hcallback
    omega

/-! ## The contract -/

/-- A lease whose token is cancelled, with no callback of it still to run: it has no record
    and no key, and `kv_create` and `kv_put` with its id fail. -/
def Safe (w : LeasedStore) (m : Multiset LeaseAction) : Prop :=
  ∀ id token, w.tokenOf id = some token → w.cancelled token = true → .revoke id ∉ m →
    w.store.members id = none ∧
    (∀ (k : Bytes) (kv : KeyValue), w.store.kvs[k]? = some kv → kv.leaseId ≠ id) ∧
    ∀ net key value,
      (InProcess.kvCreate net w.store key value (some id)).result.isOk = false ∧
      (InProcess.kvPut net w.store key value (some id)).result.isOk = false

theorem kvCreate_fails (net : Nat → Bool) {s : Store} {id : LeaseId} (key value : Bytes)
    (hunknown : s.leaseUnknown id = true) :
    (InProcess.kvCreate net s key value (some id)).result.isOk = false := by
  cases hpresent : s.kvs.contains key with
  | true =>
    rw [kvCreate_present net value (some id) hpresent]
    rfl
  | false =>
    rw [@kvCreate_unknown s key (some id) net value hpresent hunknown]
    rfl

theorem safe_iff_not_lost (h : Traced w m) :
    Safe w m ↔ ¬ Lost w m := by
  constructor
  · rintro hsafe ⟨id, hrecord, hrevoked⟩
    obtain ⟨token, htoken, hcancelled⟩ := h.fired id (.inr hrevoked)
    have hcallback := h.callback id
    rw [htoken, hrevoked] at hcallback
    simp only [Option.isSome_some] at hcallback
    have hrun : .revoke id ∉ m := Multiset.count_eq_zero.mp (by omega)
    have hnone := (hsafe id token htoken hcancelled hrun).1
    rw [hnone] at hrecord
    cases hrecord
  · intro hkept id token htoken hcancelled hrun
    -- the callback is not registered any more and not about to run, so it has run
    have hrevoked : w.revoked id = true := by
      have hcallback := h.callback id
      rw [registered, htoken, Multiset.count_eq_zero.mpr hrun] at hcallback
      simp only [Option.elim_some, h.emptied token hcancelled, List.count_nil, Option.isSome_some,
        Bool.toNat_true, Nat.zero_add, Bool.toNat_eq_one] at hcallback
      exact hcallback
    have hnone : w.store.members id = none := by
      cases hmembers : w.store.members id with
      | none => rfl
      | some keys => exact absurd ⟨id, by rw [hmembers]; rfl, hrevoked⟩ hkept
    have hzero : id ≠ 0 := Int.ne_of_gt (h.issued id (by rw [htoken]; rfl)).1
    have hunknown := unknown_of_members hnone hzero
    refine ⟨hnone, h.bound.gone hnone hzero, fun net key value => ⟨?_, ?_⟩⟩
    · exact kvCreate_fails net key value hunknown
    · rw [@kvPut_unknown w.store (some id) net key value hunknown]
      rfl

/-- After every run, the leases of cancelled tokens are gone for good exactly when no record
    was inserted after the callback of its lease had run. -/
theorem leases_end_with_token_iff {ls : List (Turn LeaseCall)}
    {w : Interleaving LeasedStore LeaseAction} (hrun : leasing.system.run ls = some w) :
    Safe w.shared w.pending ↔
      (leasing.system.guarded (Program.Meets InTime)).run ls = some w := by
  have htraced := traced_reachable (.of_run hrun)
  rw [safe_iff_not_lost htraced,
    Program.guarded_run_iff (fun _ => traced_reachable) (by simp [Lost, leasing])
      (fun w m call _ => lost_start w m call) (fun _ _ _ _ => kept_act)
      (fun _ _ _ _ => lost_late) (fun _ _ _ => lost_act) hrun]

/-- A lease is made, a key is bound to it and its token is cancelled. -/
theorem lease_ends_with_token :
    ∃ w, leasing.system.run
        [.call (.makeLease 0), .act 0, .act 0, .call (.kvCreate (str "k") (str "v") (some 1)),
          .act 1, .call (.cancel 0), .act 2, .act 2] = some w ∧
      w.shared.tokenOf 1 = some 0 ∧ w.shared.cancelled 0 = true ∧
      Safe w.shared w.pending := by
  refine System.exists_run (fun w => (w.shared.tokenOf 1, w.shared.cancelled 0)) (some 0, true)
    (by decide +kernel) fun w hrun hfacts => ?_
  simp only [Prod.mk.injEq] at hfacts
  exact ⟨hfacts.1, hfacts.2,
    (leases_end_with_token_iff hrun).mpr (System.guarded_of_run hrun (by decide +kernel))⟩

/-- A lease is made with a token that is cancelled: the inline callback finds no record,
    which is inserted afterwards, and keys can be bound to the lease. -/
theorem lease_outlives_token :
    ∃ w, leasing.system.run
        [.call (.cancel 0), .act 0, .call (.makeLease 0), .act 1, .act 1, .act 1,
          .call (.kvCreate (str "k") (str "v") (some 1)), .act 2] = some w ∧
      w.Idle ∧ w.shared.tokenOf 1 = some 0 ∧ w.shared.cancelled 0 = true ∧
      w.shared.store.kvs[str "k"]? = some ⟨str "k", str "v", 1, 1⟩ ∧
      ¬ Safe w.shared w.pending := by
  refine System.exists_run
    (fun w => (w.threads, w.shared.tokenOf 1, w.shared.cancelled 0, w.shared.store.kvs[str "k"]?))
    ([[], [], []], some 0, true, some ⟨str "k", str "v", 1, 1⟩) (by decide +kernel)
    fun w hrun hfacts => ?_
  simp only [Prod.mk.injEq] at hfacts
  obtain ⟨hthreads, htoken, hcancelled, hkey⟩ := hfacts
  have hidle : w.Idle := by simp [Interleaving.Idle, hthreads]
  refine ⟨hidle, htoken, hcancelled, hkey, fun hsafe => ?_⟩
  have hgone := (hsafe 1 0 htoken hcancelled (by rw [hidle.pending]; simp)).2.1
  exact hgone _ _ hkey rfl

end LeasedStore

end DynamoCpp.Discovery.InProcess
