import DynamoCpp.Discovery.Locked
import DynamoCpp.Framework.Interleaving
import Mathlib.Data.Multiset.Count

/-! # Concurrent calls of `kv_create_or_validate`

    The call looks the key up under one lock and creates it under the next.  Between the
    two sections another call may have created the key, and then `kv_create` fails even if
    the value is the same.  A call is linearizable if its result is right for the value
    that the key had at some moment of the call.
-/

namespace DynamoCpp.Discovery.InProcess

open Framework

/-! ## The model -/

/-- The value of a key. -/
def Store.valueOf (s : Store) (key : Bytes) : Option Bytes := (s.kvs[key]?).map (·.value)

instance decidableEqResult : DecidableEq (Except Bytes Unit)
  | .ok (), .ok () => .isTrue rfl
  | .ok _, .error _ => .isFalse nofun
  | .error _, .ok _ => .isFalse nofun
  | .error e, .error e' => decidable_of_iff (e = e') (by rw [Except.error.injEq])

/-- A call of `kv_create_or_validate`. -/
structure Validation where
  key     : Bytes
  value   : Bytes
  leaseId : Option LeaseId
  result  : Option (Except Bytes Unit) := none
  -- what has happened
  /-- The values that the key has had since the call began, one for every moment. -/
  moments : List (Option Bytes)
  /-- The call has created the key. -/
  created : Bool := false
  deriving DecidableEq

/-- A call that has not returned sees another moment. -/
def Validation.observe (s : Store) (c : Validation) : Validation :=
  if c.result.isNone then { c with moments := c.moments ++ [s.valueOf c.key] } else c

/-- The store and the calls of `kv_create_or_validate` on it, in the order in which they
    began. -/
structure Validations where
  store : Store := {}
  count : Nat := 0
  calls : Nat → Option Validation := fun _ => none

inductive StoreAction where
  /-- The two sections of a call of `kv_create_or_validate`. -/
  | validate (call : Nat)
  | create (call : Nat)
  | kvCreate (key value : Bytes) (leaseId : Option LeaseId)
  | kvPut (key value : Bytes) (leaseId : Option LeaseId)
  | makeLease
  | revokeLease (leaseId : LeaseId)
  deriving DecidableEq

inductive StoreCall where
  | kvCreateOrValidate (key value : Bytes) (leaseId : Option LeaseId)
  | kvCreate (key value : Bytes) (leaseId : Option LeaseId)
  | kvPut (key value : Bytes) (leaseId : Option LeaseId)
  | createLease
  | revoke (leaseId : LeaseId)

namespace Validations

def start (w : Validations) : StoreCall → Validations × List StoreAction
  | .kvCreateOrValidate key value leaseId =>
    ({ w with
        count := w.count + 1
        calls := Function.update w.calls w.count
          (some { key, value, leaseId, moments := [w.store.valueOf key] }) },
      [.validate w.count])
  | .kvCreate key value leaseId => (w, [.kvCreate key value leaseId])
  | .kvPut key value leaseId => (w, [.kvPut key value leaseId])
  | .createLease => (w, [.makeLease])
  | .revoke leaseId => (w, [.revokeLease leaseId])

/-- A section has left the store in this state. -/
def advance (w : Validations) (s : Store) : Validations :=
  { w with store := s, calls := fun n => (w.calls n).map (·.observe s) }

def finish (w : Validations) (n : Nat) (result : Except Bytes Unit) (created : Bool) :
    Validations :=
  { w with
    calls := Function.update w.calls n
      ((w.calls n).map fun c => { c with result := some result, created }) }

/-- There are no watchers here, so the outcome of sends does not matter. -/
def act (w : Validations) : StoreAction → Validations × List StoreAction
  | .validate n =>
    match w.calls n with
    | none => (w, [])
    | some c =>
      match validate w.store c.key c.value with
      | some result => ((w.finish n result false).advance w.store, [])
      -- the mutex is released before `kv_create` takes it
      | none => (w.advance w.store, [.create n])
  | .create n =>
    match w.calls n with
    | none => (w, [])
    | some c =>
      let o := InProcess.kvCreate (fun _ => true) w.store c.key c.value c.leaseId
      ((w.finish n o.result o.result.isOk).advance o.store, [])
  | .kvCreate key value leaseId =>
    (w.advance (Section.run (fun _ => true) w.store (.kvCreate key value leaseId)).1, [])
  | .kvPut key value leaseId =>
    (w.advance (Section.run (fun _ => true) w.store (.kvPut key value leaseId)).1, [])
  | .makeLease => (w.advance (Section.run (fun _ => true) w.store .makeLease).1, [])
  | .revokeLease leaseId =>
    (w.advance (Section.run (fun _ => true) w.store (.revokeLease leaseId)).1, [])

end Validations

def validations : Program Validations StoreCall StoreAction where
  init := {}
  start := Validations.start
  act := Validations.act

/-! ## Linearization points -/

namespace Validation

/-- At some moment the result was right: the call succeeds exactly if the key was absent,
    and then the call has created it, or had the value of the call. -/
def Linearizable (c : Validation) : Prop :=
  ∃ x ∈ c.moments, (c.result = some (.ok ()) ↔ x = none ∨ x = some c.value) ∧
    (x = none → c.created = true)

/-- How a call can end whose `kv_create` does not find the key, and what it has seen. -/
inductive Settled (c : Validation) : Except Bytes Unit → Prop where
  | validated : some c.value ∈ c.moments → Settled c (.ok ())
  | created : none ∈ c.moments → c.created = true → Settled c (.ok ())
  | differs {v : Bytes} : some v ∈ c.moments → v ≠ c.value →
      Settled c (.error (str "kv_create_or_validate: existing value differs for " ++ c.key))
  | lease : Settled c (.error (str "kv_create: unknown or expired lease"))

variable {c : Validation} {r : Except Bytes Unit}

/-- The call is right at the moment of the section in which it returns. -/
theorem Settled.linearizable (h : Settled c r) (hr : c.result = some r)
    (hlease : r ≠ .error (str "kv_create: unknown or expired lease")) : c.Linearizable := by
  unfold Linearizable
  rw [hr]
  cases h with
  | validated hmem => exact ⟨_, hmem, by simp, by simp⟩
  | created hmem hcreated => exact ⟨_, hmem, by simp, fun _ => hcreated⟩
  | differs hmem hne => exact ⟨_, hmem, by simp [hne], by simp⟩
  | lease => exact absurd rfl hlease

theorem observe_running (s : Store) (h : c.result = none) :
    c.observe s = { c with moments := c.moments ++ [s.valueOf c.key] } := by
  rw [observe, h]
  rfl

theorem observe_finished (s : Store)
    (h : c.result = some r) : c.observe s = c := by
  rw [observe, h]
  rfl

theorem result_observe (s : Store) (c : Validation) : (c.observe s).result = c.result := by
  unfold observe
  split <;> rfl

end Validation

/-! ## The invariant -/

namespace Validations

/-- The call has not returned. -/
def running (w : Validations) (n : Nat) : Bool := (w.calls n).any (·.result.isNone)

/-- The `kv_create` of a call does not find the key that its lookup has not found. -/
def Undisturbed (w : Validations) (_ : Multiset StoreAction) : StoreAction → Prop
  | .create n => ∀ c ∈ w.calls n, w.store.kvs.contains c.key = false
  | _ => True

instance (w : Validations) (m : Multiset StoreAction) (a : StoreAction) :
    Decidable (Undisturbed w m a) := by
  unfold Undisturbed
  split <;> infer_instance

/-- Every call that runs has seen the present moment and has one section to come; every
    other call has ended in one of the ways there are. -/
structure Observed (w : Validations) (m : Multiset StoreAction) : Prop where
  fresh   : ∀ n, w.count ≤ n → w.calls n = none
  pending : ∀ n, m.count (.validate n) + m.count (.create n) = (w.running n).toNat
  current : ∀ n c, w.calls n = some c → c.result = none → w.store.valueOf c.key ∈ c.moments
  settled : ∀ n c r, w.calls n = some c → c.result = some r → c.Settled r

theorem observed_init : Observed {} 0 where
  fresh := fun _ _ => rfl
  pending := fun _ => rfl
  current := fun _ _ h => by cases h
  settled := fun _ _ _ h => by cases h

theorem running_advance (w : Validations) (s : Store) (n : Nat) :
    (w.advance s).running n = w.running n := by
  unfold running advance
  dsimp only
  cases w.calls n with
  | none => rfl
  | some c =>
    show (c.observe s).result.isNone = c.result.isNone
    rw [Validation.result_observe]

namespace Observed

variable {w : Validations} {m : Multiset StoreAction}

/-- The running calls see the new moment. -/
theorem advance {m' : Multiset StoreAction} (h : Observed w m) (s : Store)
    (hpending : ∀ n, m'.count (.validate n) + m'.count (.create n) =
      m.count (.validate n) + m.count (.create n)) : Observed (w.advance s) m' where
  fresh := fun n hn => by
    show (w.calls n).map _ = none
    rw [h.fresh n hn]
    rfl
  pending := fun n => by
    rw [hpending, running_advance]
    exact h.pending n
  current := fun n c hc hrunning => by
    obtain ⟨c', hc', rfl⟩ := Option.map_eq_some_iff.mp hc
    rw [Validation.result_observe] at hrunning
    rw [Validation.observe_running s hrunning]
    exact List.mem_append_right _ List.mem_cons_self
  settled := fun n c r hc hr => by
    obtain ⟨c', hc', rfl⟩ := Option.map_eq_some_iff.mp hc
    rw [Validation.result_observe] at hr
    rw [Validation.observe_finished s hr]
    exact h.settled n c' r hc' hr

variable {n : Nat} {a : StoreAction}

/-- A call returns. -/
theorem finish {m' : Multiset StoreAction} (h : Observed w m) {c : Validation}
    {r : Except Bytes Unit} {created : Bool} (hc : w.calls n = some c)
    (hpending : ∀ i, m'.count (.validate i) + m'.count (.create i) =
      if i = n then 0 else m.count (.validate i) + m.count (.create i))
    (hsettled : Validation.Settled { c with result := some r, created } r) :
    Observed (w.finish n r created) m' := by
  have hfinished : (w.finish n r created).calls =
      Function.update w.calls n (some { c with result := some r, created }) := by
    unfold Validations.finish
    rw [hc]
    rfl
  refine ⟨fun i hi => ?_, fun i => ?_, fun i c' hc' hrunning => ?_, fun i c' r' hc' hr' => ?_⟩
  · have hne : i ≠ n := by
      rintro rfl
      rw [h.fresh i hi] at hc
      cases hc
    rw [hfinished, Function.update_of_ne hne]
    exact h.fresh i hi
  · rw [hpending, running, hfinished]
    split
    · next hin =>
      rw [hin, Function.update_self]
      rfl
    · next hin =>
      rw [Function.update_of_ne hin]
      exact h.pending i
  · rw [hfinished, Function.update_apply] at hc'
    split at hc'
    · cases hc'
      cases hrunning
    · exact h.current i c' hc' hrunning
  · rw [hfinished, Function.update_apply] at hc'
    split at hc'
    · cases hc'
      cases hr'
      exact hsettled
    · exact h.settled i c' r' hc' hr'

theorem begin (h : Observed w m) (hvalidate : ∀ n, a ≠ .validate n)
    (hcreate : ∀ n, a ≠ .create n) : Observed w (m + [a]) where
  fresh := h.fresh
  pending := fun n => by
    have hzero : [a].count (.validate n) = 0 :=
      List.count_eq_zero.mpr (by simpa using (hvalidate n).symm)
    have hzero' : [a].count (.create n) = 0 :=
      List.count_eq_zero.mpr (by simpa using (hcreate n).symm)
    rw [Multiset.count_add, Multiset.count_add, Multiset.coe_count, Multiset.coe_count, hzero,
      hzero']
    exact h.pending n
  current := h.current
  settled := h.settled

theorem start (h : Observed w m) (call : StoreCall) :
    Observed (w.start call).1 (m + (w.start call).2) := by
  cases call with
  | kvCreateOrValidate key value leaseId =>
    have hnone := h.fresh w.count (Nat.le_refl _)
    have hidle := h.pending w.count
    rw [running, hnone] at hidle
    refine ⟨fun n hn => ?_, fun n => ?_, fun n c hc hrunning => ?_, fun n c r hc hr => ?_⟩
    · have hne : n ≠ w.count := Nat.ne_of_gt hn
      show Function.update w.calls w.count _ n = none
      rw [Function.update_of_ne hne]
      exact h.fresh n (Nat.le_of_succ_le hn)
    · by_cases hn : n = w.count
      · subst hn
        simp [Validations.start, running] at hidle ⊢
        simp [hidle]
      · have hpending := h.pending n
        simp [Validations.start, running, hn] at hpending ⊢
        exact hpending
    · have hc : Function.update w.calls w.count _ n = some c := hc
      rw [Function.update_apply] at hc
      split at hc
      · cases hc
        exact List.mem_cons_self
      · exact h.current n c hc hrunning
    · have hc : Function.update w.calls w.count _ n = some c := hc
      rw [Function.update_apply] at hc
      split at hc
      · cases hc
        cases hr
      · exact h.settled n c r hc hr
  | kvCreate | kvPut | createLease | revoke => exact h.begin (fun _ => by simp) (fun _ => by simp)

/-- A call with a section to come has not returned, and has no other section to come. -/
theorem running_call (h : Observed w (a ::ₘ m))
    (ha : a = .validate n ∨ a = .create n) :
    ∃ c, w.calls n = some c ∧ c.result = none ∧
      m.count (.validate n) + m.count (.create n) = 0 := by
  have hpending := h.pending n
  have hone := Bool.toNat_le (w.running n)
  have hcount : (a ::ₘ m).count (.validate n) + (a ::ₘ m).count (.create n) =
      m.count (.validate n) + m.count (.create n) + 1 := by
    rcases ha with rfl | rfl
    all_goals
      rw [Multiset.count_cons_self, Multiset.count_cons_of_ne (by simp)]
      omega
  have hrunning : w.running n = true := by
    cases hrunning : w.running n with
    | true => rfl
    | false =>
      rw [hrunning, Bool.toNat_false] at hpending
      omega
  unfold running at hrunning
  cases hcall : w.calls n with
  | none =>
    rw [hcall] at hrunning
    cases hrunning
  | some c =>
    rw [hcall] at hrunning
    exact ⟨c, rfl, Option.isNone_iff_eq_none.mp hrunning, by omega⟩

/-- What is left when the call has returned. -/
theorem pending_after (ha : a = .validate n ∨ a = .create n)
    (hzero : m.count (.validate n) + m.count (.create n) = 0) (i : Nat) :
    m.count (.validate i) + m.count (.create i) =
      if i = n then 0 else (a ::ₘ m).count (.validate i) + (a ::ₘ m).count (.create i) := by
  split
  · next hin => rw [hin, hzero]
  · next hin =>
    rcases ha with rfl | rfl
    · rw [Multiset.count_cons_of_ne (by simpa using hin), Multiset.count_cons_of_ne (by simp)]
    · rw [Multiset.count_cons_of_ne (by simp), Multiset.count_cons_of_ne (by simpa using hin)]

theorem validate (h : Observed w (.validate n ::ₘ m)) :
    Observed (w.act (.validate n)).1 (m + (w.act (.validate n)).2) := by
  obtain ⟨c, hc, hrunning, hzero⟩ := h.running_call (.inl rfl)
  have hcurrent := h.current n c hc hrunning
  unfold act
  dsimp only
  rw [hc]
  dsimp only
  unfold InProcess.validate
  cases hkey : w.store.kvs[c.key]? with
  | none =>
    refine h.advance w.store fun i => ?_
    simp only [Multiset.count_add, Multiset.coe_count, Multiset.count_cons, List.count_singleton]
    by_cases hi : i = n
    · simp [hi]
      omega
    · simp [hi, Ne.symm hi]
  | some existing =>
    have hvalue : w.store.valueOf c.key = some existing.value := by
      rw [Store.valueOf, hkey]
      rfl
    rw [hvalue] at hcurrent
    dsimp only
    rw [Multiset.coe_nil, Multiset.add_zero]
    refine (h.finish hc (pending_after (.inl rfl) hzero) ?_).advance w.store fun _ => rfl
    split
    · next hsame => exact .validated (hsame ▸ hcurrent)
    · next hother => exact .differs hcurrent hother

theorem create (h : Observed w (.create n ::ₘ m))
    (habsent : Undisturbed w (.create n ::ₘ m) (.create n)) :
    Observed (w.act (.create n)).1 (m + (w.act (.create n)).2) := by
  obtain ⟨c, hc, hrunning, hzero⟩ := h.running_call (.inr rfl)
  have habsent := habsent c hc
  have hcurrent := h.current n c hc hrunning
  unfold act
  dsimp only
  rw [hc]
  dsimp only
  rw [Multiset.coe_nil, Multiset.add_zero]
  refine (h.finish hc (pending_after (.inr rfl) hzero) ?_).advance _ fun _ => rfl
  cases hunknown : w.store.leaseUnknown (c.leaseId.getD 0) with
  | true =>
    rw [kvCreate_unknown _ c.value habsent hunknown]
    exact .lease
  | false =>
    have hvalue : w.store.valueOf c.key = none := by
      rw [Store.valueOf, Std.ExtTreeMap.getElem?_eq_none_of_contains_eq_false habsent]
      rfl
    rw [hvalue] at hcurrent
    rw [kvCreate_known _ c.value habsent hunknown]
    exact .created hcurrent rfl

/-- The other operations. -/
theorem locked (h : Observed w (a ::ₘ m)) (hvalidate : ∀ n, a ≠ .validate n)
    (hcreate : ∀ n, a ≠ .create n) (s : Store) :
    Observed (w.advance s) (m + ([] : List StoreAction)) := by
  refine h.advance s fun n => ?_
  rw [Multiset.coe_nil, Multiset.add_zero]
  rw [Multiset.count_cons_of_ne (hvalidate n).symm, Multiset.count_cons_of_ne (hcreate n).symm]

theorem act (h : Observed w (a ::ₘ m)) (hok : Undisturbed w (a ::ₘ m) a) :
    Observed (w.act a).1 (m + (w.act a).2) := by
  cases a with
  | validate n => exact h.validate
  | create n => exact h.create hok
  | kvCreate | kvPut | revokeLease =>
    exact h.locked (fun _ => by simp) (fun _ => by simp) _
  | makeLease => exact h.locked (fun _ => by simp) (fun _ => by simp) _

end Observed

/-! ## The contract -/

/-- All calls that have returned are linearizable, those apart that failed for their lease. -/
def AllLinearizable (w : Validations) : Prop :=
  ∀ n c r, w.calls n = some c → c.result = some r →
    r ≠ .error (str "kv_create: unknown or expired lease") → c.Linearizable

/-- In every interleaving in which no `kv_create` section of a call finds the key, which
    another section has then created since the lookup, the calls that have returned are
    linearizable. -/
theorem create_or_validate_linearizable {w : Interleaving Validations StoreAction}
    (hw : (validations.system.guarded (Program.Meets Undisturbed)).Reachable w) :
    AllLinearizable w.shared := by
  have hobserved : Observed w.shared w.pending :=
    Program.guarded_invariant observed_init (fun _ _ call h => h.start call)
      (fun _ _ _ h hok => h.act hok) hw
  exact fun n c r hc hr hlease => (hobserved.settled n c r hc hr).linearizable hr hlease

/-- Two calls with one key that overlap: the second looks the key up when the first has
    created it. -/
theorem second_call_validates :
    ∃ w, validations.system.run
        [.call (.kvCreateOrValidate (str "k") (str "v") none),
          .call (.kvCreateOrValidate (str "k") (str "v") none), .act 0, .act 0, .act 1] =
        some w ∧
      (∃ c, w.shared.calls 0 = some c ∧ c.result = some (.ok ()) ∧ c.created = true) ∧
      (∃ c, w.shared.calls 1 = some c ∧ c.result = some (.ok ()) ∧ c.created = false) ∧
      AllLinearizable w.shared := by
  refine System.exists_run
    (fun w => ((w.shared.calls 0).map fun c => (c.result, c.created),
      (w.shared.calls 1).map fun c => (c.result, c.created)))
    (some (some (.ok ()), true), some (some (.ok ()), false)) (by decide +kernel)
    fun w hrun hfacts => ?_
  simp only [Prod.mk.injEq, Option.map_eq_some_iff] at hfacts
  exact ⟨hfacts.1, hfacts.2, create_or_validate_linearizable
    (.of_run (System.guarded_of_run hrun (by decide +kernel)))⟩

/-- Two calls with one key and one value, and no other: both find the key absent, and the
    second `kv_create` fails. -/
theorem concurrent_call_fails :
    ∃ w, validations.system.run
        [.call (.kvCreateOrValidate (str "k") (str "v") none),
          .call (.kvCreateOrValidate (str "k") (str "v") none),
          .act 0, .act 1, .act 0, .act 1] = some w ∧
      w.Idle ∧
      w.shared.calls 1 = some
        { key := str "k", value := str "v", leaseId := none,
          moments := [none, none, none, some (str "v")],
          result := some (.error (str "kv_create: key already exists: k")) } ∧
      ¬ AllLinearizable w.shared := by
  refine System.exists_run (fun w => (w.threads, w.shared.calls 1))
    ([[], []], some
      { key := str "k", value := str "v", leaseId := none,
        moments := [none, none, none, some (str "v")],
        result := some (.error (str "kv_create: key already exists: k")) })
    (by decide +kernel) fun w hrun hfacts => ?_
  simp only [Prod.mk.injEq] at hfacts
  obtain ⟨hthreads, hc⟩ := hfacts
  refine ⟨?_, hc, fun hall => ?_⟩
  · simp [Interleaving.Idle, hthreads]
  -- at every moment the key was absent or had the value: a call that is right succeeds
  obtain ⟨x, hx, hright, _⟩ := hall 1 _ _ hc rfl (by decide)
  have hvalid : x = none ∨ x = some (str "v") := by simpa using hx
  cases hright.mpr hvalid

end Validations

end DynamoCpp.Discovery.InProcess
