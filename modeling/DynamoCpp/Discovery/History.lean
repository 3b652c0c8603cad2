import DynamoCpp.Discovery.Server
import DynamoCpp.Framework.EventLog

/-! # The history behind the event log

    Every put and delete of a discoveryd process takes the next revision, so
    the process has a history of events numbered 1, 2, 3, ...  The bounded
    `event_log` is its newest part and the key map is its replay.  This is the
    abstract view of the store: `Framework.EventLog` over the history.
-/

namespace DynamoCpp.Discovery

open Framework

/-- A logged event as a change of the key map. -/
def LoggedEvent.change (e : LoggedEvent) : LogEvent Bytes Entry where
  key := e.key
  img := if e.isPut then some ⟨e.value, e.leaseId, e.rev⟩ else none

@[simp] theorem LoggedEvent.change_key (e : LoggedEvent) : e.change.key = e.key := rfl

@[simp] theorem LoggedEvent.change_img_isSome (e : LoggedEvent) :
    e.change.img.isSome = e.isPut := by
  cases h : e.isPut <;> simp [change, h]

/-- The history as changes of the key map. -/
def changes (h : List LoggedEvent) : List (LogEvent Bytes Entry) :=
  h.map LoggedEvent.change

@[simp] theorem changes_length (h : List LoggedEvent) : (changes h).length = h.length := by
  simp [changes]

@[simp] theorem changes_append (h h' : List LoggedEvent) :
    changes (h ++ h') = changes h ++ changes h' := by
  simp [changes]

theorem changes_getElem? (h : List LoggedEvent) (i : Nat) :
    (changes h)[i]? = (h[i]?).map LoggedEvent.change := by
  simp [changes]

/-- `h` is the history of the server in state `s`. -/
structure History (s : Server) (h : List LoggedEvent) : Prop where
  /-- The revision counter counts the events. -/
  revision : s.revision = h.length
  /-- The `i`-th event has revision `i + 1`. -/
  numbered : ∀ i e, h[i]? = some e → e.rev = i + 1
  /-- The log keeps the newest events. -/
  log : s.eventLog = h.drop (h.length - kEventLogCapacity)
  /-- The key map is the replay of the whole history. -/
  kvs : ∀ k, s.kvs[k]? = EventLog.stateAt (changes h) h.length k

theorem history_init : History {} [] where
  revision := rfl
  numbered := by simp
  log := rfl
  kvs := by intro k; simp

variable {s s₁ s₂ s' : Server} {h es : List LoggedEvent} {net : Net} {out out' : List Write}

theorem History.mem_kvs (hist : History s h) (k : Bytes) :
    k ∈ s.kvs ↔ (EventLog.stateAt (changes h) h.length k).isSome = true := by
  rw [Std.ExtTreeMap.mem_iff_isSome_getElem?, hist.kvs]

/-- The snapshot of a prefix holds the entries whose key is under it. -/
theorem mem_prefixEntries_iff {pre : Bytes} {kv : KeyValue} :
    kv ∈ prefixEntries s pre ↔ ∃ entry : Entry, s.kvs[kv.key]? = some entry ∧ pre <+: kv.key ∧
      kv = ⟨kv.key, entry.value, entry.leaseId, entry.modRevision⟩ := by
  have hscan := OrdMap.mem_scanFrom s.kvs (prefix_rangeFrom pre)
  constructor
  · intro hkv
    obtain ⟨⟨k, entry⟩, hmem, rfl⟩ := List.mem_map.mp hkv
    obtain ⟨hget, hpre⟩ := (hscan k entry).mp hmem
    exact ⟨entry, hget, of_decide_eq_true hpre, rfl⟩
  · rintro ⟨entry, hget, hpre, heq⟩
    have hmem := (hscan kv.key entry).mpr ⟨hget, decide_eq_true hpre⟩
    exact List.mem_map.mpr ⟨(kv.key, entry), hmem, heq.symm⟩

theorem mem_prefixEntries (s : Server) (pre k : Bytes) :
    (∃ kv ∈ prefixEntries s pre, kv.key = k) ↔ k ∈ s.kvs ∧ pre <+: k := by
  rw [Std.ExtTreeMap.mem_iff_isSome_getElem?, Option.isSome_iff_exists]
  constructor
  · rintro ⟨kv, hkv, rfl⟩
    obtain ⟨entry, hget, hpre, -⟩ := mem_prefixEntries_iff.mp hkv
    exact ⟨⟨entry, hget⟩, hpre⟩
  · rintro ⟨⟨entry, hget⟩, hpre⟩
    exact ⟨⟨k, entry.value, entry.leaseId, entry.modRevision⟩,
      mem_prefixEntries_iff.mpr ⟨entry, hget, hpre, rfl⟩, rfl⟩

/-- In a numbered list the elements above `r` are those from position `r` on. -/
theorem filter_rev_drop (hnum : ∀ i e, h[i]? = some e → e.rev = i + 1)
    {m r : Nat} (hmr : m ≤ r) (p : LoggedEvent → Bool) :
    (h.drop m).filter (fun e => decide (r < e.rev) && p e) = (h.drop r).filter p := by
  obtain ⟨d, rfl⟩ := Nat.exists_eq_add_of_le hmr
  -- the elements between positions `m` and `r` have a revision up to `r`
  have hlow : ((h.drop m).take d).filter (fun e => decide (m + d < e.rev) && p e) = [] := by
    refine List.filter_eq_nil_iff.mpr ?_
    intro e he
    obtain ⟨i, hi⟩ := List.mem_iff_getElem?.mp he
    rw [List.getElem?_take, List.getElem?_drop] at hi
    split at hi
    · have hrev := hnum _ e hi
      simp only [Bool.and_eq_true, decide_eq_true_eq]
      omega
    · cases hi
  -- from position `r` on the revision test is always met
  have hhigh : (h.drop (m + d)).filter (fun e => decide (m + d < e.rev) && p e) =
      (h.drop (m + d)).filter p := by
    refine List.filter_congr ?_
    intro e he
    obtain ⟨i, hi⟩ := List.mem_iff_getElem?.mp he
    rw [List.getElem?_drop] at hi
    have hrev := hnum _ e hi
    have hlt : m + d < e.rev := by omega
    simp [hlt]
  rw [← List.take_append_drop d (h.drop m), List.filter_append, hlow, List.drop_drop, hhigh,
    List.nil_append]

/-- If the log still covers everything after `r`, filtering it by revision
    gives the history after `r`. -/
theorem History.log_after (hist : History s h) {r : Nat}
    (hcan : canReplayFrom s r = true) (p : LoggedEvent → Bool) :
    s.eventLog.filter (fun e => decide (r < e.rev) && p e) = (h.drop r).filter p := by
  rw [hist.log]
  by_cases hr : h.length ≤ r
  · -- nothing was missed: both sides are empty
    rw [List.drop_eq_nil_of_le hr, List.filter_nil]
    refine List.filter_eq_nil_iff.mpr ?_
    intro e he
    obtain ⟨i, hi⟩ := List.mem_iff_getElem?.mp (List.mem_of_mem_drop he)
    have hrev := hist.numbered i e hi
    have hlen : i < h.length := (List.getElem?_eq_some_iff.mp hi).1
    simp only [Bool.and_eq_true, decide_eq_true_eq]
    omega
  · refine filter_rev_drop hist.numbered ?_ p
    -- the front of the log is at most one past `r`, so the log starts at or before `r`
    unfold canReplayFrom at hcan
    have hlt : ¬ ((r : Int) ≥ s.revision) := by
      rw [hist.revision]
      omega
    rw [if_neg hlt, hist.log, List.head?_drop] at hcan
    split at hcan
    · cases hcan
    · rename_i front hfront
      have hrev := hist.numbered _ front hfront
      have hle := of_decide_eq_true hcan
      omega

/-! ## Server states that agree on the store -/

/-- The two states agree on connections and on what is registered for them. -/
structure SameConns (s s' : Server) : Prop where
  subscribers : s'.subscribers = s.subscribers
  conns       : s'.conns = s.conns
  nextConnId  : s'.nextConnId = s.nextConnId

theorem SameConns.refl (s : Server) : SameConns s s := ⟨rfl, rfl, rfl⟩

theorem SameConns.trans {s₃ : Server} (h₁ : SameConns s₁ s₂) (h₂ : SameConns s₂ s₃) :
    SameConns s₁ s₃ :=
  ⟨h₂.subscribers.trans h₁.subscribers, h₂.conns.trans h₁.conns,
    h₂.nextConnId.trans h₁.nextConnId⟩

/-- The two states differ in leases and queue cursors at most. -/
structure SameStore (s s' : Server) : Prop extends SameConns s s' where
  kvs      : s'.kvs = s.kvs
  revision : s'.revision = s.revision
  eventLog : s'.eventLog = s.eventLog
  watchers : s'.watchers = s.watchers

theorem SameStore.refl (s : Server) : SameStore s s := ⟨.refl s, rfl, rfl, rfl, rfl⟩

theorem SameStore.trans {s₃ : Server} (h₁ : SameStore s₁ s₂) (h₂ : SameStore s₂ s₃) :
    SameStore s₁ s₃ :=
  ⟨h₁.toSameConns.trans h₂.toSameConns, h₂.kvs.trans h₁.kvs, h₂.revision.trans h₁.revision,
    h₂.eventLog.trans h₁.eventLog, h₂.watchers.trans h₁.watchers⟩

/-- The history depends on the keys, the revision and the log only. -/
theorem History.congr (hist : History s h)
    (hkvs : s'.kvs = s.kvs) (hrev : s'.revision = s.revision)
    (hlog : s'.eventLog = s.eventLog) : History s' h where
  revision := hrev.trans hist.revision
  numbered := hist.numbered
  log := hlog.trans hist.log
  kvs := fun k => by rw [hkvs]; exact hist.kvs k

theorem History.of_sameStore (hist : History s h)
    (same : SameStore s s') : History s' h :=
  hist.congr same.kvs same.revision same.eventLog

theorem sameStore_bindLease (s : Server) (key : Bytes) (leaseId : LeaseId) :
    SameStore s (bindLease s key leaseId) := by
  unfold bindLease
  split
  · exact .refl s
  · exact ⟨⟨rfl, rfl, rfl⟩, rfl, rfl, rfl, rfl⟩

theorem sameStore_unbindLeaseLocked (s : Server) (key : Bytes) (leaseId : LeaseId) :
    SameStore s (unbindLeaseLocked s key leaseId) := by
  unfold unbindLeaseLocked
  split
  · exact .refl s
  · split
    · exact .refl s
    · exact ⟨⟨rfl, rfl, rfl⟩, rfl, rfl, rfl, rfl⟩

/-! ## One mutation -/

/-- The event a mutation logs in state `s`. -/
def mutation (s : Server) (isPut : Bool) (key : Bytes) (leaseId : LeaseId) (value : Bytes) :
    LoggedEvent :=
  ⟨s.revision + 1, isPut, key, leaseId, value⟩

/-- The key map after an event. -/
def LoggedEvent.applyTo (e : LoggedEvent) (kvs : OrdMap Bytes Entry) : OrdMap Bytes Entry :=
  if e.isPut then kvs.insert e.key ⟨e.value, e.leaseId, e.rev⟩ else kvs.erase e.key

theorem LoggedEvent.applyTo_getElem? (e : LoggedEvent) (kvs : OrdMap Bytes Entry) (k : Bytes) :
    (e.applyTo kvs)[k]? = EventLog.apply (fun k => kvs[k]?) e.change k := by
  unfold applyTo EventLog.apply
  by_cases hk : k = e.key
  · subst hk
    cases hput : e.isPut <;> simp [change, hput]
  · cases hput : e.isPut
    · simp [hk, OrdMap.get_erase]
    · simp [hk, OrdMap.get_insert]

/-- What one mutation does: the event `e` is logged, applied to the key map and
    fanned out to the watchers. -/
structure Mutates (net : Net) (s : Server) (out : List Write) (e : LoggedEvent)
    (s' : Server) (out' : List Write) : Prop extends SameConns s s' where
  rev : e.rev = s.revision + 1
  kvs : s'.kvs = e.applyTo s.kvs
  revision : s'.revision = s.revision + 1
  eventLog : s'.eventLog =
    if (s.eventLog ++ [e]).length > kEventLogCapacity then (s.eventLog ++ [e]).tail
    else s.eventLog ++ [e]
  fanout : (s'.watchers, out') =
    notifyWatchers net (kindOf e.isPut) ⟨e.key, e.value, e.leaseId, e.rev⟩ s.watchers out

theorem storeKey_mutates (net : Net) (s : Server) (out : List Write) (key value : Bytes)
    (leaseId : LeaseId) :
    Mutates net s out (mutation s true key leaseId value)
      (storeKey net s out key value leaseId).1 (storeKey net s out key value leaseId).2 :=
  ⟨⟨rfl, rfl, rfl⟩, rfl, rfl, rfl, rfl, rfl⟩

theorem expireKey_mutates (net : Net) (s : Server) (out : List Write) (key : Bytes)
    (leaseId : LeaseId) {entry : Entry} (hkey : s.kvs[key]? = some entry) :
    Mutates net s out (mutation s false key leaseId entry.value)
      (expireKey net leaseId (s, out) key).1 (expireKey net leaseId (s, out) key).2 := by
  unfold expireKey
  simp only [hkey]
  exact ⟨⟨rfl, rfl, rfl⟩, rfl, rfl, rfl, rfl, rfl⟩

/-- Dropping the oldest event when the log is full keeps the newest ones. -/
theorem log_append {e : LoggedEvent} :
    (if (h.drop (h.length - kEventLogCapacity) ++ [e]).length > kEventLogCapacity
      then (h.drop (h.length - kEventLogCapacity) ++ [e]).tail
      else h.drop (h.length - kEventLogCapacity) ++ [e]) =
    (h ++ [e]).drop ((h ++ [e]).length - kEventLogCapacity) := by
  have hcap : 0 < kEventLogCapacity := by decide
  by_cases hfull : kEventLogCapacity ≤ h.length
  -- a full log: one event enters and the oldest one leaves
  · have hlen : (h.drop (h.length - kEventLogCapacity) ++ [e]).length > kEventLogCapacity := by
      simp only [List.length_append, List.length_drop, List.length_singleton]
      omega
    have hne : h.drop (h.length - kEventLogCapacity) ≠ [] := by
      intro hnil
      have := congrArg List.length hnil
      simp only [List.length_drop, List.length_nil] at this
      omega
    rw [if_pos hlen, List.tail_append_of_ne_nil hne, List.tail_drop]
    have hidx : (h ++ [e]).length - kEventLogCapacity = h.length - kEventLogCapacity + 1 := by
      simp only [List.length_append, List.length_singleton]
      omega
    rw [hidx, List.drop_append_of_le_length (by omega)]
  · have hlen : ¬ (h.drop (h.length - kEventLogCapacity) ++ [e]).length > kEventLogCapacity := by
      simp only [List.length_append, List.length_drop, List.length_singleton]
      omega
    rw [if_neg hlen]
    have h0 : h.length - kEventLogCapacity = 0 := by omega
    have h1 : (h ++ [e]).length - kEventLogCapacity = 0 := by
      simp only [List.length_append, List.length_singleton]
      omega
    rw [h0, h1, List.drop_zero, List.drop_zero]

/-- A mutation appends its event to the history. -/
theorem History.mutates {e : LoggedEvent} (hist : History s h) (hm : Mutates net s out e s' out') :
    History s' (h ++ [e]) where
  revision := by rw [hm.revision, hist.revision]; simp
  numbered := by
    intro i x hx
    rcases Nat.lt_trichotomy i h.length with hi | hi | hi
    · rw [List.getElem?_append_left hi] at hx
      exact hist.numbered i x hx
    · subst hi
      simp only [List.getElem?_concat_length, Option.some.injEq] at hx
      rw [← hx, hm.rev, hist.revision]
    · have hlen : (h ++ [e]).length ≤ i := by
        simp only [List.length_append, List.length_singleton]
        omega
      rw [List.getElem?_eq_none hlen] at hx
      cases hx
  log := by
    rw [hm.eventLog, hist.log]
    exact log_append
  kvs := by
    intro k
    have hlast : (changes (h ++ [e]))[h.length]? = some e.change := by
      rw [changes_getElem?, List.getElem?_concat_length]
      rfl
    rw [hm.kvs, LoggedEvent.applyTo_getElem?, List.length_append, List.length_singleton,
      EventLog.stateAt_succ hlast, changes_append,
      EventLog.stateAt_append (by simp)]
    have hσ : (fun k => s.kvs[k]?) = EventLog.stateAt (changes h) h.length := funext hist.kvs
    rw [hσ]

/-! ## Store operations as sequences of mutations -/

/-- `(s, out)` becomes `(s', out')` by logging the events `es`, with lease
    bookkeeping in between. -/
inductive Advances (net : Net) (s : Server) (out : List Write) :
    Server → List Write → List LoggedEvent → Prop where
  | same : ∀ {s'}, SameStore s s' → Advances net s out s' out []
  | step : ∀ {s₁ s₂ s₃ out₁ out₂ es e}, Advances net s out s₁ out₁ es →
      Mutates net s₁ out₁ e s₂ out₂ → SameStore s₂ s₃ →
      Advances net s out s₃ out₂ (es ++ [e])

theorem Advances.sameStore {out₁ : List Write} (h : Advances net s out s₁ out₁ es)
    (same : SameStore s₁ s₂) :
    Advances net s out s₂ out₁ es := by
  cases h with
  | same h₀ => exact .same (h₀.trans same)
  | step h hm hs => exact .step h hm (hs.trans same)

theorem Advances.sameConns (h : Advances net s out s' out' es) : SameConns s s' := by
  induction h with
  | same hs => exact hs.toSameConns
  | step _ hm hs ih => exact (ih.trans hm.toSameConns).trans hs.toSameConns

theorem History.advances (hist : History s h) (ha : Advances net s out s' out' es) :
    History s' (h ++ es) := by
  induction ha with
  | same hs => simpa using hist.of_sameStore hs
  | step _ hm hs ih =>
    have := (ih.mutates hm).of_sameStore hs
    simpa [List.append_assoc] using this

theorem advances_expireKeys (net : Net) (leaseId : LeaseId) (s : Server) (out : List Write) :
    ∀ (keys : List Bytes) (r : Server × List Write) (es : List LoggedEvent),
      Advances net s out r.1 r.2 es →
      ∃ es', Advances net s out (keys.foldl (expireKey net leaseId) r).1
        (keys.foldl (expireKey net leaseId) r).2 es'
  | [], r, es, h => ⟨es, h⟩
  | key :: keys, (s₁, out₁), es, h => by
    -- a key that is no longer stored is skipped and logs nothing
    cases hkey : s₁.kvs[key]? with
    | none =>
      have hskip : expireKey net leaseId (s₁, out₁) key = (s₁, out₁) := by
        simp [expireKey, hkey]
      rw [List.foldl_cons, hskip]
      exact advances_expireKeys net leaseId s out keys _ es h
    | some entry =>
      rw [List.foldl_cons]
      exact advances_expireKeys net leaseId s out keys _ _
        (.step h (expireKey_mutates net s₁ out₁ key leaseId hkey) (.refl _))

theorem expireLeaseLocked_advances (net : Net) (s : Server) (out : List Write)
    (leaseId : LeaseId) :
    ∃ es, Advances net s out (expireLeaseLocked net s out leaseId).1
      (expireLeaseLocked net s out leaseId).2 es := by
  unfold expireLeaseLocked
  split
  · exact ⟨[], .same (.refl s)⟩
  · rename_i record _
    obtain ⟨es, h⟩ := advances_expireKeys net leaseId s out record.keys (s, out) []
      (.same (.refl s))
    exact ⟨es, h.sameStore ⟨⟨rfl, rfl, rfl⟩, rfl, rfl, rfl, rfl⟩⟩

/-- Storing a key after lease bookkeeping. -/
theorem storeKey_advances (net : Net) (s s₁ : Server) (out : List Write) (key value : Bytes)
    (leaseId : LeaseId) (hs : SameStore s s₁) :
    ∃ es, Advances net s out (storeKey net s₁ out key value leaseId).1
      (storeKey net s₁ out key value leaseId).2 es :=
  ⟨_, .step (.same hs) (storeKey_mutates net s₁ out key value leaseId) (.refl _)⟩

/-- The requests that work on leases and keys. -/
def Request.isStoreOp : Request → Bool
  | .createLease _ => true
  | .keepalive _ => true
  | .revoke _ => true
  | .kvCreate .. => true
  | .kvPut .. => true
  | .kvCreateOrValidate .. => true
  | _ => false

/-- Every store operation, accepted or rejected, is a sequence of mutations. -/
theorem handleOp_advances (net : Net) (now : Int) (s : Server) (c : ConnId) (req : Nat)
    (r : Request) (hr : r.isStoreOp = true) :
    ∃ es, Advances net s [] (handleOp net now s c req r).server
      (handleOp net now s c req r).out es := by
  -- a rejected request logs nothing
  have hrefl : ∃ es, Advances net s [] s [] es := ⟨[], .same (.refl s)⟩
  cases r with
  | createLease ttl => exact ⟨[], .same ⟨⟨rfl, rfl, rfl⟩, rfl, rfl, rfl, rfl⟩⟩
  | keepalive leaseId =>
    simp only [handleOp, keepalive]
    split
    · exact hrefl
    · exact ⟨[], .same ⟨⟨rfl, rfl, rfl⟩, rfl, rfl, rfl, rfl⟩⟩
  | revoke leaseId => exact expireLeaseLocked_advances net s [] leaseId
  | kvCreate key value leaseId =>
    simp only [handleOp, kvCreate]
    split
    · exact hrefl
    · split
      · exact hrefl
      · exact storeKey_advances net s _ [] key value leaseId (sameStore_bindLease s key leaseId)
  | kvPut key value leaseId =>
    simp only [handleOp, kvPut]
    split
    · exact hrefl
    -- only the lease bookkeeping before the put depends on the old owner
    · refine storeKey_advances net s _ [] key value leaseId ?_
      split
      · split
        · exact (sameStore_unbindLeaseLocked s key _).trans (sameStore_bindLease _ key leaseId)
        · exact .refl s
      · exact sameStore_bindLease s key leaseId
  | kvCreateOrValidate key value leaseId =>
    simp only [handleOp, kvCreateOrValidate]
    split
    · split <;> exact hrefl
    · split
      · exact hrefl
      · exact storeKey_advances net s _ [] key value leaseId (sameStore_bindLease s key leaseId)
  | _ => cases hr

end DynamoCpp.Discovery
