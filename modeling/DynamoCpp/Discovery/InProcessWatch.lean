import DynamoCpp.Discovery.Locked

/-! # In-process watches

    `kv_get_and_watch_prefix` takes the snapshot and registers the watcher under one lock,
    and every later mutation is sent to the watchers of its key before the lock is
    released.  A receiver may be closed at any moment, also while a section is running: a
    send to it fails from then on.
-/

namespace DynamoCpp.Discovery.InProcess

open Framework

/-! ## The model -/

/-- The puts of the snapshot, and the store with the watcher. -/
def kvGetAndWatchPrefix (s : Store) (pre : Bytes) (sink : Nat) : Store × List WatchEvent :=
  ({ s with watchers := s.watchers ++ [⟨pre, sink⟩] },
    (kvGetPrefix s pre).map fun kv => ⟨.put, kv⟩)

/-- The store and the channels of its watchers, which are numbered. -/
structure WatchedStore where
  store     : Store := {}
  channels  : Nat := 0
  isOpen    : Nat → Bool := fun _ => false
  -- what has happened
  /-- All mutations of the key map. -/
  mutations : List WatchEvent := []
  /-- The events that a channel has accepted. -/
  received  : Nat → List WatchEvent := fun _ => []
  /-- The watched prefix, the puts of the snapshot, and how many mutations came before. -/
  pre       : Nat → Bytes := fun _ => []
  snapshot  : Nat → List WatchEvent := fun _ => []
  since     : Nat → Nat := fun _ => 0

inductive WatchStep where
  /-- A section runs; these receivers are closed meanwhile. -/
  | locked (op : Section) (net : Nat → Bool) (closing : List Nat)
  | watch (pre : Bytes)
  | close (sink : Nat)

namespace WatchedStore

/-- A send succeeds on an open channel, and fails only if the channel is closed then. -/
def admissible (before after : Nat → Bool) (s : Sent) : Bool :=
  if s.ok then before s.sink else !after s.sink

def locked (w : WatchedStore) (op : Section) (net : Nat → Bool) (closing : List Nat) :
    Option WatchedStore :=
  let r := op.run net w.store
  let isOpen := fun c => w.isOpen c && !closing.contains c
  if r.2.all (admissible w.isOpen isOpen) then
    some
      { w with
        store := r.1
        isOpen := isOpen
        mutations := w.mutations ++ op.mutations w.store
        received := fun c => w.received c ++ sentTo (r.2.filter (·.ok)) c }
  else none

def watch (w : WatchedStore) (pre : Bytes) : WatchedStore :=
  let r := kvGetAndWatchPrefix w.store pre w.channels
  { w with
    store := r.1
    channels := w.channels + 1
    isOpen := Function.update w.isOpen w.channels true
    received := Function.update w.received w.channels r.2
    pre := Function.update w.pre w.channels pre
    snapshot := Function.update w.snapshot w.channels r.2
    since := Function.update w.since w.channels w.mutations.length }

end WatchedStore

def watchedStore : System WatchedStore WatchStep where
  init := {}
  exec := fun w step =>
    match step with
    | .locked op net closing => w.locked op net closing
    | .watch pre => some (w.watch pre)
    | .close sink => some { w with isOpen := Function.update w.isOpen sink false }

/-! ## Snapshots -/

/-- The entries under a prefix. -/
def under (pre : Bytes) (σ : Bytes → Option KeyValue) : Bytes → Option KeyValue :=
  fun k => if pre <+: k then σ k else none

theorem mem_kvGetPrefix {s : Store} (hkeyed : Keyed s.kvs) (pre : Bytes) (kv : KeyValue) :
    kv ∈ kvGetPrefix s pre ↔ s.kvs[kv.key]? = some kv ∧ pre <+: kv.key := by
  have hscan := OrdMap.mem_scanFrom s.kvs (prefix_rangeFrom pre)
  rw [kvGetPrefix, List.mem_map]
  constructor
  · rintro ⟨⟨k, kv'⟩, hkv, rfl⟩
    obtain ⟨hget, hpre⟩ := (hscan k kv').mp hkv
    rw [hkeyed k kv' hget]
    exact ⟨hget, of_decide_eq_true hpre⟩
  · rintro ⟨hget, hpre⟩
    exact ⟨(kv.key, kv), (hscan kv.key kv).mpr ⟨hget, decide_eq_true hpre⟩, rfl⟩

/-- The snapshot folds to the entries under the prefix. -/
theorem folded_snapshot {s : Store} (hkeyed : Keyed s.kvs) (pre : Bytes) :
    folded ((kvGetPrefix s pre).map fun kv => ⟨.put, kv⟩) = under pre fun k => s.kvs[k]? := by
  funext k
  rw [folded, List.map_map]
  refine EventLog.replay_of_images _ _ (fun e he hk => ?_) ?_
  · obtain ⟨kv, hkv, rfl⟩ := List.mem_map.mp he
    obtain ⟨hget, hpre⟩ := (mem_kvGetPrefix hkeyed pre kv).mp hkv
    have hk : kv.key = k := hk
    rw [hk] at hget hpre
    rw [under, if_pos hpre, hget]
    rfl
  · rw [under]
    split
    · next hpre =>
      cases hget : s.kvs[k]? with
      | none => exact .inl rfl
      | some kv =>
        have hk := hkeyed k kv hget
        have hkv := (mem_kvGetPrefix hkeyed pre kv).mpr (by rw [hk]; exact ⟨hget, hpre⟩)
        exact .inr ⟨_, List.mem_map.mpr ⟨kv, hkv, rfl⟩, hk⟩
    · exact .inl rfl

/-! ## Following the store -/

/-- An open channel has got the snapshot and then the mutations of its prefix, and they
    fold to what the store holds. -/
structure Followed (w : WatchedStore) (c : Nat) : Prop where
  watched  : ⟨w.pre c, c⟩ ∈ w.store.watchers
  started  : w.since c ≤ w.mutations.length
  received : w.received c = w.snapshot c ++
    (w.mutations.drop (w.since c)).filter fun e => decide (w.pre c <+: e.kv.key)
  current  : folded (w.received c) = under (w.pre c) fun k => w.store.kvs[k]?

structure Following (w : WatchedStore) : Prop where
  keyed    : Keyed w.store.kvs
  logged   : (fun k => w.store.kvs[k]?) = folded w.mutations
  distinct : (w.store.watchers.map (·.sink)).Nodup
  known    : ∀ x ∈ w.store.watchers, x.sink < w.channels
  followed : ∀ c, c < w.channels → w.isOpen c = true → Followed w c

theorem following_init : Following {} where
  keyed := fun k kv h => by simp at h
  logged := by
    funext k
    simp [folded]
  distinct := List.nodup_nil
  known := fun _ h => by cases h
  followed := fun _ h => absurd h (Nat.not_lt_zero _)

theorem Following.close {w : WatchedStore} (h : Following w) (sink : Nat) :
    Following { w with isOpen := Function.update w.isOpen sink false } where
  keyed := h.keyed
  logged := h.logged
  distinct := h.distinct
  known := h.known
  followed := fun c hc hopen => by
    simp only [Function.update_apply] at hopen
    split at hopen
    · cases hopen
    · obtain ⟨hwatched, hstarted, hreceived, hcurrent⟩ := h.followed c hc hopen
      exact ⟨hwatched, hstarted, hreceived, hcurrent⟩

theorem Following.watch {w : WatchedStore} (h : Following w) (pre : Bytes) :
    Following (w.watch pre) where
  keyed := h.keyed
  logged := h.logged
  distinct := by
    show ((w.store.watchers ++ [(⟨pre, w.channels⟩ : Watcher)]).map Watcher.sink).Nodup
    rw [List.map_append, List.nodup_append]
    refine ⟨h.distinct, List.nodup_singleton _, ?_⟩
    intro a ha b hb
    obtain ⟨x, hx, rfl⟩ := List.mem_map.mp ha
    rw [List.mem_singleton.mp hb]
    exact Nat.ne_of_lt (h.known x hx)
  known := fun x hx => by
    rcases List.mem_append.mp hx with hx | hx
    · exact Nat.lt_succ_of_lt (h.known x hx)
    · rw [List.mem_singleton.mp hx]
      exact Nat.lt_succ_self _
  followed := fun c hc hopen => by
    by_cases hnew : c = w.channels
    · -- the new watcher: the snapshot is all it has got
      subst hnew
      refine ⟨?_, ?_, ?_, ?_⟩
      · simp only [WatchedStore.watch, Function.update_self]
        exact List.mem_append_right _ List.mem_cons_self
      · simp only [WatchedStore.watch, Function.update_self, Nat.le_refl]
      · simp only [WatchedStore.watch, Function.update_self, List.drop_length, List.filter_nil,
          List.append_nil]
      · simp only [WatchedStore.watch, Function.update_self]
        exact folded_snapshot h.keyed pre
    · have hold : c < w.channels := by
        have hc : c < w.channels + 1 := hc
        omega
      simp only [WatchedStore.watch, Function.update_of_ne hnew] at hopen
      obtain ⟨hwatched, hstarted, hreceived, hcurrent⟩ := h.followed c hold hopen
      refine ⟨?_, ?_, ?_, ?_⟩ <;> simp only [WatchedStore.watch, Function.update_of_ne hnew]
      · exact List.mem_append_left _ hwatched
      · exact hstarted
      · exact hreceived
      · exact hcurrent

/-- All that was sent to a channel was accepted. -/
theorem sentTo_accepted {sent : List Sent} {c : Nat}
    (hok : ∀ s ∈ sent, s.sink = c → s.ok = true) :
    sentTo (sent.filter (·.ok)) c = sentTo sent c := by
  rw [sentTo, sentTo, List.filter_filter]
  congr 1
  refine List.filter_congr fun s hs => ?_
  by_cases hsink : s.sink = c
  · simp [hok s hs hsink]
  · simp [hsink]

/-- The mutations under a prefix take the entries under it along. -/
theorem replay_under (pre : Bytes) (σ : Bytes → Option KeyValue) (events : List WatchEvent) :
    EventLog.replay (under pre σ)
        ((events.filter fun e => decide (pre <+: e.kv.key)).map WatchEvent.change) =
      under pre (EventLog.replay σ (events.map WatchEvent.change)) := by
  have hfilter : (events.filter fun e => decide (pre <+: e.kv.key)).map WatchEvent.change =
      (events.map WatchEvent.change).filter fun e => decide (pre <+: e.key) := by
    rw [List.filter_map]
    rfl
  rw [hfilter]
  exact EventLog.replay_restrict (fun k => pre <+: k) σ _

theorem Following.locked {w w' : WatchedStore} (h : Following w) {op : Section}
    {net : Nat → Bool} {closing : List Nat} (hexec : w.locked op net closing = some w') :
    Following w' := by
  obtain ⟨hall, rfl⟩ := enabled hexec
  obtain ⟨hkeyed, hkvs, hnotify⟩ := Section.run_spec net h.keyed op
  obtain ⟨new, hsent, hsub, hrest⟩ :=
    notifyAll_spec net (op.mutations w.store) w.store.watchers [] h.distinct
  rw [← hnotify] at hsent hsub hrest
  have hnew : (op.run net w.store).2 = new := hsent
  refine ⟨hkeyed, ?_, h.distinct.sublist (hsub.map _), fun x hx => h.known x (hsub.subset hx),
    fun c hc hopen => ?_⟩
  · show (fun k => (op.run net w.store).1.kvs[k]?) = _
    rw [hkvs, h.logged, folded_append]
  have hopen' := (Bool.and_eq_true_iff.mp hopen).1
  obtain ⟨hwatched, hstarted, hreceived, hcurrent⟩ := h.followed c hc hopen'
  -- the channel is still open, so every send to it has succeeded
  have hok : ∀ s ∈ new, s.sink = c → s.ok = true := by
    intro s hs hsink
    have hadmissible := List.all_eq_true.mp hall s (hnew ▸ hs)
    by_contra hfailed
    simp only [WatchedStore.admissible, hfailed, if_false, hsink] at hadmissible
    have hopen : (w.isOpen c && !closing.contains c) = true := hopen
    rw [hopen] at hadmissible
    cases hadmissible
  obtain ⟨hstays, hto⟩ := hrest ⟨w.pre c, c⟩ hwatched hok
  have hgot : w.received c ++ sentTo ((op.run net w.store).2.filter (·.ok)) c =
      w.received c ++
        (op.mutations w.store).filter fun e => decide (w.pre c <+: e.kv.key) := by
    rw [hnew, sentTo_accepted hok, hto]
  refine ⟨hstays, ?_, ?_, ?_⟩
  · show w.since c ≤ (w.mutations ++ op.mutations w.store).length
    rw [List.length_append]
    omega
  · show w.received c ++ _ = w.snapshot c ++
      ((w.mutations ++ op.mutations w.store).drop (w.since c)).filter _
    rw [hgot, hreceived, List.drop_append_of_le_length hstarted, List.filter_append,
      List.append_assoc]
  · show folded (w.received c ++ _) = under (w.pre c) fun k => (op.run net w.store).1.kvs[k]?
    rw [hgot, folded_append, hcurrent, hkvs, replay_under]

theorem Following.step {w w' : WatchedStore} (h : Following w) {step : WatchStep}
    (hexec : watchedStore.exec w step = some w') : Following w' := by
  cases step with
  | locked op net closing => exact h.locked hexec
  | watch pre =>
    cases hexec
    exact h.watch pre
  | close sink =>
    cases hexec
    exact h.close sink

theorem following_reachable {w : WatchedStore} (hw : watchedStore.Reachable w) : Following w :=
  hw.invariant following_init fun _ _ _ h hexec => h.step hexec

/-- Watches have no gaps and no duplicates: in every state between two sections, what an
    open watcher has been sent is the snapshot followed by every mutation under its prefix
    since then, once and in order, and it folds to the entries under the prefix.  The
    mutations are all that has happened to the key map. -/
theorem watch_follows_store {w : WatchedStore} (hw : watchedStore.Reachable w) :
    (∀ c, c < w.channels → w.isOpen c = true →
      (folded (w.received c) = fun k => if w.pre c <+: k then w.store.kvs[k]? else none) ∧
      w.received c = w.snapshot c ++
        (w.mutations.drop (w.since c)).filter fun e => decide (w.pre c <+: e.kv.key)) ∧
    (fun k => w.store.kvs[k]?) = folded w.mutations := by
  have h := following_reachable hw
  refine ⟨fun c hc hopen => ?_, h.logged⟩
  have hfollowed := h.followed c hc hopen
  exact ⟨hfollowed.current, hfollowed.received⟩

/-- A key is put before, two after the registration, one of them elsewhere, and a lease is
    revoked. -/
theorem watch_follows_revocation :
    ∃ w, watchedStore.run
        [.locked (.kvPut (str "w/a") (str "1") none) (fun _ => true) [], .watch (str "w/"),
          .locked .makeLease (fun _ => true) [],
          .locked (.kvCreate (str "w/b") (str "2") (some 1)) (fun _ => true) [],
          .locked (.kvPut (str "x") (str "3") none) (fun _ => true) [],
          .locked (.revokeLease 1) (fun _ => true) []] = some w ∧
      w.mutations.length = 4 ∧ (w.received 0).map (·.kind) = [.put, .put, .delete] ∧
      (folded (w.received 0) = fun k => if w.pre 0 <+: k then w.store.kvs[k]? else none) := by
  refine System.exists_run
    (fun w => (w.channels, w.isOpen 0, w.mutations.length, (w.received 0).map (·.kind)))
    (1, true, 4, [.put, .put, .delete]) (by decide +kernel) fun w hrun hfacts => ?_
  simp only [Prod.mk.injEq] at hfacts
  obtain ⟨hchannels, hopen, hmutations, hkinds⟩ := hfacts
  have hfollows := (watch_follows_store (.of_run hrun)).1 0 (by omega) hopen
  exact ⟨hmutations, hkinds, hfollows.1⟩

end DynamoCpp.Discovery.InProcess
