import DynamoCpp.Discovery.Client
import DynamoCpp.Discovery.Process

/-! # One uninterrupted resync

    What a record holds after it asked for a watch and processed everything
    the server answered.  A snapshot replaces the live keys by the server's;
    a replay applies the logged events after `last_rev` to whatever the record
    already believed.  Against the process the record was built with that
    belief is right.  After a restart it need not be: the server compares a
    revision of another history with its own counter.
-/

namespace DynamoCpp.Discovery

open Framework EventLog

/-! ## Routing single frames -/

theorem routeFrames_append (record : WatchRecord) (fs gs : List Frame) :
    routeFrames record (fs ++ gs) =
      ((routeFrames (routeFrames record fs).1 gs).1,
        (routeFrames record fs).2 ++ (routeFrames (routeFrames record fs).1 gs).2) := by
  induction fs generalizing record with
  | nil => simp [routeFrames]
  | cons f fs ih => simp [routeFrames, ih]

section frame

variable (record : WatchRecord) (id : Nat) (e : LoggedEvent)

@[simp] theorem routeWatchFrame_frame_syncing :
    (routeWatchFrame record (e.frame id)).1.syncing = record.syncing := by
  unfold LoggedEvent.frame kindOf
  cases e.isPut <;> rfl

@[simp] theorem routeWatchFrame_frame_pre :
    (routeWatchFrame record (e.frame id)).1.pre = record.pre := by
  unfold LoggedEvent.frame kindOf
  cases e.isPut <;> rfl

@[simp] theorem routeWatchFrame_frame_lastRev :
    (routeWatchFrame record (e.frame id)).1.lastRev = max record.lastRev e.rev := by
  unfold LoggedEvent.frame kindOf
  cases e.isPut <;> rfl

/-- Routing a logged event follows it. -/
theorem mem_liveKeys_routeWatchFrame_frame (k : Bytes) :
    k ∈ (routeWatchFrame record (e.frame id)).1.liveKeys ↔
      follow (· ∈ record.liveKeys) e.change k := by
  unfold LoggedEvent.frame kindOf follow
  rw [LoggedEvent.change_key, LoggedEvent.change_img_isSome]
  have hne : k ≠ e.key → e.key ≠ k := fun hk h => hk h.symm
  cases e.isPut with
  | false =>
    show k ∈ record.liveKeys.erase e.key ↔ _
    by_cases hk : k = e.key
    · simp [hk]
    · simp [hk, hne hk]
  | true =>
    show k ∈ record.liveKeys.insert e.key ↔ _
    by_cases hk : k = e.key
    · simp [hk]
    · simp [hk, hne hk]

end frame

/-! ## Routing a replay -/

theorem mem_liveKeys_routeFrames_replay (id : Nat) (k : Bytes) :
    ∀ (es : List LoggedEvent) (record : WatchRecord),
      k ∈ (routeFrames record (es.map (·.frame id))).1.liveKeys ↔
        (changes es).foldl follow (· ∈ record.liveKeys) k
  | [], _ => Iff.rfl
  | e :: es, record => by
    have hstep : (· ∈ (routeWatchFrame record (e.frame id)).1.liveKeys) =
        follow (· ∈ record.liveKeys) e.change :=
      funext fun k => propext (mem_liveKeys_routeWatchFrame_frame record id e k)
    have ih := mem_liveKeys_routeFrames_replay id k es (routeWatchFrame record (e.frame id)).1
    rw [hstep] at ih
    exact ih

/-- The marker of a replay keeps the live keys. -/
theorem liveKeys_routeWatchFrame_replay (record : WatchRecord) (id rev : Nat) :
    (routeWatchFrame record (.sync id .replay rev)).1.liveKeys = record.liveKeys := by
  cases hsync : record.syncing <;> simp [routeWatchFrame, hsync]

/-! ## Routing a snapshot -/

theorem routeFrames_puts (id : Nat) : ∀ (kvs : List KeyValue) (record : WatchRecord),
    record.syncing = true →
      (routeFrames record (kvs.map (.watch id .put))).1.syncing = true ∧
        ∀ k, k ∈ (routeFrames record (kvs.map (.watch id .put))).1.syncKeys ↔
          k ∈ record.syncKeys ∨ ∃ kv ∈ kvs, kv.key = k
  | [], record, hsync => ⟨hsync, fun k => by simp [routeFrames]⟩
  | kv :: kvs, record, hsync => by
    obtain ⟨hsync', hkeys⟩ := routeFrames_puts id kvs
      (routeWatchFrame record (.watch id .put kv)).1 hsync
    refine ⟨hsync', fun k => (hkeys k).trans ?_⟩
    have hput : (routeWatchFrame record (.watch id .put kv)).1.syncKeys =
        record.syncKeys.insert kv.key := by
      simp [routeWatchFrame, hsync]
    rw [hput, OrdSet.mem_insert]
    simp only [List.mem_cons, exists_eq_or_imp]
    tauto

/-- The marker of a snapshot adopts the gathered keys. -/
theorem liveKeys_routeWatchFrame_snapshot (record : WatchRecord) (id rev : Nat)
    (hsync : record.syncing = true) :
    (routeWatchFrame record (.sync id .snapshot rev)).1.liveKeys = record.syncKeys := by
  simp [routeWatchFrame, hsync]

/-! ## A whole resync -/

/-- The record after `resubscribe_all` and everything the server answers. -/
def resync (s : Server) (watchId : Nat) (record : WatchRecord) : WatchRecord :=
  (routeFrames record.resubscribe (watchFrames s record.pre watchId record.fromRev)).1

/-- `keys` are exactly the server's keys under the prefix. -/
def KeysMatch (s : Server) (pre : Bytes) (keys : OrdSet Bytes) : Prop :=
  ∀ k, k ∈ keys ↔ k ∈ s.kvs ∧ pre <+: k

/-- No event the server would replay to the record is about `k`. -/
def Unmentioned (s : Server) (record : WatchRecord) (k : Bytes) : Prop :=
  ∀ e ∈ s.eventLog, record.lastRev < e.rev → record.pre <+: e.key → e.key ≠ k

instance (s : Server) (record : WatchRecord) (k : Bytes) : Decidable (Unmentioned s record k) :=
  inferInstanceAs (Decidable (∀ e ∈ s.eventLog, _))

variable {s : Server} {record : WatchRecord} {h : List LoggedEvent}

/-- The two ways a watch request is answered. -/
theorem watchFrames_snapshot (watchId : Nat)
    (h : record.lastRev = 0 ∨ canReplayFrom s record.lastRev = false) :
    watchFrames s record.pre watchId record.fromRev =
      (prefixEntries s record.pre).map (.watch watchId .put) ++
        [.sync watchId .snapshot s.revision] := by
  unfold watchFrames WatchRecord.fromRev
  rw [if_neg]
  rintro ⟨hnonneg, hcan⟩
  -- `from_rev` is sent only when it is positive, so a replay needs both tests
  by_cases hzero : record.lastRev > 0
  · rw [if_pos hzero] at hcan
    rcases h with h | h
    · omega
    · rw [h] at hcan
      cases hcan
  · rw [if_neg hzero] at hnonneg
    omega

/-- The part of the history a resync replays. -/
def replayed (h : List LoggedEvent) (record : WatchRecord) : List LoggedEvent :=
  (h.drop record.lastRev).filter fun e => decide (record.pre <+: e.key)

theorem watchFrames_replay
    (hist : History s h) (watchId : Nat) (hpos : 0 < record.lastRev)
    (hcan : canReplayFrom s record.lastRev = true) :
    watchFrames s record.pre watchId record.fromRev =
      (replayed h record).map (·.frame watchId) ++ [.sync watchId .replay s.revision] := by
  unfold watchFrames WatchRecord.fromRev replayed
  rw [if_pos hpos, if_pos ⟨by omega, hcan⟩, ← hist.log_after hcan]
  congr 3
  funext e
  simp

/-- After a snapshot the live keys are the server's. -/
theorem keysMatch_snapshot (watchId : Nat)
    (h : record.lastRev = 0 ∨ canReplayFrom s record.lastRev = false) :
    KeysMatch s record.pre (resync s watchId record).liveKeys := by
  intro k
  obtain ⟨hsync, hkeys⟩ := routeFrames_puts watchId (prefixEntries s record.pre)
    record.resubscribe rfl
  unfold resync
  rw [watchFrames_snapshot watchId h, routeFrames_append]
  show k ∈ (routeWatchFrame _ (.sync watchId .snapshot s.revision)).1.liveKeys ↔ _
  rw [liveKeys_routeWatchFrame_snapshot _ _ _ hsync, hkeys k, mem_prefixEntries]
  simp [WatchRecord.resubscribe]

theorem unmentioned_iff
    (hist : History s h) (hcan : canReplayFrom s record.lastRev = true) (k : Bytes) :
    Unmentioned s record k ↔ ∀ e ∈ changes (replayed h record), e.key ≠ k := by
  unfold Unmentioned replayed changes
  rw [← hist.log_after hcan]
  simp only [List.mem_map, List.mem_filter, Bool.and_eq_true, decide_eq_true_eq]
  constructor
  · rintro hun - ⟨e, ⟨he, hrev, hpre⟩, rfl⟩
    exact hun e he hrev hpre
  · intro hun e he hrev hpre
    exact hun e.change ⟨e, ⟨he, hrev, hpre⟩, rfl⟩

/-- The replayed events alone decide the keys they mention. -/
theorem replay_replayed (h : List LoggedEvent) {k : Bytes}
    (hpre : record.pre <+: k) (hev : ∃ e ∈ changes (replayed h record), e.key = k) :
    replay (fun _ => none) (changes (replayed h record)) k =
      stateAt (changes h) h.length k := by
  -- filtering by the prefix does not lose an event about `k`, and what happened
  -- before the first such event does not matter
  have hfilter : changes (replayed h record) =
      (changes (h.drop record.lastRev)).filter fun e => decide (record.pre <+: e.key) := by
    unfold replayed changes
    rw [List.filter_map]
    rfl
  have hsplit : changes h = changes (h.take record.lastRev) ++ changes (h.drop record.lastRev) := by
    rw [← changes_append, List.take_append_drop]
  rw [hfilter] at hev ⊢
  obtain ⟨e, he, hk⟩ := hev
  rw [replay_filter _ _ (fun x _ hx => by simpa [hx] using hpre), ← changes_length,
    stateAt_length, hsplit, replay_append]
  exact replay_of_event _ _ _ ⟨e, (List.mem_filter.mp he).1, hk⟩

/-- After a replay a key with a replayed event is right, any other is as before. -/
theorem mem_resync_replay
    (hist : History s h) (watchId : Nat) (hpos : 0 < record.lastRev)
    (hcan : canReplayFrom s record.lastRev = true) (k : Bytes) :
    k ∈ (resync s watchId record).liveKeys ↔
      if Unmentioned s record k then k ∈ record.liveKeys else k ∈ s.kvs ∧ record.pre <+: k := by
  -- membership after the replay, in terms of the replayed part of the history
  have hlive : k ∈ (resync s watchId record).liveKeys ↔
      (changes (replayed h record)).foldl follow (· ∈ record.liveKeys) k := by
    unfold resync
    rw [watchFrames_replay hist watchId hpos hcan, routeFrames_append]
    show k ∈ (routeWatchFrame _ (.sync watchId .replay s.revision)).1.liveKeys ↔ _
    rw [liveKeys_routeWatchFrame_replay, mem_liveKeys_routeFrames_replay]
    rfl
  rw [hlive, foldl_follow_iff]
  -- a mentioned key is decided by the replayed events, any other by the old belief
  by_cases hun : Unmentioned s record k
  · have hno := (unmentioned_iff hist hcan k).mp hun
    rw [if_pos hun]
    constructor
    · rintro (⟨⟨e, he, hk⟩, -⟩ | ⟨-, hk⟩)
      · exact absurd hk (hno e he)
      · exact hk
    · exact fun hk => .inr ⟨hno, hk⟩
  · have hev : ∃ e ∈ changes (replayed h record), e.key = k := by
      rw [unmentioned_iff hist hcan k] at hun
      simpa using hun
    have hpre : record.pre <+: k := by
      obtain ⟨c, hc, rfl⟩ := hev
      obtain ⟨e, he, rfl⟩ := List.mem_map.mp hc
      exact of_decide_eq_true (List.mem_filter.mp he).2
    rw [if_neg hun, replay_replayed h hpre hev, hist.mem_kvs]
    constructor
    · rintro (⟨-, hk⟩ | ⟨hno, -⟩)
      · exact ⟨hk, hpre⟩
      · obtain ⟨e, he, hk⟩ := hev
        exact absurd hk (hno e he)
    · exact fun hk => .inl ⟨hev, hk.1⟩

/-- After a restart, one resync gives the new server's key set exactly when it
    was answered with a snapshot, or the record already agreed with the server
    on every key that the replayed events do not mention. -/
theorem resync_keysMatch_iff {s : Server} (hs : discoveryd.Reachable s) (watchId : Nat)
    (record : WatchRecord) :
    KeysMatch s record.pre (resync s watchId record).liveKeys ↔
      record.lastRev = 0 ∨ canReplayFrom s record.lastRev = false ∨
        ∀ k, Unmentioned s record k → (k ∈ record.liveKeys ↔ k ∈ s.kvs ∧ record.pre <+: k) := by
  obtain ⟨h, hist⟩ := exists_history hs
  -- a snapshot always leads to the right keys; a replay as far as the events go
  by_cases hsnap : record.lastRev = 0 ∨ canReplayFrom s record.lastRev = false
  · have hmatch := keysMatch_snapshot watchId hsnap
    exact ⟨fun _ => hsnap.imp_right .inl, fun _ => hmatch⟩
  · obtain ⟨hpos, hcan⟩ := not_or.mp hsnap
    have hpos' : 0 < record.lastRev := Nat.pos_of_ne_zero hpos
    have hcan' : canReplayFrom s record.lastRev = true := by simpa using hcan
    have hmem := mem_resync_replay hist watchId hpos' hcan'
    constructor
    · intro hmatch
      refine .inr (.inr fun k hk => ?_)
      have h := hmem k
      rw [if_pos hk] at h
      exact h.symm.trans (hmatch k)
    · intro hcond k
      rcases hcond with h | h | h
      · exact absurd h hpos
      · exact absurd h hcan
      · rw [hmem k]
        split
        · rename_i hk
          exact h k hk
        · exact Iff.rfl

/-- A client connects and puts the keys in order. -/
def putKeys (keys : List Bytes) : List Step :=
  .accept :: keys.map fun k => .request (fun _ => true) 0 0 1 (.kvPut k [] 0)

theorem putKeys_before : (discoveryd.run (putKeys [str "w/1", str "w/2"])).isSome = true := by
  decide

theorem putKeys_after : (discoveryd.run (putKeys [str "w/3"])).isSome = true := by
  decide

theorem kvPut_revision (s : Server) (key : Bytes) :
    (kvPut (fun _ => true) s 1 key [] 0).server.conns = s.conns ∧
      (kvPut (fun _ => true) s 1 key [] 0).server.revision = s.revision + 1 := by
  simp only [kvPut, leaseUnknown, bindLease, unbindLeaseLocked]
  repeat' split
  all_goals first | exact ⟨rfl, rfl⟩ | simp_all

/-- A server can get to any revision. -/
theorem exists_revision (n : Nat) :
    ∃ s, discoveryd.Reachable s ∧ 0 ∈ s.conns ∧ s.revision = n := by
  induction n with
  | zero => exact ⟨_, .step .accept .init rfl, by decide, rfl⟩
  | succ n ih =>
    obtain ⟨s, hs, hconn, hrev⟩ := ih
    obtain ⟨hconns, hput⟩ := kvPut_revision s (str "w/3")
    exact ⟨_, .step (.request (fun _ => true) 0 0 1 (.kvPut (str "w/3") [] 0)) hs (if_pos hconn),
      hconns ▸ hconn, hput.trans (congrArg (· + 1) hrev)⟩

/-- A record of the old process is answered with a snapshot when the new one has dropped
    the event after its last revision from the log. -/
theorem resync_stale_keysMatch :
    ∃ new record, discoveryd.Reachable new ∧ record.lastRev = 2 ∧ str "w/1" ∈ record.liveKeys ∧
      KeysMatch new (str "w/") (resync new 1 record).liveKeys := by
  obtain ⟨new, hnew, -, hrev⟩ := exists_revision (kEventLogCapacity + 3)
  let record := resync ((discoveryd.run (putKeys [str "w/1", str "w/2"])).get putKeys_before) 1
    (.fresh (str "w/"))
  refine ⟨new, record, hnew, by decide, by decide, ?_⟩
  have hpre : record.pre = str "w/" := by decide
  have hlast : record.lastRev = 2 := by decide
  refine hpre ▸ (resync_keysMatch_iff hnew 1 record).mpr (.inr (.inl ?_))
  obtain ⟨h, hist⟩ := exists_history hnew
  have hlen : h.length = kEventLogCapacity + 3 := hist.revision.symm.trans hrev
  have hthree : h.length - kEventLogCapacity = 3 := by omega
  obtain ⟨e, he⟩ : ∃ e, h[3]? = some e := ⟨_, List.getElem?_eq_getElem (by rw [hlen]; decide)⟩
  have hfront : e.rev = 4 := hist.numbered 3 e he
  rw [canReplayFrom, hlast, hrev, hist.log, hthree, List.head?_drop, he, if_neg (by decide)]
  simp [hfront]

/-- A record that saw two puts of the old process asks the new one, which has
    done one, for everything after revision 2: nothing is replayed, and the
    record keeps the keys of the dead process. -/
theorem restart_keeps_stale_keys :
    ∃ old new, discoveryd.Reachable old ∧ discoveryd.Reachable new ∧
      ¬ KeysMatch new (str "w/") (resync new 1 (resync old 1 (.fresh (str "w/")))).liveKeys := by
  refine ⟨_, _, System.Reachable.of_run_isSome putKeys_before,
    System.Reachable.of_run_isSome putKeys_after, ?_⟩
  intro hmatch
  have hstale := (hmatch (str "w/1")).mp (by decide)
  exact absurd hstale.1 (by decide)

end DynamoCpp.Discovery
