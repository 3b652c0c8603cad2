import DynamoCpp.Discovery.Resync
import DynamoCpp.Discovery.Watching

/-! # Phases of a watch

    Between two losses of the connection a record is in one of three phases,
    told apart by the watch frames that are still unread:

    * **live**: the events after `last_rev`;
    * **replay**: the rest of the replayed events, the marker, and the events
      after the marker's revision;
    * **snapshot**: the rest of the snapshot, the marker, and the events after
      the marker's revision.

    In the first two the record mirrors the store at `last_rev`, so a resync
    can start there.  In a snapshot it does not, once the first frame is
    processed: snapshot frames come in key order and each of them moves
    `last_rev`.
-/

namespace DynamoCpp.Discovery

open Framework EventLog

/-- The watch frames for the events of `h` from position `r` on. -/
def feed (pre : Bytes) (id : Nat) (h : List LoggedEvent) (r : Nat) : List Frame :=
  ((h.drop r).filter fun e => decide (pre <+: e.key)).map (·.frame id)

/-- The record holds the keys that were present at its revision. -/
def Mirrored (h : List LoggedEvent) (record : WatchRecord) : Prop :=
  EventLog.Mirrors (record.pre <+: ·) (changes h) record.lastRev (· ∈ record.liveKeys)

/-- Where a registered record stands, given the unread frames. -/
inductive Phase (h : List LoggedEvent) (id : Nat) (record : WatchRecord) : List Frame → Prop where
  | live : record.syncing = false → Mirrored h record →
      Phase h id record (feed record.pre id h record.lastRev)
  | replay : ∀ {n₀ : Nat}, record.syncing = true → Mirrored h record →
      record.lastRev ≤ n₀ → n₀ ≤ h.length →
      Phase h id record
        (feed record.pre id (h.take n₀) record.lastRev ++
          .sync id .replay n₀ :: feed record.pre id h n₀)
  | snapshot : ∀ {n₀ : Nat} {puts : List KeyValue}, record.syncing = true →
      (∀ k, (k ∈ record.syncKeys ∨ ∃ kv ∈ puts, kv.key = k) ↔
        record.pre <+: k ∧ (EventLog.stateAt (changes h) n₀ k).isSome = true) →
      (∀ kv ∈ puts, kv.modRevision ≤ n₀) →
      (∀ k ∈ record.syncKeys, k ∈ record.liveKeys) →
      (record.syncKeys = ∅ → Mirrored h record) →
      record.lastRev ≤ n₀ → n₀ ≤ h.length →
      Phase h id record
        (puts.map (.watch id .put) ++ .sync id .snapshot n₀ :: feed record.pre id h n₀)

/-! ## The history grows -/

variable {h : List LoggedEvent} {r id n₀ : Nat} {record : WatchRecord} {fs : List Frame}
  {pre : Bytes} {f : Frame}

theorem feed_append (pre : Bytes) (id : Nat) {es : List LoggedEvent}
    (hr : r ≤ h.length) : feed pre id (h ++ es) r = feed pre id h r ++ feed pre id es 0 := by
  unfold feed
  rw [List.drop_append_of_le_length hr, List.filter_append, List.map_append, List.drop_zero]

theorem Mirrored.append (es : List LoggedEvent)
    (hm : Mirrored h record) (hr : record.lastRev ≤ h.length) : Mirrored (h ++ es) record := by
  unfold Mirrored
  rw [changes_append]
  exact (mirrors_append (by simpa using hr)).mpr hm

/-- New events are fed after whatever is still unread. -/
theorem Phase.append
    (es : List LoggedEvent) (hp : Phase h id record fs) (hr : record.lastRev ≤ h.length) :
    Phase (h ++ es) id record (fs ++ feed record.pre id es 0) := by
  cases hp with
  | live hsync hm =>
    rw [← feed_append _ _ hr]
    exact .live hsync (hm.append es hr)
  | @replay n₀ hsync hm hle hn =>
    have htake : (h ++ es).take n₀ = h.take n₀ := List.take_append_of_le_length hn
    rw [List.append_assoc, List.cons_append, ← feed_append _ _ hn, ← htake]
    exact .replay hsync (hm.append es hr) hle (by simp only [List.length_append]; omega)
  | @snapshot n₀ puts hsync hkeys hrevs hsub hm hle hn =>
    rw [List.append_assoc, List.cons_append, ← feed_append _ _ hn]
    refine .snapshot hsync ?_ hrevs hsub (fun he => (hm he).append es hr) hle
      (by simp only [List.length_append]; omega)
    intro k
    rw [changes_append, stateAt_append (by simpa using hn)]
    exact hkeys k

/-! ## The client reads a frame -/

/-- The next frame of a feed is the next accepted event; following it moves a
    mirror to that event's revision. -/
theorem feed_eq_cons (hnum : ∀ i e, h[i]? = some e → e.rev = i + 1)
    (hfeed : feed pre id h r = f :: fs) :
    ∃ e : LoggedEvent, f = e.frame id ∧ r < e.rev ∧ e.rev ≤ h.length ∧ fs = feed pre id h e.rev ∧
      ∀ L, EventLog.Mirrors (pre <+: ·) (changes h) r L →
        EventLog.Mirrors (pre <+: ·) (changes h) e.rev (follow L e.change) := by
  obtain ⟨e, rest, hfilter, rfl, rfl⟩ := List.map_eq_cons_iff.mp hfeed
  obtain ⟨i, hri, hget, hacc, rfl, hskip⟩ := filter_drop_eq_cons hfilter
  have hlen : i < h.length := (List.getElem?_eq_some_iff.mp hget).1
  have hrev := hnum i e hget
  have hchange : (changes h)[i]? = some e.change := by
    rw [changes_getElem?, hget]
    rfl
  refine ⟨e, rfl, by omega, by omega, by rw [hrev]; rfl, ?_⟩
  intro L hm
  -- nothing between `r` and `i` is accepted, then the event itself is
  have hmi : EventLog.Mirrors (pre <+: ·) (changes h) i L := by
    refine hm.skip_to hri (by simpa using Nat.le_of_lt hlen) ?_
    intro j c hj hji hc
    rw [changes_getElem?, Option.map_eq_some_iff] at hc
    obtain ⟨x, hx, rfl⟩ := hc
    have hno := hskip j x hj hji hx
    simpa using hno
  rw [hrev]
  exact hmi.event hchange (of_decide_eq_true hacc)

/-- A mirror with nothing left in its feed mirrors the whole history. -/
theorem mirrors_of_feed_nil {L : Bytes → Prop}
    (hfeed : feed pre id h r = []) (hr : r ≤ h.length)
    (hm : EventLog.Mirrors (pre <+: ·) (changes h) r L) :
    EventLog.Mirrors (pre <+: ·) (changes h) h.length L := by
  have hnil := filter_drop_eq_nil (List.map_eq_nil_iff.mp hfeed)
  refine hm.skip_to hr (by simp) ?_
  intro j c hj _ hc
  rw [changes_getElem?, Option.map_eq_some_iff] at hc
  obtain ⟨x, hx, rfl⟩ := hc
  have hno := hnil j x hj hx
  simpa using hno

/-- Routing a logged event that moves a mirror keeps the record a mirror. -/
theorem mirrored_routeWatchFrame {e : LoggedEvent}
    (id : Nat) (hrev : record.lastRev < e.rev)
    (hm : EventLog.Mirrors (record.pre <+: ·) (changes h) e.rev
      (follow (· ∈ record.liveKeys) e.change)) :
    Mirrored h (routeWatchFrame record (e.frame id)).1 := by
  unfold Mirrored
  rw [routeWatchFrame_frame_lastRev, routeWatchFrame_frame_pre,
    Nat.max_eq_right (Nat.le_of_lt hrev)]
  intro k
  show k ∈ (routeWatchFrame record (e.frame id)).1.liveKeys ↔ _
  rw [mem_liveKeys_routeWatchFrame_frame]
  exact hm k

/-- The record after the marker of a resync that ended at `n₀`. -/
theorem phase_after_sync {record' : WatchRecord}
    (id : Nat) (hsync : record'.syncing = false) (hrev : record'.lastRev = n₀)
    (hpre : record'.pre = record.pre)
    (hm : EventLog.Mirrors (record.pre <+: ·) (changes h) n₀ (· ∈ record'.liveKeys)) :
    Phase h id record' (feed record.pre id h n₀) := by
  have hm' : Mirrored h record' := by
    unfold Mirrored
    rw [hrev, hpre]
    exact hm
  rw [← hpre, ← hrev]
  exact .live hsync hm'

/-- What reading the frame `f` with `fs` behind it has to keep. -/
structure ReadsTo (h : List LoggedEvent) (id : Nat) (record : WatchRecord) (f : Frame)
    (fs : List Frame) : Prop where
  phase   : Phase h id (routeWatchFrame record f).1 fs
  rev_le  : (routeWatchFrame record f).1.lastRev ≤ h.length
  pre_eq  : (routeWatchFrame record f).1.pre = record.pre

theorem readsTo_live (hnum : ∀ i e, h[i]? = some e → e.rev = i + 1)
    (hsync : record.syncing = false) (hm : Mirrored h record)
    (hfeed : feed record.pre id h record.lastRev = f :: fs) : ReadsTo h id record f fs := by
  obtain ⟨e, rfl, hlt, hle, rfl, hmove⟩ := feed_eq_cons hnum hfeed
  have hm' := mirrored_routeWatchFrame id hlt (hmove _ hm)
  have hrev : (routeWatchFrame record (e.frame id)).1.lastRev = e.rev := by
    rw [routeWatchFrame_frame_lastRev, Nat.max_eq_right (Nat.le_of_lt hlt)]
  refine ⟨?_, by omega, routeWatchFrame_frame_pre record id e⟩
  have hlive : Phase h id _ _ := .live (by simpa using hsync) hm'
  rwa [hrev, routeWatchFrame_frame_pre] at hlive

/-- Up to `n₀` a history and its first `n₀` events have the same mirrors. -/
theorem mirrors_take {p : Bytes → Prop} {L : Bytes → Prop}
    (hn : n₀ ≤ h.length) (hr : r ≤ n₀) :
    EventLog.Mirrors p (changes h) r L ↔ EventLog.Mirrors p (changes (h.take n₀)) r L := by
  have hsplit : changes h = changes (h.take n₀) ++ changes (h.drop n₀) := by
    rw [← changes_append, List.take_append_drop]
  rw [hsplit]
  exact mirrors_append (by rw [changes_length, List.length_take_of_le hn]; exact hr)

/-- The marker that ends a replay. -/
theorem readsTo_replay_marker
    (hsync : record.syncing = true) (hm : Mirrored h record) (hle : record.lastRev ≤ n₀)
    (hn : n₀ ≤ h.length) (hfeed : feed record.pre id (h.take n₀) record.lastRev = []) :
    ReadsTo h id record (.sync id .replay n₀) (feed record.pre id h n₀) := by
  have hlen₀ : (h.take n₀).length = n₀ := List.length_take_of_le hn
  have hm₀ := mirrors_of_feed_nil hfeed (by rw [hlen₀]; exact hle) ((mirrors_take hn hle).mp hm)
  rw [hlen₀] at hm₀
  have hroute : (routeWatchFrame record (.sync id .replay n₀)).1 =
      { record with syncKeys := ∅, syncing := false, lastRev := max record.lastRev n₀ } := by
    simp [routeWatchFrame, hsync]
  have hmax : max record.lastRev n₀ = n₀ := Nat.max_eq_right hle
  constructor
  · rw [hroute]
    exact phase_after_sync id rfl hmax rfl ((mirrors_take hn (Nat.le_refl _)).mpr hm₀)
  · rw [hroute]
    show max record.lastRev n₀ ≤ h.length
    omega
  · rw [hroute]

/-- A replayed event. -/
theorem readsTo_replay_event (hnum : ∀ i e, h[i]? = some e → e.rev = i + 1)
    (hsync : record.syncing = true) (hm : Mirrored h record) (hle : record.lastRev ≤ n₀)
    (hn : n₀ ≤ h.length) (hfeed : feed record.pre id (h.take n₀) record.lastRev = f :: fs) :
    ReadsTo h id record f (fs ++ .sync id .replay n₀ :: feed record.pre id h n₀) := by
  have hnum' : ∀ i e, (h.take n₀)[i]? = some e → e.rev = i + 1 := by
    intro i e hi
    rw [List.getElem?_take] at hi
    split at hi
    · exact hnum i e hi
    · cases hi
  obtain ⟨e, rfl, hlt, hle', rfl, hmove⟩ := feed_eq_cons hnum' hfeed
  rw [List.length_take_of_le hn] at hle'
  have hm' := mirrored_routeWatchFrame id hlt
    ((mirrors_take hn hle').mpr (hmove _ ((mirrors_take hn hle).mp hm)))
  have hrev : (routeWatchFrame record (e.frame id)).1.lastRev = e.rev := by
    rw [routeWatchFrame_frame_lastRev, Nat.max_eq_right (Nat.le_of_lt hlt)]
  refine ⟨?_, by omega, routeWatchFrame_frame_pre record id e⟩
  have hreplay : Phase h id _ _ := .replay (by simpa using hsync) hm' (by omega) hn
  rwa [hrev, routeWatchFrame_frame_pre] at hreplay

/-- The marker that ends a snapshot: the gathered keys become the live ones. -/
theorem readsTo_snapshot_marker
    (hsync : record.syncing = true)
    (hkeys : EventLog.Mirrors (record.pre <+: ·) (changes h) n₀ (· ∈ record.syncKeys))
    (hle : record.lastRev ≤ n₀) (hn : n₀ ≤ h.length) :
    ReadsTo h id record (.sync id .snapshot n₀) (feed record.pre id h n₀) := by
  have hroute : (routeWatchFrame record (.sync id .snapshot n₀)).1 =
      { record with
        liveKeys := record.syncKeys, syncKeys := ∅, syncing := false
        lastRev := max record.lastRev n₀ } := by
    simp [routeWatchFrame, hsync]
  have hmax : max record.lastRev n₀ = n₀ := Nat.max_eq_right hle
  constructor
  · rw [hroute]
    exact phase_after_sync id rfl hmax rfl hkeys
  · rw [hroute]
    show max record.lastRev n₀ ≤ h.length
    omega
  · rw [hroute]

/-- Reading the next watch frame leads to a phase again. -/
theorem Phase.read (hnum : ∀ i e, h[i]? = some e → e.rev = i + 1)
    (hp : Phase h id record (f :: fs)) : ReadsTo h id record f fs := by
  generalize hall : f :: fs = all at hp
  cases hp with
  | live hsync hm => exact readsTo_live hnum hsync hm hall.symm
  | @replay n₀ hsync hm hle hn =>
    cases hfeed : feed record.pre id (h.take n₀) record.lastRev with
    | nil =>
      rw [hfeed] at hall
      obtain ⟨rfl, rfl⟩ := List.cons.inj hall
      exact readsTo_replay_marker hsync hm hle hn hfeed
    | cons g gs =>
      rw [hfeed] at hall
      obtain ⟨rfl, rfl⟩ := List.cons.inj hall
      exact readsTo_replay_event hnum hsync hm hle hn hfeed
  | @snapshot n₀ puts hsync hkeys hrevs hsub hm hle hn =>
    cases puts with
    | nil =>
      obtain ⟨rfl, rfl⟩ := List.cons.inj hall
      refine readsTo_snapshot_marker hsync ?_ hle hn
      intro k
      have hk := hkeys k
      simpa using hk
    | cons kv puts =>
      obtain ⟨rfl, rfl⟩ := List.cons.inj hall
      have hroute : (routeWatchFrame record (.watch id .put kv)).1 =
          { record with
            liveKeys := record.liveKeys.insert kv.key
            syncKeys := record.syncKeys.insert kv.key
            lastRev := max record.lastRev kv.modRevision } := by
        simp [routeWatchFrame, hsync]
      have hkv := hrevs kv List.mem_cons_self
      refine ⟨?_, ?_, by rw [hroute]⟩
      · rw [hroute]
        refine .snapshot hsync ?_ ?_ ?_ ?_ ?_ hn
        · intro k
          rw [← hkeys k, OrdSet.mem_insert]
          simp only [List.mem_cons, exists_eq_or_imp]
          tauto
        · exact fun x hx => hrevs x (List.mem_cons_of_mem _ hx)
        · intro k hk
          rw [OrdSet.mem_insert] at hk ⊢
          exact hk.imp_right (hsub k)
        · -- a processed snapshot frame leaves no mirror behind
          intro hempty
          exact absurd hempty (Std.ExtTreeSet.insert_ne_empty)
        · show max record.lastRev kv.modRevision ≤ n₀
          omega
      · rw [hroute]
        show max record.lastRev kv.modRevision ≤ h.length
        omega

/-! ## The sink follows the live keys -/

/-- Deletes for a list of keys remove exactly these keys. -/
theorem mem_consume_deletes (k : Bytes) : ∀ (gone : List Bytes) (keys : OrdSet Bytes),
    k ∈ (gone.map fun x => (⟨.delete, ⟨x, [], 0, 0⟩⟩ : WatchEvent)).foldl consume keys ↔
      k ∈ keys ∧ k ∉ gone
  | [], keys => by simp
  | x :: gone, keys => by
    rw [List.map_cons, List.foldl_cons, mem_consume_deletes k gone, consume, OrdSet.mem_erase,
      List.mem_cons]
    tauto

/-- What is sent for a frame keeps the consumer's key set equal to the live
    keys, if a snapshot gathered live keys only. -/
theorem foldSink_routeWatchFrame {sink : List WatchEvent} (f : Frame)
    (hsink : foldSink sink = record.liveKeys)
    (hsub : f.syncMode? = some .snapshot → ∀ k ∈ record.syncKeys, k ∈ record.liveKeys) :
    foldSink (sink ++ (routeWatchFrame record f).2) = (routeWatchFrame record f).1.liveKeys := by
  have happend : ∀ events, foldSink (sink ++ events) = events.foldl consume record.liveKeys := by
    intro events
    rw [← hsink, foldSink, List.foldl_append]
    rfl
  rw [happend]
  cases f with
  | watch id kind kv => cases kind <;> rfl
  | event => rfl
  | reply => rfl
  | sync id mode rev =>
    cases hsync : record.syncing with
    | false => simp [routeWatchFrame, hsync]
    | true =>
      cases mode with
      | replay => simp [routeWatchFrame, hsync]
      | snapshot =>
        simp only [routeWatchFrame, hsync, Bool.true_eq_false, if_false]
        refine Std.ExtTreeSet.ext_mem fun k => ?_
        rw [mem_consume_deletes]
        -- the deleted keys are the live keys the snapshot did not mention
        simp only [List.mem_filter, Std.ExtTreeSet.mem_toList, decide_not, Bool.not_eq_true',
          decide_eq_false_iff_not]
        tauto

/-! ## The server answers a watch request -/

theorem History.modRevision_le {s : Server} (hist : History s h) {kv : KeyValue}
    (hkv : kv ∈ prefixEntries s pre) :
    kv.modRevision ≤ h.length := by
  obtain ⟨⟨k, entry⟩, hmem, rfl⟩ := List.mem_map.mp hkv
  have hget := ((OrdMap.mem_scanFrom s.kvs (prefix_rangeFrom pre) k entry).mp hmem).1
  rw [hist.kvs, ← changes_length, stateAt_length] at hget
  rcases exists_event_of_replay _ _ hget with ⟨c, hc, -, himg⟩ | hnone
  · -- the entry was stored under the revision of its event
    obtain ⟨e, he, rfl⟩ := List.mem_map.mp hc
    obtain ⟨i, hi⟩ := List.mem_iff_getElem?.mp he
    have hrev := hist.numbered i e hi
    have hlen : i < h.length := (List.getElem?_eq_some_iff.mp hi).1
    unfold LoggedEvent.change at himg
    split at himg
    · rw [← Option.some.inj himg]
      show e.rev ≤ h.length
      omega
    · cases himg
  · cases hnone

theorem Phase.serve {s : Server} {h : List LoggedEvent} {record : WatchRecord}
    (hist : History s h) (id : Nat) (hlen : record.lastRev ≤ h.length) (hm : Mirrored h record)
    (hsync : record.syncing = true) (hempty : record.syncKeys = ∅) :
    Phase h id record (watchFrames s record.pre id record.fromRev) := by
  have hend : feed record.pre id h h.length = [] := by simp [feed]
  by_cases hsnap : record.lastRev = 0 ∨ canReplayFrom s record.lastRev = false
  · rw [watchFrames_snapshot id hsnap, hist.revision, ← hend]
    refine .snapshot hsync ?_ (fun kv hkv => hist.modRevision_le hkv) ?_ (fun _ => hm) hlen
      (Nat.le_refl _)
    · intro k
      rw [mem_prefixEntries, hist.mem_kvs, hempty]
      simp [and_comm]
    · intro k hk
      rw [hempty] at hk
      simp at hk
  · obtain ⟨hpos, hcan⟩ := not_or.mp hsnap
    rw [watchFrames_replay hist id (Nat.pos_of_ne_zero hpos) (by simpa using hcan),
      hist.revision, ← hend]
    have hreplay : Phase h id record _ := .replay hsync hm hlen (Nat.le_refl _)
    rwa [List.take_length] at hreplay

/-- A snapshot gathers live keys only. -/
theorem Phase.syncKeys_sub (hp : Phase h id record (f :: fs)) (hf : f.syncMode? = some .snapshot) :
    ∀ k ∈ record.syncKeys, k ∈ record.liveKeys := by
  generalize hall : f :: fs = all at hp
  cases hp with
  | live hsync hm =>
    have hmem : f ∈ feed record.pre id h record.lastRev := hall ▸ List.mem_cons_self
    obtain ⟨e, -, rfl⟩ := List.mem_map.mp hmem
    cases hf
  | @replay n₀ hsync hm hle hn =>
    cases hfeed : feed record.pre id (h.take n₀) record.lastRev with
    | nil =>
      rw [hfeed] at hall
      obtain ⟨rfl, -⟩ := List.cons.inj hall
      cases hf
    | cons g gs =>
      rw [hfeed] at hall
      obtain ⟨rfl, -⟩ := List.cons.inj hall
      have hmem : f ∈ feed record.pre id (h.take n₀) record.lastRev :=
        hfeed ▸ List.mem_cons_self
      obtain ⟨e, -, rfl⟩ := List.mem_map.mp hmem
      cases hf
  | snapshot _ _ _ hsub => exact hsub

/-- A settled record mirrors the whole history. -/
theorem Phase.settled
    (hp : Phase h id record []) (hlen : record.lastRev ≤ h.length) :
    EventLog.Mirrors (record.pre <+: ·) (changes h) h.length (· ∈ record.liveKeys) := by
  generalize hnil : ([] : List Frame) = fs at hp
  cases hp with
  | live _ hm => exact mirrors_of_feed_nil hnil.symm hlen hm
  | replay => simp at hnil
  | snapshot => simp at hnil

/-- Outside the middle of a snapshot the record is a mirror. -/
theorem Phase.mirrored
    (hp : Phase h id record fs)
    (hmid : ¬ (record.syncing = true ∧ record.syncKeys ≠ ∅ ∧
      fs.findSome? Frame.syncMode? = some .snapshot)) : Mirrored h record := by
  cases hp with
  | live _ hm => exact hm
  | replay _ hm => exact hm
  | @snapshot n₀ puts hsync _ _ _ hm =>
    refine hm ?_
    by_contra hne
    refine hmid ⟨hsync, hne, ?_⟩
    have hputs : (puts.map (Frame.watch id .put)).findSome? Frame.syncMode? = none := by
      rw [List.findSome?_eq_none_iff]
      intro f hf
      obtain ⟨kv, -, rfl⟩ := List.mem_map.mp hf
      rfl
    rw [List.findSome?_append, hputs]
    rfl

end DynamoCpp.Discovery
