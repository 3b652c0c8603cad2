import DynamoCpp.Discovery.Isolation
import DynamoCpp.Discovery.Phases

/-! # Watch convergence

    The invariant of a client watching a discoveryd process, over every run:
    the server has a history, at most one watcher is registered for the
    client's connection, and the unread watch frames put the record in one of
    its phases.  As long as no connection is lost in the middle of a snapshot,
    a settled record holds the server's keys, and so does whoever folds the
    events of the sink.
-/

namespace DynamoCpp.Discovery

open Framework

/-- The watchers of connection `c`. -/
def onConn (c : ConnId) (ws : List Watcher) : List Watcher :=
  ws.filter fun w => w.conn = c

/-- The frames a fan-out of the events writes to the watchers `ws`. -/
def served (ws : List Watcher) (es : List LoggedEvent) : List Frame :=
  es.flatMap fun e => (ws.filter fun w => decide (w.pre <+: e.key)).map fun w => e.frame w.id

/-! ## What the server writes on a connection -/

theorem framesTo_append (c : ConnId) (out out' : List Write) :
    framesTo c (out ++ out') = framesTo c out ++ framesTo c out' := by
  unfold framesTo
  rw [List.filter_append, List.map_append]

theorem framesTo_write (net : Net) (out : List Write) (c c' : ConnId) (f : Frame) :
    framesTo c (write net out c' f) = framesTo c out ++ if c' = c then [f] else [] := by
  unfold write
  by_cases hc : c' = c <;> simp [framesTo, hc]

/-- A connection that fails no write of a fan-out keeps its entries and gets
    the frame of each selected one, in order. -/
theorem fanout_connected {α : Type} (net : Net) (sel : α → Bool) (conn : α → ConnId)
    (frame : α → Frame) (c : ConnId) : ∀ (as : List α) (out : List Write),
      (∀ x ∈ (fanout net sel conn frame as out).2, x.conn = c → x.ok = true) →
      (fanout net sel conn frame as out).1.filter (fun a => decide (conn a = c)) =
          as.filter (fun a => decide (conn a = c)) ∧
        framesTo c (fanout net sel conn frame as out).2 =
          framesTo c out ++ ((as.filter fun a => decide (conn a = c)).filter sel).map frame
  | [], out, _ => by simp [fanout]
  | a :: as, out, hok => by
    unfold fanout at hok ⊢
    by_cases hsel : sel a = true
    · rw [if_pos hsel] at hok ⊢
      have hsub := (fanout_spares c conn net sel frame as (write net out (conn a) (frame a))).1
      have hmem : (⟨conn a, frame a, net out.length⟩ : Write) ∈
          (fanout net sel conn frame as (write net out (conn a) (frame a))).2 :=
        hsub (List.mem_append_right _ List.mem_cons_self)
      by_cases hnet : net out.length = true
      · rw [if_pos hnet] at hok ⊢
        obtain ⟨hkept, hframes⟩ := fanout_connected net sel conn frame c as _ hok
        rw [framesTo_write] at hframes
        generalize fanout net sel conn frame as _ = r at hkept hframes ⊢
        by_cases hc : conn a = c
        · simp [hc, hkept, hframes, hsel]
        · simp [hc, hkept, hframes]
      · rw [if_neg hnet] at hok ⊢
        -- the failed write was not on `c`
        have hc : conn a ≠ c := fun hc => hnet (hok _ hmem hc)
        obtain ⟨hkept, hframes⟩ := fanout_connected net sel conn frame c as _ hok
        rw [framesTo_write] at hframes
        simp [hc, hkept, hframes]
    · rw [if_neg hsel] at hok ⊢
      obtain ⟨hkept, hframes⟩ := fanout_connected net sel conn frame c as out hok
      by_cases hc : conn a = c
      · simp [hc, hkept, hframes, hsel]
      · simp [hc, hkept, hframes]

theorem served_append (ws : List Watcher) (es es' : List LoggedEvent) :
    served ws (es ++ es') = served ws es ++ served ws es' := by
  unfold served
  rw [List.flatMap_append]

variable {net : Net} {s s' : Server} {out : List Write} {es h : List LoggedEvent} {id : Nat}
  {w : World} {lk : Link} {pre : Bytes} {c : ConnId}

/-- A store operation that fails no write on `c` serves the watchers of `c`. -/
theorem Advances.connected {out' : List Write} (c : ConnId) (h : Advances net s out s' out' es)
    (hok : ∀ x ∈ out', x.conn = c → x.ok = true) :
    onConn c s'.watchers = onConn c s.watchers ∧
      framesTo c out' = framesTo c out ++ served (onConn c s.watchers) es := by
  induction h with
  | same hs =>
    rw [hs.watchers]
    simp [served]
  | @step s₁ s₂ s₃ out₁ out₂ es e hadv hm hs ih =>
    have hws : s₂.watchers = _ := congrArg Prod.fst hm.fanout
    have hout : out₂ = _ := congrArg Prod.snd hm.fanout
    rw [notifyWatchers] at hws hout
    have hsub : out₁ ⊆ out₂ := by
      rw [hout]
      exact (fanout_spares c Watcher.conn net _ _ s₁.watchers out₁).1
    obtain ⟨hkept, hframes⟩ := ih fun x hx => hok x (hsub hx)
    rw [hout] at hok
    obtain ⟨hkept', hframes'⟩ := fanout_connected net _ Watcher.conn _ c s₁.watchers out₁ hok
    rw [hs.watchers, hws, hout]
    refine ⟨hkept'.trans hkept, ?_⟩
    rw [hframes', hframes, served_append, List.append_assoc]
    congr 2
    unfold onConn at hkept
    rw [hkept]
    simp [served, onConn, LoggedEvent.frame]

/-! ## The invariant -/

/-- The current connection: either its watch request is still on the way, or
    the server has exactly one watcher on it. -/
inductive Linked (h : List LoggedEvent) (id : Nat) (s : Server) (record : WatchRecord)
    (lk : Link) : Prop where
  | waiting : lk.request = some record.fromRev → record.syncing = true → record.syncKeys = ∅ →
      Mirrored h record → onConn lk.conn s.watchers = [] → watchPart id lk.inbox = [] →
      Linked h id s record lk
  | registered : lk.request = none → onConn lk.conn s.watchers = [⟨id, record.pre, lk.conn⟩] →
      Phase h id record (watchPart id lk.inbox) → Linked h id s record lk

/-- Connection numbers are not reused. -/
structure Numbered (s : Server) : Prop where
  conns    : ∀ c ∈ s.conns, c < s.nextConnId
  watchers : ∀ x ∈ s.watchers, x.conn < s.nextConnId

/-- The state of a watching client after the history `h`. -/
structure Watches (pre : Bytes) (id : Nat) (h : List LoggedEvent) (w : World) : Prop where
  hist     : History w.server h
  numbered : Numbered w.server
  pre_eq   : w.record.pre = pre
  rev_le   : w.record.lastRev ≤ h.length
  sink     : foldSink w.sink = w.record.liveKeys
  down     : w.link = none → Mirrored h w.record
  up       : ∀ lk, w.link = some lk →
    lk.conn < w.server.nextConnId ∧ Linked h id w.server w.record lk

/-- A connection that is not lost in the middle of a snapshot leaves a mirror. -/
theorem Linked.mirrored
    (hlink : w.link = some lk) (hl : Linked h id w.server w.record lk)
    (hmid : w.midSnapshot id = false) : Mirrored h w.record := by
  cases hl with
  | waiting _ _ _ hm => exact hm
  | registered _ _ hp =>
    refine hp.mirrored ?_
    rintro ⟨hsync, hne, hmode⟩
    have hempty : w.record.syncKeys.isEmpty = false := by
      simpa [Std.ExtTreeSet.isEmpty_eq_false_iff] using hne
    simp [World.midSnapshot, hlink, hsync, hempty, hmode] at hmid

/-! ## Steps of the server -/

theorem watchPart_append (id : Nat) (fs gs : List Frame) :
    watchPart id (fs ++ gs) = watchPart id fs ++ watchPart id gs := by
  unfold watchPart
  rw [List.filter_append]

/-- Frames that are all addressed to the watch. -/
theorem watchPart_eq_self {fs : List Frame} (h : ∀ f ∈ fs, f.watchId? = some id) :
    watchPart id fs = fs := by
  unfold watchPart
  rw [List.filter_eq_self]
  intro f hf
  exact decide_eq_true (h f hf)

theorem watchId?_watchFrames (s : Server) (pre : Bytes) (id : Nat) (fromRev : Int) :
    ∀ f ∈ watchFrames s pre id fromRev, f.watchId? = some id := by
  intro f hf
  unfold watchFrames at hf
  split at hf
  · rcases List.mem_append.mp hf with hf | hf
    · obtain ⟨e, -, rfl⟩ := List.mem_map.mp hf
      rfl
    · rw [List.mem_singleton.mp hf]
      rfl
  · rcases List.mem_append.mp hf with hf | hf
    · obtain ⟨kv, -, rfl⟩ := List.mem_map.mp hf
      rfl
    · rw [List.mem_singleton.mp hf]
      rfl

theorem watchPart_served_single (id : Nat) (pre : Bytes) (c : ConnId) (es : List LoggedEvent) :
    watchPart id (served [⟨id, pre, c⟩] es) = feed pre id es 0 := by
  have hserved : served [⟨id, pre, c⟩] es = feed pre id es 0 := by
    induction es with
    | nil => rfl
    | cons e es ih =>
      have hcons : served [⟨id, pre, c⟩] (e :: es) =
          served [⟨id, pre, c⟩] [e] ++ served [⟨id, pre, c⟩] es := served_append _ [e] es
      rw [hcons, ih]
      by_cases hpre : pre <+: e.key <;> simp [served, feed, hpre]
  rw [hserved]
  refine watchPart_eq_self ?_
  intro f hf
  obtain ⟨e, -, rfl⟩ := List.mem_map.mp hf
  rfl

/-- A step of the server that extends the history by `es`, keeps the watchers
    of the client's connection and serves them. -/
theorem Watches.serverStep (hw : Watches pre id h w)
    (hist : History s' (h ++ es)) (hnum : Numbered s')
    (hmono : w.server.nextConnId ≤ s'.nextConnId)
    (hserves : ∀ lk, w.link = some lk → (∀ x ∈ out, x.conn = lk.conn → x.ok = true) →
      onConn lk.conn s'.watchers = onConn lk.conn w.server.watchers ∧
        watchPart id (framesTo lk.conn out) =
          watchPart id (served (onConn lk.conn w.server.watchers) es))
    (hmid : w.midSnapshot id = true → (w.serverStep (s', out)).link.isSome = true) :
    Watches pre id (h ++ es) (w.serverStep (s', out)) where
  hist := hist
  numbered := hnum
  pre_eq := hw.pre_eq
  rev_le := by
    have := hw.rev_le
    show w.record.lastRev ≤ (h ++ es).length
    rw [List.length_append]
    omega
  sink := hw.sink
  down := by
    intro hdown
    show Mirrored (h ++ es) w.record
    refine Mirrored.append es ?_ hw.rev_le
    cases hlink : w.link with
    | none => exact hw.down hlink
    | some lk =>
      have hmid' : w.midSnapshot id = false := by
        cases hm : w.midSnapshot id with
        | false => rfl
        | true =>
          have hup := hmid hm
          rw [hdown] at hup
          cases hup
      exact (hw.up lk hlink).2.mirrored hlink hmid'
  up := by
    intro lk' hlk'
    obtain ⟨lk, hlink, hrecv⟩ := Option.bind_eq_some_iff.mp hlk'
    unfold Link.receive at hrecv
    split at hrecv
    · rename_i hok
      rw [← Option.some.inj hrecv]
      obtain ⟨hkept, hframes⟩ := hserves lk hlink hok
      obtain ⟨hlt, hlinked⟩ := hw.up lk hlink
      refine ⟨Nat.lt_of_lt_of_le hlt hmono, ?_⟩
      cases hlinked with
      | waiting hreq hsync hempty hm hnone hinbox =>
        rw [hnone] at hframes hkept
        refine .waiting hreq hsync hempty (hm.append es hw.rev_le) hkept ?_
        rw [watchPart_append, hinbox, hframes]
        simp [served, watchPart]
      | registered hreq hone hp =>
        rw [hone] at hframes hkept
        refine .registered hreq hkept ?_
        rw [watchPart_append, hframes, watchPart_served_single]
        exact hp.append es hw.rev_le
    · cases hrecv

theorem Numbered.advances {out' : List Write} (hnum : Numbered s)
    (ha : Advances net s out s' out' es) :
    Numbered s' where
  conns := by
    rw [ha.sameConns.conns, ha.sameConns.nextConnId]
    exact hnum.conns
  watchers := by
    intro x hx
    rw [ha.sameConns.nextConnId]
    exact hnum.watchers x ((ha.spares x.conn).2.added x hx rfl)

/-- A store operation, with replies written after it. -/
theorem Watches.advance (hw : Watches pre id h w)
    (ha : Advances net w.server [] s' out es) (replies : List Write)
    (hreplies : ∀ x ∈ replies, x.frame.watchId? = none)
    (hmid : w.midSnapshot id = true → (w.serverStep (s', out ++ replies)).link.isSome = true) :
    Watches pre id (h ++ es) (w.serverStep (s', out ++ replies)) := by
  refine hw.serverStep (hw.hist.advances ha) (hw.numbered.advances ha)
    (Nat.le_of_eq ha.sameConns.nextConnId.symm) ?_ hmid
  intro lk _ hok
  obtain ⟨hkept, hframes⟩ := ha.connected lk.conn fun x hx => hok x (List.mem_append_left _ hx)
  refine ⟨hkept, ?_⟩
  have hnone : watchPart id (framesTo lk.conn replies) = [] := by
    unfold watchPart framesTo
    rw [List.filter_eq_nil_iff]
    intro f hf
    obtain ⟨x, hx, rfl⟩ := List.mem_map.mp hf
    simp [hreplies x (List.mem_filter.mp hx).1]
  rw [framesTo_append, watchPart_append, hnone, List.append_nil, hframes]
  simp [framesTo]

/-- What handling a watch request does: the answer and the reply are written
    on its connection, where the watcher is registered. -/
theorem handleRequest_watch (net : Net) (now : Int) (s : Server) (c : ConnId) (req : Nat)
    (pre : Bytes) (id : Nat) (fromRev : Int) :
    ∃ out r, handleRequest net now s c req (.watch pre id fromRev) =
        ({ s with watchers :=
            (s.watchers.filter fun x => ¬ (x.id = id ∧ x.conn = c)) ++ [⟨id, pre, c⟩] }, out) ∧
      out.map (·.frame) = watchFrames s pre id fromRev ++ [.reply r] ∧ ∀ x ∈ out, x.conn = c := by
  obtain ⟨new, hnew, hframes, hconn⟩ := writeAll_eq net c (watchFrames s pre id fromRev) []
  rw [List.nil_append] at hnew
  refine ⟨_, { reply := req }, rfl, ?_, ?_⟩
  · simp [handleOp, watch, write, hnew, hframes]
  · intro x hx
    simp only [handleOp, watch, write, hnew, List.mem_append, List.mem_singleton] at hx
    rcases hx with hx | rfl
    · exact hconn x hx
    · rfl

/-- Writes that all go to connection `c`. -/
theorem framesTo_self (h : ∀ x ∈ out, x.conn = c) :
    framesTo c out = out.map (·.frame) := by
  unfold framesTo
  rw [List.filter_eq_self.mpr]
  intro x hx
  exact decide_eq_true (h x hx)

theorem framesTo_other {c' : ConnId} (hne : c ≠ c')
    (h : ∀ x ∈ out, x.conn = c) : framesTo c' out = [] := by
  unfold framesTo
  rw [List.filter_eq_nil_iff.mpr, List.map_nil]
  intro x hx
  simpa [h x hx] using hne

theorem Numbered.register {s : Server} (hnum : Numbered s) {c : ConnId} (hc : c < s.nextConnId)
    (pre : Bytes) (id : Nat) (p : Watcher → Bool) :
    Numbered { s with watchers := s.watchers.filter p ++ [⟨id, pre, c⟩] } where
  conns := hnum.conns
  watchers := by
    intro x hx
    rcases List.mem_append.mp hx with hx | hx
    · exact hnum.watchers x (List.mem_filter.mp hx).1
    · rw [List.mem_singleton.mp hx]
      exact hc

/-- A watch request on another connection does not concern the client's. -/
theorem Watches.otherWatch
    (hw : Watches pre id h w) (net : Net) (now : Int) (req : Nat) {r : Request}
    (hc : c ∈ w.server.conns) (hr : r.isWatch = true) (hoff : w.offLink c = true)
    (hmid : w.midSnapshot id = true →
      (w.serverStep (handleRequest net now w.server c req r)).link.isSome = true) :
    Watches pre id (h ++ []) (w.serverStep (handleRequest net now w.server c req r)) := by
  obtain ⟨pre', id', fromRev, rfl⟩ : ∃ pre' id' fromRev, r = .watch pre' id' fromRev := by
    cases r with
    | watch pre' id' fromRev => exact ⟨pre', id', fromRev, rfl⟩
    | _ => cases hr
  obtain ⟨out, r, heq, -, hconn⟩ := handleRequest_watch net now w.server c req pre' id' fromRev
  rw [heq] at hmid ⊢
  refine hw.serverStep ?_ (hw.numbered.register (hw.numbered.conns c hc) _ _ _)
    (Nat.le_refl _) ?_ hmid
  · rw [List.append_nil]
    exact hw.hist.congr rfl rfl rfl
  · intro lk hlink _
    have hne : c ≠ lk.conn := by
      intro heq
      simp [World.offLink, hlink, heq] at hoff
    constructor
    · -- the entries removed and added are on `c`
      show onConn lk.conn (_ ++ [⟨id', pre', c⟩]) = _
      unfold onConn
      rw [List.filter_append, List.filter_filter, List.filter_cons_of_neg (by simpa using hne),
        List.filter_nil, List.append_nil]
      refine List.filter_congr ?_
      intro x _
      by_cases hx : x.conn = lk.conn
      · simp [hx, hne.symm]
      · simp [hx]
    · rw [framesTo_other hne hconn]
      simp [served]

/-- The server handles the client's own watch request. -/
theorem Watches.serve {pre : Bytes} {id : Nat} {h : List LoggedEvent} {w : World} {lk : Link}
    {fromRev : Int} (hw : Watches pre id h w) (net : Net) (now : Int) (req : Nat)
    (hlink : w.link = some lk) (hreq : lk.request = some fromRev) :
    Watches pre id h ({ w with link := some { lk with request := none } }.serverStep
      (handleRequest net now w.server lk.conn req (.watch w.record.pre id fromRev))) := by
  obtain ⟨hlt, hlinked⟩ := hw.up lk hlink
  obtain ⟨out, r, heq, hframes, hconn⟩ :=
    handleRequest_watch net now w.server lk.conn req w.record.pre id fromRev
  cases hlinked with
  | registered hnone => rw [hnone] at hreq; cases hreq
  | waiting hreq' hsync hempty hm hnone hinbox =>
    rw [hreq', Option.some.injEq] at hreq
    subst hreq
    rw [heq]
    exact {
      hist := hw.hist.congr rfl rfl rfl
      numbered := hw.numbered.register hlt _ _ _
      pre_eq := hw.pre_eq
      rev_le := hw.rev_le
      sink := hw.sink
      down := fun _ => hm
      up := by
        intro lk' hlk'
        have hrecv : ({ lk with request := none } : Link).receive out = some lk' := hlk'
        unfold Link.receive at hrecv
        split at hrecv
        · rw [← Option.some.inj hrecv]
          refine ⟨hlt, .registered rfl ?_ ?_⟩
          · show onConn lk.conn (_ ++ [⟨id, w.record.pre, lk.conn⟩]) = [⟨id, w.record.pre, lk.conn⟩]
            unfold onConn at hnone ⊢
            rw [List.filter_append, List.filter_eq_nil_iff.mpr, List.nil_append]
            · simp
            · intro x hx
              exact List.filter_eq_nil_iff.mp hnone x (List.mem_filter.mp hx).1
          · show Phase h id w.record (watchPart id (lk.inbox ++ framesTo lk.conn out))
            rw [framesTo_self hconn, hframes, watchPart_append, watchPart_append, hinbox,
              watchPart_eq_self (watchId?_watchFrames _ _ _ _)]
            show Phase h id w.record (_ ++ [])
            rw [List.append_nil]
            exact Phase.serve hw.hist id hw.rev_le hm hsync hempty
        · cases hrecv }

/-! ## Steps of the client and the network -/

/-- Losing the connection outside a snapshot. -/
theorem Watches.lose
    (hw : Watches pre id h w) (hlink : w.link = some lk) (hmid : w.midSnapshot id = false) :
    Watches pre id h { w with link := none } := by
  have hm : Mirrored h w.record := (hw.up lk hlink).2.mirrored hlink hmid
  exact { hw with down := fun _ => hm, up := (fun _ h => by cases h) }

theorem Watches.read
    {f : Frame} {rest : List Frame} (hw : Watches pre id h w) (hlink : w.link = some lk)
    (hinbox : lk.inbox = f :: rest) : Watches pre id h (w.read id lk f rest) := by
  obtain ⟨hlt, hlinked⟩ := hw.up lk hlink
  unfold World.read
  split
  · rename_i hf
    have hpart : watchPart id lk.inbox = f :: watchPart id rest := by
      unfold watchPart
      rw [hinbox, List.filter_cons_of_pos (by simpa using hf)]
    cases hlinked with
    | waiting _ _ _ _ _ hnone =>
      rw [hpart] at hnone
      cases hnone
    | registered hreq hone hp =>
      rw [hpart] at hp
      obtain ⟨hp', hle, hpre⟩ := hp.read hw.hist.numbered
      exact {
        hist := hw.hist
        numbered := hw.numbered
        pre_eq := hpre.trans hw.pre_eq
        rev_le := hle
        sink := foldSink_routeWatchFrame f hw.sink hp.syncKeys_sub
        down := fun h => by cases h
        up := by
          intro lk' hlk'
          rw [← Option.some.inj hlk']
          refine ⟨hlt, .registered hreq ?_ hp'⟩
          rw [hpre]
          exact hone }
  · rename_i hf
    have hpart : watchPart id lk.inbox = watchPart id rest := by
      unfold watchPart
      rw [hinbox, List.filter_cons_of_neg (by simpa using hf)]
    refine { hw with down := (fun h => by cases h), up := ?_ }
    intro lk' hlk'
    rw [← Option.some.inj hlk']
    refine ⟨hlt, ?_⟩
    cases hlinked with
    | waiting hreq hsync hempty hm hnone hpart' =>
      exact .waiting hreq hsync hempty hm hnone (hpart ▸ hpart')
    | registered hreq hone hp => exact .registered hreq hone (hpart ▸ hp)

theorem Numbered.acceptConn (hnum : Numbered s) : Numbered (acceptConn s) where
  conns := by
    intro c hc
    change c ∈ s.conns.insert s.nextConnId at hc
    rcases OrdSet.mem_insert.mp hc with rfl | hc
    · exact Nat.lt_succ_self _
    · exact Nat.lt_succ_of_lt (hnum.conns c hc)
  watchers := fun x hx => Nat.lt_succ_of_lt (hnum.watchers x hx)

/-- A new connection has no watchers yet; the record asks again. -/
theorem Watches.reconnect
    (hw : Watches pre id h w) (hlink : w.link = none) :
    Watches pre id h
      { w with
        server := acceptConn w.server
        record := w.record.resubscribe
        link := some ⟨w.server.nextConnId, some w.record.fromRev, []⟩ } where
  hist := hw.hist.congr rfl rfl rfl
  numbered := hw.numbered.acceptConn
  pre_eq := hw.pre_eq
  rev_le := hw.rev_le
  sink := hw.sink
  down := fun h => by cases h
  up := by
    intro lk hlk
    rw [← Option.some.inj hlk]
    refine ⟨Nat.lt_succ_self _, .waiting rfl rfl rfl (hw.down hlink) ?_ rfl⟩
    unfold onConn
    rw [List.filter_eq_nil_iff]
    intro x hx
    simp only [decide_eq_true_eq]
    exact Nat.ne_of_lt (hw.numbered.watchers x hx)

/-- The server ends another connection. -/
theorem Watches.closeOther
    (hw : Watches pre id h w) (hoff : w.offLink c = true) :
    Watches pre id h { w with server := closeConn w.server c } := by
  have hnum : Numbered (closeConn w.server c) := by
    refine ⟨?_, fun x hx => hw.numbered.watchers x (List.mem_filter.mp hx).1⟩
    intro c' hc'
    exact hw.numbered.conns c' (Std.ExtTreeSet.mem_of_mem_erase hc')
  refine { hw with hist := hw.hist.congr rfl rfl rfl, numbered := hnum, up := ?_ }
  intro lk hlink
  change w.link = some lk at hlink
  obtain ⟨hlt, hlinked⟩ := hw.up lk hlink
  refine ⟨hlt, ?_⟩
  have hne : lk.conn ≠ c := by
    simpa [World.offLink, hlink] using hoff
  have hkept : onConn lk.conn (closeConn w.server c).watchers =
      onConn lk.conn w.server.watchers := by
    unfold onConn closeConn
    rw [List.filter_filter]
    refine List.filter_congr ?_
    intro x _
    by_cases hx : x.conn = lk.conn
    · simp [hx, hne]
    · simp [hx]
  cases hlinked with
  | waiting hreq hsync hempty hm hnone hinbox =>
    exact .waiting hreq hsync hempty hm (hkept.trans hnone) hinbox
  | registered hreq hone hp => exact .registered hreq (hkept.trans hone) hp

/-- A new connection of somebody else. -/
theorem Watches.accept
    (hw : Watches pre id h w) : Watches pre id h { w with server := acceptConn w.server } := by
  refine { hw with
    hist := hw.hist.congr rfl rfl rfl, numbered := hw.numbered.acceptConn, up := ?_ }
  intro lk hlink
  obtain ⟨hlt, hlinked⟩ := hw.up lk hlink
  refine ⟨Nat.lt_succ_of_lt hlt, ?_⟩
  cases hlinked with
  | waiting hreq hsync hempty hm hnone hinbox =>
    exact .waiting hreq hsync hempty hm hnone hinbox
  | registered hreq hone hp => exact .registered hreq hone hp

/-- The server closes a connection, possibly the client's own. -/
theorem Watches.close {pre : Bytes} {id : Nat} {h : List LoggedEvent} {w : World}
    (hw : Watches pre id h w) (c : ConnId)
    (hlost : w.link.filter (fun lk => decide (lk.conn ≠ c)) = none → w.midSnapshot id = false) :
    Watches pre id h
      { w with
        server := closeConn w.server c
        link := w.link.filter (fun lk => decide (lk.conn ≠ c)) } := by
  cases hlink : w.link with
  | none =>
    have hoff : w.offLink c = true := by simp [World.offLink, hlink]
    have hstep := hw.closeOther hoff
    rw [hlink] at hstep
    exact hstep
  | some lk =>
    by_cases hc : lk.conn = c
    · have hnone : w.link.filter (fun lk => decide (lk.conn ≠ c)) = none := by
        simp [hlink, hc]
      have hlose := (hw.lose hlink (hlost hnone)).closeOther (c := c) rfl
      rw [← hlink, hnone]
      exact hlose
    · have hoff : w.offLink c = true := by simp [World.offLink, hlink, hc]
      have hkeep : w.link.filter (fun lk => decide (lk.conn ≠ c)) = w.link := by
        simp [hlink, hc]
      rw [← hlink, hkeep]
      exact hw.closeOther hoff

/-! ## Every run -/

theorem watches_init (pre : Bytes) (id : Nat) : Watches pre id [] (watching pre id).init where
  hist := history_init
  numbered := ⟨by simp [watching], by simp [watching]⟩
  pre_eq := rfl
  rev_le := Nat.le_refl _
  sink := rfl
  down := fun _ => EventLog.mirrors_zero (by simp [watching, WatchRecord.fresh])
  up := fun _ h => by cases h

/-- Every step that loses no connection in the middle of a snapshot keeps the
    invariant, for a history that grows. -/
theorem Watches.step {pre : Bytes} {id : Nat} {h : List LoggedEvent} {w w' : World}
    (hw : Watches pre id h w) (l : Move) (hok : noMidSnapshotLoss id w l)
    (hexec : Move.exec id w l = some w') : ∃ h', Watches pre id h' w' := by
  have hmid : w.midSnapshot id = true → w'.link.isSome = true := fun hm => hok hm w' hexec
  -- losing the link is allowed only outside a snapshot
  have hlost : w'.link = none → w.midSnapshot id = false := by
    intro hnone
    cases hm : w.midSnapshot id with
    | false => rfl
    | true =>
      have hsome := hmid hm
      rw [hnone] at hsome
      cases hsome
  cases moved_of_exec hexec with
  | @request net now c req r hc hr =>
    rcases hr with hr | ⟨hr, hoff⟩
    · obtain ⟨es, ha⟩ := handleOp_advances net now w.server c req r hr
      exact ⟨_, hw.advance ha [⟨c, _, _⟩] (by simp [Frame.watchId?]) hmid⟩
    · exact ⟨_, hw.otherWatch net now req hc hr hoff hmid⟩
  | @expire net now leaseId _ =>
    obtain ⟨es, ha⟩ := expireLeaseLocked_advances net w.server [] leaseId
    have hstep := hw.advance ha [] (by simp)
    rw [List.append_nil] at hstep
    exact ⟨_, hstep hmid⟩
  | accept => exact ⟨h, hw.accept⟩
  | @close c => exact ⟨h, hw.close c hlost⟩
  | reconnect hlink => exact ⟨h, hw.reconnect hlink⟩
  | @serve net now req lk fromRev hlink hreq => exact ⟨h, hw.serve net now req hlink hreq⟩
  | deliver hlink hinbox => exact ⟨h, hw.read hlink hinbox⟩
  | drop hlink => exact ⟨h, hw.lose hlink (hlost rfl)⟩

theorem watches_of_reachable
    (hreach : ((watching pre id).guarded (noMidSnapshotLoss id)).Reachable w) :
    ∃ h, Watches pre id h w := by
  have hstep : ∀ w l w', (∃ h, Watches pre id h w) → noMidSnapshotLoss id w l →
      (watching pre id).exec w l = some w' → ∃ h, Watches pre id h w' := by
    intro w l w' hinv hok hexec
    obtain ⟨h, hw⟩ := hinv
    exact hw.step l hok hexec
  exact hreach.guarded_invariant ⟨[], watches_init pre id⟩ hstep

/-- A settled record holds exactly the keys under its prefix. -/
theorem Watches.keysMatch
    (hw : Watches pre id h w) (hsettled : w.Settled) :
    KeysMatch w.server pre w.record.liveKeys := by
  obtain ⟨hup, hsync⟩ := hsettled
  obtain ⟨lk, hlink, hinbox⟩ : ∃ lk, w.link = some lk ∧ lk.inbox = [] := by
    cases hlink : w.link with
    | none => simp [hlink] at hup
    | some lk => exact ⟨lk, rfl, by simpa [hlink] using hup⟩
  cases (hw.up lk hlink).2 with
  | waiting _ hsync' =>
    rw [hsync] at hsync'
    cases hsync'
  | registered _ _ hp =>
    rw [hinbox] at hp
    intro k
    rw [hw.hist.mem_kvs, and_comm, ← hw.pre_eq]
    exact hp.settled hw.rev_le k

/-- In every run that loses no connection in the middle of a snapshot, a
    settled record holds exactly the server's keys under its prefix, and so
    does the fold of everything sent to the sink. -/
theorem settled_keysMatch {pre : Bytes} {id : Nat} {w : World}
    (hreach : ((watching pre id).guarded (noMidSnapshotLoss id)).Reachable w)
    (hsettled : w.Settled) :
    KeysMatch w.server pre w.record.liveKeys ∧ KeysMatch w.server pre (foldSink w.sink) := by
  obtain ⟨h, hw⟩ := watches_of_reachable hreach
  have hkeys := hw.keysMatch hsettled
  exact ⟨hkeys, hw.sink ▸ hkeys⟩

/-- Two puts by another client, so that key order is not revision order. -/
def twoPuts : List Move :=
  [.accept,
    .request (fun _ => true) 0 0 1 (.kvPut (str "w/b") [] 0),
    .request (fun _ => true) 0 0 2 (.kvPut (str "w/a") [] 0)]

/-- A new connection whose watch request is handled. -/
def resubscribed : List Move := [.reconnect, .serve (fun _ => true) 0 0]

/-- A whole snapshot, a loss, a put during the outage and a whole replay. -/
def convergingRun : List Move :=
  twoPuts ++ resubscribed ++ [.deliver, .deliver, .deliver, .deliver, .drop,
    .request (fun _ => true) 0 0 3 (.kvPut (str "w/c") [] 0)] ++ resubscribed ++
    [.deliver, .deliver, .deliver]

theorem convergingRun_runs :
    (((watching (str "w/") 1).guarded (noMidSnapshotLoss 1)).run convergingRun).isSome = true := by
  decide

theorem settled_convergingRun :
    KeysMatch
      ((((watching (str "w/") 1).guarded (noMidSnapshotLoss 1)).run convergingRun).get
        convergingRun_runs).server (str "w/")
      ((((watching (str "w/") 1).guarded (noMidSnapshotLoss 1)).run convergingRun).get
        convergingRun_runs).record.liveKeys :=
  (settled_keysMatch (System.Reachable.of_run_isSome convergingRun_runs) (by decide)).1

/-- The connection is lost after the first of two snapshot frames. -/
def lossyRun : List Move :=
  twoPuts ++ resubscribed ++ [.deliver, .drop] ++ resubscribed ++ [.deliver, .deliver]

theorem lossyRun_runs : ((watching (str "w/") 1).run lossyRun).isSome = true := by decide

/-- The first snapshot frame carries the newer revision, so the resync after
    the loss starts behind the key that was not delivered. -/
theorem settled_without_key :
    ∃ w, (watching (str "w/") 1).Reachable w ∧ w.Settled ∧
      ¬ KeysMatch w.server (str "w/") w.record.liveKeys := by
  refine ⟨_, System.Reachable.of_run_isSome lossyRun_runs, by decide, ?_⟩
  intro hmatch
  have hkey := (hmatch (str "w/b")).mpr ⟨by decide, by decide⟩
  exact absurd hkey (by decide)

end DynamoCpp.Discovery
