import DynamoCpp.Discovery.InProcessWatch
import DynamoCpp.Discovery.Rejected

/-! # What is passed on

    Discovery invents no keys and no values.  If the pairs of key and value that clients
    write have a property, then so do the pairs in the store and in the event log of
    discoveryd, and with them the watch frames that are written and the puts that a watching
    client hands on.  The same holds for the puts that the in-process store sends to a
    watcher.
-/

namespace DynamoCpp.Discovery

open Framework

/-! ## Writing a key -/

/-- A write is rejected or has nothing to do, or it stores the key after some bookkeeping of
    leases. -/
theorem KvCall.handled (call : KvCall) (net : Net) (now : Int) (s : Server) (c : ConnId)
    (req : Nat) :
    ((handleOp net now s c req call.request).Untouched s ∧
        ((handleOp net now s c req call.request).reply.ok = true →
          call.kind = .createOrValidate)) ∨
      ∃ s₁, SameStore s s₁ ∧
        (handleOp net now s c req call.request).server =
          (storeKey net s₁ [] call.key call.value (call.leaseId.getD 0)).1 ∧
        (handleOp net now s c req call.request).out =
          (storeKey net s₁ [] call.key call.value (call.leaseId.getD 0)).2 := by
  obtain ⟨kind, key, value, leaseId⟩ := call
  cases kind with
  | create =>
    simp only [request, handleOp, kvCreate]
    split
    · exact .inl ⟨⟨rfl, rfl⟩, Bool.noConfusion⟩
    · split
      · exact .inl ⟨⟨rfl, rfl⟩, Bool.noConfusion⟩
      · exact .inr ⟨_, sameStore_bindLease s key _, rfl, rfl⟩
  | put =>
    simp only [request, handleOp, kvPut]
    split
    · exact .inl ⟨⟨rfl, rfl⟩, Bool.noConfusion⟩
    · refine .inr ⟨_, ?_, rfl, rfl⟩
      split
      · split
        · exact (sameStore_unbindLeaseLocked s key _).trans (sameStore_bindLease _ key _)
        · exact .refl s
      · exact sameStore_bindLease s key _
  | createOrValidate =>
    simp only [request, handleOp, kvCreateOrValidate]
    split
    · split <;> exact .inl ⟨⟨rfl, rfl⟩, fun _ => trivial⟩
    · split
      · exact .inl ⟨⟨rfl, rfl⟩, Bool.noConfusion⟩
      · exact .inr ⟨_, sameStore_bindLease s key _, rfl, rfl⟩

/-- The pair that a request writes. -/
def Request.pair? : Request → Option (Bytes × Bytes)
  | .kvCreate key value _ | .kvPut key value _ | .kvCreateOrValidate key value _ =>
    some (key, value)
  | _ => none

/-- The subject of an event that a request sends. -/
def Request.subject? : Request → Option Bytes
  | .publish subject _ | .queueDispatch subject _ => some subject
  | _ => none

/-! ## Frames -/

/-- Every frame of the writes has the property. -/
def AllFrames (Q : Frame → Prop) (out : List Write) : Prop := ∀ x ∈ out, Q x.frame

namespace AllFrames

variable {Q : Frame → Prop} {out : List Write}

theorem nil : AllFrames Q [] := by
  intro x hx
  cases hx

theorem write (h : AllFrames Q out) (net : Net) (c : ConnId) {f : Frame} (hf : Q f) :
    AllFrames Q (write net out c f) := by
  intro x hx
  rcases List.mem_append.mp hx with hx | hx
  · exact h x hx
  · rw [List.mem_singleton.mp hx]
    exact hf

theorem fanout {α : Type} (net : Net) (sel : α → Bool) (conn : α → ConnId)
    (frame : α → Frame) : ∀ {as : List α} {out : List Write}, AllFrames Q out →
      (∀ a ∈ as, Q (frame a)) → AllFrames Q (fanout net sel conn frame as out).2
  | [], _, h, _ => h
  | a :: as, out, h, hframe => by
    have hrest : ∀ b ∈ as, Q (frame b) := fun b hb => hframe b (List.mem_cons_of_mem _ hb)
    have ha := h.write net (conn a) (hframe a List.mem_cons_self)
    unfold DynamoCpp.Discovery.fanout
    by_cases hsel : sel a = true
    · rw [if_pos hsel]
      -- kept or erased, the write has been made
      split <;> exact fanout net sel conn frame ha hrest
    · rw [if_neg hsel]
      exact fanout net sel conn frame h hrest

theorem dispatchLoop (net : Net) {subject data : Bytes} (hevent : ∀ id, Q (.event id subject data))
    (matching : List (Subscriber × Nat)) : ∀ (n : Nat) {d : DispatchState}, AllFrames Q d.out →
      AllFrames Q (dispatchLoop net subject data matching n d).out
  | 0, _, h => h
  | n + 1, d, h => by
    unfold DynamoCpp.Discovery.dispatchLoop
    split
    · exact h
    · next e _ _ =>
      have hwrite := h.write net e.conn (hevent e.id)
      dsimp only
      split
      · exact hwrite
      · exact dispatchLoop net hevent matching n hwrite

end AllFrames

/-- A fan-out writes to everyone who is selected. -/
theorem mem_fanout {α : Type} (net : Net) (sel : α → Bool) (conn : α → ConnId)
    (frame : α → Frame) {a : α} : ∀ {as : List α}, a ∈ as → sel a = true → ∀ out : List Write,
      ∃ x ∈ (fanout net sel conn frame as out).2, x.conn = conn a ∧ x.frame = frame a
  | b :: as, ha, hsel, out => by
    unfold fanout
    rcases List.mem_cons.mp ha with rfl | ha
    · have hmem := (fanout_spares (conn a) conn net sel frame as
        (write net out (conn a) (frame a))).1 (List.mem_append_right out List.mem_cons_self)
      rw [if_pos hsel]
      split <;> exact ⟨_, hmem, rfl, rfl⟩
    · split
      · split <;> exact mem_fanout net sel conn frame ha hsel _
      · exact mem_fanout net sel conn frame ha hsel out

/-! ## The store -/

/-- The pairs in the store and in the log have the property.  A delete is logged with the
    value it removes. -/
structure Server.Holds (P : Bytes → Bytes → Prop) (s : Server) : Prop where
  kvs : ∀ (k : Bytes) (entry : Entry), s.kvs[k]? = some entry → P k entry.value
  log : ∀ e ∈ s.eventLog, P e.key e.value

namespace Server.Holds

variable {P : Bytes → Bytes → Prop} {net : Net} {s s' : Server} {out out' : List Write}
  {e : LoggedEvent}

theorem init : Server.Holds P {} where
  kvs := by
    intro k entry h
    simp at h
  log := by simp

theorem congr (h : s.Holds P) (hkvs : s'.kvs = s.kvs) (hlog : s'.eventLog = s.eventLog) :
    s'.Holds P where
  kvs := by
    rw [hkvs]
    exact h.kvs
  log := by
    rw [hlog]
    exact h.log

theorem mutates (h : s.Holds P) (hm : Mutates net s out e s' out') (he : P e.key e.value) :
    s'.Holds P where
  kvs := by
    intro k entry hget
    rw [hm.kvs, LoggedEvent.applyTo_getElem?, EventLog.apply] at hget
    split at hget
    · next hk =>
      rw [hk, LoggedEvent.change_key]
      unfold LoggedEvent.change at hget
      split at hget
      · cases hget
        exact he
      · cases hget
    · exact h.kvs k entry hget
  log := by
    intro e' he'
    rw [hm.eventLog] at he'
    have hmem : e' ∈ s.eventLog ++ [e] := by
      split at he'
      · exact List.mem_of_mem_tail he'
      · exact he'
    rcases List.mem_append.mp hmem with hold | hnew
    · exact h.log e' hold
    · rw [List.mem_singleton.mp hnew]
      exact he

end Server.Holds

/-! ## Operations -/

/-- The pairs have the property, and so have the frames written so far. -/
structure Passes (P : Bytes → Bytes → Prop) (Q : Frame → Prop) (r : Server × List Write) :
    Prop where
  holds  : r.1.Holds P
  frames : AllFrames Q r.2

section operations

variable {P : Bytes → Bytes → Prop} {Q : Frame → Prop} {net : Net} {s s' : Server}
  {out out' : List Write} {e : LoggedEvent} {r : Server × List Write}

theorem Passes.start (h : s.Holds P) : Passes P Q (s, []) := ⟨h, .nil⟩

theorem Passes.congr (h : Passes P Q (s, out)) (hkvs : s'.kvs = s.kvs)
    (hlog : s'.eventLog = s.eventLog) : Passes P Q (s', out) :=
  ⟨h.holds.congr hkvs hlog, h.frames⟩

theorem isWatchFrames {s : Server} (h : s.Holds P)
    (hwatch : ∀ id kind kv, P kv.key kv.value → Q (.watch id kind kv))
    (hsync : ∀ id mode rev, Q (.sync id mode rev)) (pre : Bytes) (watchId : Nat)
    (fromRev : Int) : ∀ f ∈ watchFrames s pre watchId fromRev, Q f := by
  intro f hf
  unfold watchFrames at hf
  split at hf <;> rcases List.mem_append.mp hf with hf | hf
  · obtain ⟨e, he, rfl⟩ := List.mem_map.mp hf
    exact hwatch _ _ _ (h.log e (List.mem_filter.mp he).1)
  · rw [List.mem_singleton.mp hf]
    exact hsync _ _ _
  · obtain ⟨kv, hkv, rfl⟩ := List.mem_map.mp hf
    obtain ⟨entry, hget, -, heq⟩ := mem_prefixEntries_iff.mp hkv
    have hvalue : kv.value = entry.value := by rw [heq]
    refine hwatch _ _ _ ?_
    rw [hvalue]
    exact h.kvs kv.key entry hget
  · rw [List.mem_singleton.mp hf]
    exact hsync _ _ _

variable (hwatch : ∀ id kind kv, P kv.key kv.value → Q (.watch id kind kv))

include hwatch

theorem Passes.mutates (h : Passes P Q (s, out)) (hm : Mutates net s out e s' out')
    (he : P e.key e.value) : Passes P Q (s', out') := by
  refine ⟨h.holds.mutates hm he, ?_⟩
  have hout : out' = (notifyWatchers net (kindOf e.isPut) ⟨e.key, e.value, e.leaseId, e.rev⟩
      s.watchers out).2 := congrArg Prod.snd hm.fanout
  rw [hout]
  exact h.frames.fanout net _ _ _ fun w _ => hwatch _ _ _ he

theorem Passes.expireKey (h : Passes P Q r) (leaseId : LeaseId) (key : Bytes) :
    Passes P Q (expireKey net leaseId r key) := by
  cases hkey : r.1.kvs[key]? with
  | none =>
    simp only [DynamoCpp.Discovery.expireKey, hkey]
    exact h
  | some entry =>
    exact h.mutates hwatch (expireKey_mutates net r.1 r.2 key leaseId hkey)
      (h.holds.kvs key entry hkey)

theorem Passes.expireLeaseLocked (h : Passes P Q (s, out)) (net : Net) (leaseId : LeaseId) :
    Passes P Q (expireLeaseLocked net s out leaseId) := by
  have hloop : ∀ (keys : List Bytes) (r : Server × List Write), Passes P Q r →
      Passes P Q (keys.foldl (DynamoCpp.Discovery.expireKey net leaseId) r) := by
    intro keys
    induction keys with
    | nil => exact fun r hr => hr
    | cons key keys ih => exact fun r hr => ih _ (hr.expireKey hwatch leaseId key)
  unfold DynamoCpp.Discovery.expireLeaseLocked
  split
  · exact h
  · next record _ => exact (hloop record.keys (s, out) h).congr rfl rfl

theorem Passes.kvCall (h : s.Holds P) (net : Net) (now : Int) (c : ConnId) (req : Nat)
    (call : KvCall) (hcall : P call.key call.value) :
    Passes P Q ((handleOp net now s c req call.request).server,
      (handleOp net now s c req call.request).out) := by
  rcases call.handled net now s c req with ⟨⟨hserver, hout⟩, -⟩ | ⟨s₁, hsame, hserver, hout⟩
  · rw [hserver, hout]
    exact .start h
  · rw [hserver, hout]
    exact ((start h).congr hsame.kvs hsame.eventLog).mutates hwatch
      (storeKey_mutates net s₁ [] _ _ _) hcall

variable (hsync : ∀ id mode rev, Q (.sync id mode rev))

include hsync

theorem allFrames_readOnly (h : s.Holds P) (net : Net) (now : Int) (c : ConnId) (req : Nat)
    {r : Request} (hevent : ∀ subject, r.subject? = some subject → ∀ id data,
      Q (.event id subject data)) (hop : r.isStoreOp = false) :
    AllFrames Q (handleOp net now s c req r).out := by
  match r with
  | .getPrefix _ | .unwatch _ | .subscribe _ _ | .unsubscribe _ | .unknown _ => exact .nil
  | .watch pre watchId fromRev =>
    obtain ⟨new, hnew, hframes, -⟩ := writeAll_eq net c (watchFrames s pre watchId fromRev) []
    have hout : (handleOp net now s c req (.watch pre watchId fromRev)).out = [] ++ new := hnew
    rw [hout, List.nil_append]
    intro x hx
    refine isWatchFrames h hwatch hsync pre watchId fromRev x.frame ?_
    rw [← hframes]
    exact List.mem_map_of_mem hx
  | .publish subject data =>
    exact AllFrames.nil.fanout net _ _ _ fun e _ => hevent subject rfl e.id data
  | .queueDispatch subject data =>
    have hloop := fun matching n cursor => AllFrames.dispatchLoop net
      (fun id => hevent subject rfl id data) matching n (d := ⟨false, cursor, [], []⟩) .nil
    simp only [handleOp, queueDispatch]
    split <;> exact hloop _ _ _

/-- An operation passes on what it is given and what is there. -/
theorem handleOp_passes (h : s.Holds P) (net : Net) (now : Int) (c : ConnId) (req : Nat)
    {r : Request} (hpair : ∀ p, r.pair? = some p → P p.1 p.2)
    (hevent : ∀ subject, r.subject? = some subject → ∀ id data, Q (.event id subject data)) :
    Passes P Q ((handleOp net now s c req r).server, (handleOp net now s c req r).out) := by
  cases hop : r.isStoreOp with
  | false =>
    obtain ⟨hkvs, -, hlog⟩ := handleOp_readOnly net now s c req r hop
    exact ⟨h.congr hkvs hlog, allFrames_readOnly hwatch hsync h net now c req hevent hop⟩
  | true =>
    match r with
    | .createLease ttl => exact (Passes.start h).congr rfl rfl
    | .keepalive leaseId =>
      show Passes P Q ((keepalive now s req leaseId).server, (keepalive now s req leaseId).out)
      unfold keepalive
      split <;> exact (Passes.start h).congr rfl rfl
    | .revoke leaseId => exact (Passes.start h).expireLeaseLocked hwatch net leaseId
    | .kvCreate key value leaseId =>
      exact .kvCall hwatch h net now c req ⟨.create, key, value, some leaseId⟩ (hpair _ rfl)
    | .kvPut key value leaseId =>
      exact .kvCall hwatch h net now c req ⟨.put, key, value, some leaseId⟩ (hpair _ rfl)
    | .kvCreateOrValidate key value leaseId =>
      exact .kvCall hwatch h net now c req ⟨.createOrValidate, key, value, some leaseId⟩
        (hpair _ rfl)

end operations

/-! ## At a watching client -/

/-- The pair of a watch frame has the property. -/
def Frame.Carries (P : Bytes → Bytes → Prop) : Frame → Prop
  | .watch _ _ kv => P kv.key kv.value
  | _ => True

/-- What other clients write in the move has the property. -/
def Move.Carries (P : Bytes → Bytes → Prop) : Move → Prop
  | .request _ _ _ _ r => ∀ p, r.pair? = some p → P p.1 p.2
  | _ => True

/-- The pairs at the server, on their way and in the puts that were sent to the sink. -/
structure World.Carries (P : Bytes → Bytes → Prop) (w : World) : Prop where
  server : w.server.Holds P
  inbox  : ∀ lk, w.link = some lk → ∀ f ∈ lk.inbox, f.Carries P
  sink   : ∀ e ∈ w.sink, e.kind = .put → P e.kv.key e.kv.value

namespace World.Carries

variable {P : Bytes → Bytes → Prop} {w w' : World}

theorem handleRequest {s : Server} (h : s.Holds P) (net : Net) (now : Int) (c : ConnId)
    (req : Nat) {r : Request} (hpair : ∀ p, r.pair? = some p → P p.1 p.2) :
    Passes P (Frame.Carries P) (handleRequest net now s c req r) := by
  have hop : Passes P (Frame.Carries P)
      ((handleOp net now s c req r).server, (handleOp net now s c req r).out) :=
    handleOp_passes (fun _ _ _ hkv => hkv) (fun _ _ _ => trivial) h net now c req hpair
      fun _ _ _ _ => trivial
  exact ⟨hop.holds, hop.frames.write net c trivial⟩

theorem serverStep (h : w.Carries P) {r : Server × List Write}
    (hr : Passes P (Frame.Carries P) r) : (w.serverStep r).Carries P where
  server := hr.holds
  inbox := by
    intro lk' hlk' f hf
    obtain ⟨lk, hlink, hreceive⟩ := Option.bind_eq_some_iff.mp hlk'
    obtain ⟨-, heq⟩ := Option.ite_none_right_eq_some.mp hreceive
    rw [← Option.some.inj heq] at hf
    rcases List.mem_append.mp hf with hf | hf
    · exact h.inbox lk hlink f hf
    · obtain ⟨x, hx, rfl⟩ := List.mem_map.mp hf
      exact hr.frames x (List.mem_filter.mp hx).1
  sink := h.sink

/-- A put reaches the sink only as a frame; the deletes of a resync are the client's own. -/
theorem routed {record : WatchRecord} {f : Frame} (hf : f.Carries P) :
    ∀ e ∈ (routeWatchFrame record f).2, e.kind = .put → P e.kv.key e.kv.value := by
  intro e he hput
  match f with
  | .sync _ mode _ =>
    simp only [routeWatchFrame] at he
    by_cases hsync : record.syncing = false
    · rw [if_pos hsync] at he
      cases he
    · rw [if_neg hsync] at he
      cases mode with
      | snapshot =>
        obtain ⟨k, -, rfl⟩ := List.mem_map.mp he
        cases hput
      | replay => cases he
  | .watch _ .put kv =>
    rw [List.mem_singleton.mp he]
    exact hf
  | .watch _ .delete kv =>
    rw [List.mem_singleton.mp he] at hput
    cases hput
  | .event .. | .reply .. => cases he

theorem read (h : w.Carries P) {lk : Link} {f : Frame} {rest : List Frame} (id : Nat)
    (hlink : w.link = some lk) (hinbox : lk.inbox = f :: rest) :
    (w.read id lk f rest).Carries P := by
  have hframes : ∀ g ∈ f :: rest, g.Carries P := hinbox ▸ h.inbox lk hlink
  have hrest : ∀ lk', some { lk with inbox := rest } = some lk' → ∀ g ∈ lk'.inbox, g.Carries P := by
    intro lk' hlk' g hg
    rw [← Option.some.inj hlk'] at hg
    exact hframes g (List.mem_cons_of_mem _ hg)
  unfold World.read
  split
  · refine ⟨h.server, hrest, fun e he => ?_⟩
    rcases List.mem_append.mp he with he | he
    · exact h.sink e he
    · exact routed (hframes f List.mem_cons_self) e he
  · exact ⟨h.server, hrest, h.sink⟩

theorem step (h : w.Carries P) {id : Nat} {l : Move} (hl : l.Carries P)
    (hexec : Move.exec id w l = some w') : w'.Carries P := by
  cases moved_of_exec hexec with
  | @request net now c req r _ _ =>
    exact h.serverStep (handleRequest h.server net now c req hl)
  | @expire net now leaseId _ =>
    exact h.serverStep ((Passes.start h.server).expireLeaseLocked (fun _ _ _ hkv => hkv) net
      leaseId)
  | accept => exact ⟨h.server.congr rfl rfl, h.inbox, h.sink⟩
  | close =>
    refine ⟨h.server.congr rfl rfl, fun lk hlk => ?_, h.sink⟩
    exact h.inbox lk (Option.filter_eq_some_iff.mp hlk).1
  | reconnect hlink =>
    refine ⟨h.server.congr rfl rfl, ?_, h.sink⟩
    intro lk hlk f hf
    rw [← Option.some.inj hlk] at hf
    cases hf
  | @serve net now req lk fromRev hlink hreq =>
    have hasked : World.Carries P { w with link := some { lk with request := none } } := by
      refine ⟨h.server, ?_, h.sink⟩
      intro lk' hlk' f hf
      rw [← Option.some.inj hlk'] at hf
      exact h.inbox lk hlink f hf
    exact hasked.serverStep (handleRequest h.server net now lk.conn req fun p hp => by cases hp)
  | deliver hlink hinbox => exact h.read id hlink hinbox
  | drop hlink => exact ⟨h.server, (fun _ hlk => by cases hlk), h.sink⟩

end World.Carries

/-! ## In process -/

namespace InProcess

/-- The pair that a section writes. -/
def Section.pair? : Section → Option (Bytes × Bytes)
  | .kvCreate key value _ | .kvPut key value _ => some (key, value)
  | _ => none

def WatchStep.Carries (P : Bytes → Bytes → Prop) : WatchStep → Prop
  | .locked op _ _ => ∀ p, op.pair? = some p → P p.1 p.2
  | _ => True

/-- A revocation collects deletes. -/
theorem collectDelete_kind (keys : List Bytes) :
    ∀ (r : OrdMap Bytes KeyValue × List WatchEvent), (∀ e ∈ r.2, e.kind = .delete) →
      ∀ e ∈ (keys.foldl collectDelete r).2, e.kind = .delete := by
  induction keys with
  | nil => exact fun _ h => h
  | cons key keys ih =>
    intro r h
    refine ih (collectDelete r key) ?_
    unfold collectDelete
    split
    · exact h
    · intro e he
      rcases List.mem_append.mp he with he | he
      · exact h e he
      · rw [List.mem_singleton.mp he]

theorem Section.mutations_carry {P : Bytes → Bytes → Prop} {op : Section}
    (hop : ∀ p, op.pair? = some p → P p.1 p.2) (s : Store) :
    ∀ e ∈ op.mutations s, e.kind = .put → P e.kv.key e.kv.value := by
  intro e he hput
  match op with
  | .makeLease | .validate _ _ => cases he
  | .revokeLease leaseId =>
    have hdelete := collectDelete_kind _ (s.kvs, []) (by simp) e he
    rw [hput] at hdelete
    cases hdelete
  | .kvCreate key value leaseId | .kvPut key value leaseId =>
    simp only [mutations] at he
    split at he
    · cases he
    · rw [List.mem_singleton.mp he]
      exact hop _ rfl

/-- The pairs in the mutations and in the snapshots that were taken. -/
structure WatchedStore.Carries (P : Bytes → Bytes → Prop) (w : WatchedStore) : Prop where
  mutations : ∀ e ∈ w.mutations, e.kind = .put → P e.kv.key e.kv.value
  snapshots : ∀ c, ∀ e ∈ w.snapshot c, P e.kv.key e.kv.value

namespace WatchedStore.Carries

variable {P : Bytes → Bytes → Prop} {w w' : WatchedStore}

theorem init : WatchedStore.Carries P {} where
  mutations := by simp
  snapshots := by simp

/-- What is in the store was put. -/
theorem stored (h : w.Carries P) (hw : Following w) {k : Bytes} {kv : KeyValue}
    (hkv : w.store.kvs[k]? = some kv) : P kv.key kv.value := by
  have hfolded : folded w.mutations k = some kv := by
    rw [← hw.logged]
    exact hkv
  rcases EventLog.exists_event_of_replay _ _ hfolded with ⟨change, hchange, -, himg⟩ | hnone
  · obtain ⟨e, he, rfl⟩ := List.mem_map.mp hchange
    obtain ⟨hput, hsome⟩ := Option.ite_none_right_eq_some.mp himg
    rw [← Option.some.inj hsome]
    exact h.mutations e he hput
  · cases hnone

theorem step (h : w.Carries P) (hw : Following w) {step : WatchStep} (hstep : step.Carries P)
    (hexec : watchedStore.exec w step = some w') : w'.Carries P := by
  cases step with
  | locked op net closing =>
    obtain ⟨-, rfl⟩ := enabled hexec
    refine ⟨fun e he => ?_, h.snapshots⟩
    rcases List.mem_append.mp he with he | he
    · exact h.mutations e he
    · exact Section.mutations_carry hstep w.store e he
  | watch pre =>
    cases hexec
    refine ⟨h.mutations, fun c e he => ?_⟩
    simp only [watch, Function.update_apply] at he
    split at he
    · obtain ⟨kv, hkv, rfl⟩ := List.mem_map.mp he
      exact h.stored hw ((mem_kvGetPrefix hw.keyed pre kv).mp hkv).1
    · exact h.snapshots c e he
  | close sink =>
    cases hexec
    exact ⟨h.mutations, h.snapshots⟩

/-- The puts that an open channel has got. -/
theorem received (h : w.Carries P) {c : Nat} (hc : Followed w c) :
    ∀ e ∈ w.received c, e.kind = .put → P e.kv.key e.kv.value := by
  intro e he hput
  rw [hc.received] at he
  rcases List.mem_append.mp he with he | he
  · exact h.snapshots c e he
  · exact h.mutations e (List.mem_of_mem_drop (List.mem_filter.mp he).1) hput

end WatchedStore.Carries

end InProcess

end DynamoCpp.Discovery
