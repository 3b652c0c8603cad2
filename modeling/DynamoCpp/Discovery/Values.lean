import DynamoCpp.Discovery.Contents
import DynamoCpp.Discovery.Wire

/-! # Stored values on the wire

    discoveryd with the encoding of its messages.  A key has come in a header, so it is UTF-8
    and every header that names it can be written again.  A value has come as data and may be
    anything; the headers of watch events leave it out, but the reply to `get_prefix` holds it
    as a string, and if `dump` throws there, the exception ends the connection.
-/

namespace DynamoCpp.Discovery

open Framework

/-! ## Serving a message -/

/-- One turn of the loop of `serve_discovery_connection`: the new state and the reply that was
    written.  An exception ends the connection.  The frames an operation writes before its
    reply can always be encoded (`handleOp_clean`). -/
def serve (codec : TextCodec FieldName) (net : Net) (now : Int) (s : Server) (c : ConnId)
    (header : Header) (data : Bytes) : Server × Option Reply :=
  match Request.ofMessage header data with
  | none => (closeConn s c, none)
  | some (req, r) =>
    let o := handleOp net now s c req r
    if (codec.dump o.reply.header).isSome then
      (o.server, if net o.out.length then some o.reply else none)
    else (closeConn o.server c, none)

/-- The process, with clients that send their requests as messages. -/
def wired (codec : TextCodec FieldName) (limit : UInt64) : System Server Step where
  init := {}
  exec s
    | .request net now c req r =>
      if c ∈ s.conns ∧ r.isKnown = true then
        (transmit codec limit (r.header req) r.data).map fun m =>
          (serve codec net now s c m.1 m.2).1
      else none
    | l => Step.exec s l

/-- `request`: the header of the reply.  Otherwise it throws, because the header of the
    request cannot be written or because the connection is lost. -/
def answer (codec : TextCodec FieldName) (limit : UInt64) (net : Net) (now : Int) (s : Server)
    (c : ConnId) (req : Nat) (r : Request) : Option Header := do
  let m ← transmit codec limit (r.header req) r.data
  let reply ← (serve codec net now s c m.1 m.2).2
  let m ← transmit codec limit reply.header []
  some m.1

/-- `TcpDiscovery::kv_get_prefix`. -/
def kvGetPrefix (codec : TextCodec FieldName) (limit : UInt64) (net : Net) (now : Int)
    (s : Server) (c : ConnId) (req : Nat) (pre : Bytes) : Option (List KeyValue) :=
  (answer codec limit net now s c req (.getPrefix pre)).bind Header.kvs?

/-- The client's operation returns normally. -/
def KvCall.succeeds (codec : TextCodec FieldName) (limit : UInt64) (net : Net) (now : Int)
    (s : Server) (c : ConnId) (req : Nat) (call : KvCall) : Bool :=
  (answer codec limit net now s c req call.request).any Header.isOk

/-! ## Keys and frames are texts -/

/-- The keys of the store and of the log are UTF-8. -/
abbrev Server.Textual (s : Server) : Prop := s.Holds fun key _ => IsUtf8 key

theorem isText_watch (id : Nat) (kind : WatchKind) (kv : KeyValue) :
    IsText (Frame.watch id kind kv).header ↔ IsUtf8 kv.key := by
  have hkind : IsUtf8 kind.bytes := by cases kind <;> decide
  simp [Frame.header, hkind]

theorem isText_sync (id : Nat) (mode : SyncMode) (rev : Nat) :
    IsText (Frame.sync id mode rev).header := by
  have hsync : IsUtf8 (str "sync") := by decide
  have hmode : IsUtf8 mode.bytes := by cases mode <;> decide
  simp [Frame.header, hsync, hmode]

theorem isText_event (id : Nat) (subject data : Bytes) :
    IsText (Frame.event id subject data).header ↔ IsUtf8 subject := by
  simp [Frame.header]

/-- The keys are texts, and so are the frames written so far. -/
abbrev Clean : Server × List Write → Prop :=
  Passes (fun key _ => IsUtf8 key) fun f => IsText f.header

/-- An operation of a client writes texts only, up to its reply. -/
theorem handleOp_clean {s : Server} (h : s.Textual) (net : Net) (now : Int) (c : ConnId)
    (req : Nat) {r : Request} (hr : ∀ t ∈ r.texts, IsUtf8 t) :
    Clean ((handleOp net now s c req r).server, (handleOp net now s c req r).out) := by
  refine handleOp_passes (fun id kind kv => (isText_watch id kind kv).mpr) isText_sync h net now c
    req (fun p hp => hr p.1 ?_) fun subject hsubject id data =>
      (isText_event id subject data).mpr (hr subject ?_)
  · cases r with
    | kvCreate | kvPut | kvCreateOrValidate =>
      cases hp
      exact List.mem_cons_self
    | _ => cases hp
  · cases r with
    | publish | queueDispatch =>
      cases hsubject
      exact List.mem_cons_self
    | _ => cases hsubject

/-! ## The process -/

section process

variable {codec : TextCodec FieldName} {limit : UInt64}

theorem serve_header (codec : TextCodec FieldName) (net : Net) (now : Int) (s : Server)
    (c : ConnId) (req : Nat) {r : Request} (h : r.isKnown = true) :
    serve codec net now s c (r.header req) r.data =
      if (codec.dump (handleOp net now s c req r).reply.header).isSome then
        ((handleOp net now s c req r).server,
          if net (handleOp net now s c req r).out.length then
            some (handleOp net now s c req r).reply else none)
      else (closeConn (handleOp net now s c req r).server c, none) := by
  rw [serve, Request.ofMessage_header req r h]

/-- What a step of the process can do. -/
theorem wired_cases {s s' : Server} {l : Step} (h : (wired codec limit).exec s l = some s') :
    (∃ net now c req r, l = .request net now c req r ∧ c ∈ s.conns ∧
        (∀ t ∈ r.texts, IsUtf8 t) ∧
        (s' = (handleOp net now s c req r).server ∨
          s' = closeConn (handleOp net now s c req r).server c)) ∨
      discoveryd.exec s l = some s' ∧ ∀ net now c req r, l ≠ .request net now c req r := by
  cases l with
  | request net now c req r =>
    simp only [wired, Option.ite_none_right_eq_some, Option.map_eq_some_iff] at h
    obtain ⟨⟨hc, hknown⟩, m, hm, rfl⟩ := h
    obtain ⟨rfl, htext, -⟩ := transmit_eq hm
    refine .inl ⟨net, now, c, req, r, rfl, hc, (Request.isText_header req r).mp htext, ?_⟩
    rw [serve_header codec net now s c req hknown]
    split
    · exact .inl rfl
    · exact .inr rfl
  | accept | close | expire => exact .inr ⟨h, fun _ _ _ _ _ => Step.noConfusion⟩

theorem handleOp_conns (net : Net) (now : Int) (s : Server) (c : ConnId) (req : Nat)
    (r : Request) : (handleOp net now s c req r).server.conns = s.conns := by
  cases hop : r.isStoreOp with
  | true =>
    obtain ⟨es, hes⟩ := handleOp_advances net now s c req r hop
    exact hes.sameConns.conns
  | false =>
    match r with
    | .queueDispatch subject data =>
      simp only [handleOp, queueDispatch]
      split <;> rfl
    | .getPrefix _ | .watch _ _ _ | .unwatch _ | .subscribe _ _ | .unsubscribe _ | .publish _ _
    | .unknown _ => rfl

/-- With or without the encoding, the process goes through the same states. -/
theorem reachable_of_wired {s : Server} (hs : (wired codec limit).Reachable s) :
    discoveryd.Reachable s := by
  refine hs.invariant .init fun s l s' hs h => ?_
  rcases wired_cases h with ⟨net, now, c, req, r, -, hc, -, rfl | rfl⟩ | ⟨hexec, -⟩
  · exact .step (.request net now c req r) hs (if_pos hc)
  · -- an exception: the request, and then the end of its connection
    have hrequest : discoveryd.Reachable (handleOp net now s c req r).server :=
      .step (.request net now c req r) hs (if_pos hc)
    have hopen : c ∈ (handleOp net now s c req r).server.conns := by
      rw [handleOp_conns]
      exact hc
    exact .step (.close c) hrequest (if_pos hopen)
  · exact .step l hs hexec

theorem textual_of_wired {s : Server} (hs : (wired codec limit).Reachable s) : s.Textual := by
  refine hs.invariant .init fun s l s' hs h => ?_
  rcases wired_cases h with ⟨net, now, c, req, r, -, -, htexts, rfl | rfl⟩ | ⟨hexec, hne⟩
  · exact (handleOp_clean hs net now c req htexts).holds
  · exact (handleOp_clean hs net now c req htexts).holds.congr rfl rfl
  · rcases step_cases hexec with ⟨-, rfl⟩ | ⟨net, now, c, req, r, rfl, -, -⟩ | ⟨c, -, -, rfl⟩ |
      ⟨net, now, leaseId, -, -, rfl⟩
    · exact hs.congr rfl rfl
    · exact absurd rfl (hne net now c req r)
    · exact hs.congr rfl rfl
    · have hclean : Clean (expireLeaseLocked net s [] leaseId) :=
        (Passes.start hs).expireLeaseLocked (fun id kind kv => (isText_watch id kind kv).mpr)
          net leaseId
      exact hclean.holds

/-- A client that gets a positive reply has had its request handled. -/
theorem answer_eq {net : Net} {now : Int} {s : Server} {c : ConnId} {req : Nat} {r : Request}
    {header : Header} (hknown : r.isKnown = true)
    (h : answer codec limit net now s c req r = some header) :
    header = (handleOp net now s c req r).reply.header ∧
      IsText (r.header req) ∧ Fits codec limit (r.header req) r.data ∧
      IsText header ∧ Fits codec limit header [] := by
  simp only [answer, Option.bind_eq_bind, Option.bind_eq_some_iff] at h
  obtain ⟨m, hm, reply, hreply, m', hm', heq⟩ := h
  obtain ⟨rfl, htext, hfits⟩ := transmit_eq hm
  obtain ⟨rfl, htext', hfits'⟩ := transmit_eq hm'
  cases heq
  rw [serve_header codec net now s c req hknown] at hreply
  split at hreply
  · obtain ⟨-, hreply⟩ := Option.ite_none_right_eq_some.mp hreply
    cases hreply
    exact ⟨rfl, htext, hfits, htext', hfits'⟩
  · cases hreply

theorem answer_of {net : Net} {now : Int} {s : Server} {c : ConnId} {req : Nat} {r : Request}
    (hknown : r.isKnown = true) (hnet : net (handleOp net now s c req r).out.length = true)
    (htext : IsText (r.header req)) (hfits : Fits codec limit (r.header req) r.data)
    (htext' : IsText (handleOp net now s c req r).reply.header)
    (hfits' : Fits codec limit (handleOp net now s c req r).reply.header []) :
    answer codec limit net now s c req r =
      some (handleOp net now s c req r).reply.header := by
  have hserve := serve_header codec net now s c req hknown
  rw [if_pos ((codec.dump_isSome _).mpr htext'), if_pos hnet] at hserve
  simp only [answer, transmit_of htext hfits, Option.bind_eq_bind, Option.bind_some, hserve,
    transmit_of htext' hfits']

/-! ## Reading a value back -/

/-- Of a watch frame that is within the limit, the client reads what the server wrote. -/
def Arrives (codec : TextCodec FieldName) (limit : UInt64) (f : Frame) : Prop :=
  Fits codec limit f.header f.data →
    (transmit codec limit f.header f.data).bind (fun m => Frame.ofWatch m.1 m.2) = some f

theorem arrives_watch {kv : KeyValue} (hkey : IsUtf8 kv.key) (id : Nat) (kind : WatchKind) :
    Arrives codec limit (.watch id kind kv) := by
  intro hfits
  rw [transmit_of ((isText_watch id kind kv).mpr hkey) hfits, Option.bind_some]
  exact Frame.ofWatch_watch id kind kv

theorem KvCall.isKnown_request (call : KvCall) : call.request.isKnown = true := by
  obtain ⟨kind, key, value, leaseId⟩ := call
  cases kind <;> rfl

/-- A write that succeeds stores the value and shows it to every watcher of the key. -/
theorem KvCall.stored {call : KvCall} (hkind : call.kind ≠ .createOrValidate) {net : Net}
    {now : Int} {s s' : Server} {c : ConnId} {req : Nat}
    (hok : call.succeeds codec limit net now s c req = true)
    (hstep : (wired codec limit).exec s (.request net now c req call.request) = some s') :
    ∃ entry : Entry, s'.kvs[call.key]? = some entry ∧ entry.value = call.value ∧
      ∀ w ∈ s.watchers, w.pre <+: call.key →
        ∃ x ∈ (handleOp net now s c req call.request).out, x.conn = w.conn ∧
          x.frame = .watch w.id .put ⟨call.key, call.value, entry.leaseId, entry.modRevision⟩ := by
  obtain ⟨header, hanswer, hpositive⟩ := (Option.any_eq_true ..).mp hok
  obtain ⟨rfl, -⟩ := answer_eq call.isKnown_request hanswer
  rw [Header.isOk_header] at hpositive
  rcases call.handled net now s c req with ⟨-, hnot⟩ | ⟨s₁, hsame, hserver, hout⟩
  · exact absurd (hnot hpositive) hkind
  · have hkvs : s'.kvs = (handleOp net now s c req call.request).server.kvs := by
      rcases wired_cases hstep with ⟨net', now', c', req', r', hl, -, -, rfl | rfl⟩ | ⟨-, hne⟩
      · cases hl
        rfl
      · cases hl
        rfl
      · exact absurd rfl (hne net now c req call.request)
    refine ⟨⟨call.value, call.leaseId.getD 0, s₁.revision + 1⟩, ?_, rfl, ?_⟩
    · rw [hkvs, hserver]
      exact Std.ExtTreeMap.getElem?_insert_self
    · intro w hw hpre
      rw [hout]
      rw [← hsame.watchers] at hw
      exact mem_fanout net _ _ _ hw (decide_eq_true hpre) []

/-- The reply to `get_prefix` can be written exactly if all values are UTF-8. -/
theorem isText_getPrefix {s : Server} (h : s.Textual) (req : Nat) (pre : Bytes) :
    IsText (getPrefix s req pre).reply.header ↔
      ∀ kv ∈ prefixEntries s pre, IsUtf8 kv.value := by
  have hkey : ∀ kv ∈ prefixEntries s pre, IsUtf8 kv.key := by
    intro kv hkv
    obtain ⟨entry, hget, -, -⟩ := mem_prefixEntries_iff.mp hkv
    exact h.kvs kv.key entry hget
  rw [isText_reply]
  constructor
  · intro htext kv hkv
    exact (htext.1 _ rfl kv hkv).2
  · intro hvalues
    refine ⟨fun kvs hkvs kv hkv => ?_, fun e he => by cases he⟩
    cases hkvs
    exact ⟨hkey kv hkv, hvalues kv hkv⟩

/-- **Reading a value back.**  After `kv_create` or `kv_put` has succeeded and as long as the
    key is left alone, every watch delivers the value as it was given, to watchers that were
    there before and to those that come later.  `kv_get_prefix` returns it exactly if the
    prefix and all values under it are UTF-8 and the messages are within the frame limit. -/
theorem values_readable_iff (codec : TextCodec FieldName) (limit : UInt64) {s s₁ s₂ : Server}
    (hs : (wired codec limit).Reachable s) {call : KvCall} (hkind : call.kind ≠ .createOrValidate)
    {net : Net} {now : Int} {c : ConnId} {req : Nat}
    (hok : call.succeeds codec limit net now s c req = true)
    (hstep : (wired codec limit).exec s (.request net now c req call.request) = some s₁)
    (steps : List Step) (hrun : (wired codec limit).runFrom s₁ steps = some s₂)
    (hkept : s₂.kvs[call.key]? = s₁.kvs[call.key]?) {pre : Bytes} (hpre : pre <+: call.key) :
    (∀ w ∈ s.watchers, w.pre <+: call.key → ∃ kv : KeyValue,
      kv.key = call.key ∧ kv.value = call.value ∧
      (∃ x ∈ (handleOp net now s c req call.request).out, x.conn = w.conn ∧
        x.frame = .watch w.id .put kv) ∧ Arrives codec limit (.watch w.id .put kv)) ∧
    (∀ watchId : Nat, ∃ kv : KeyValue, kv.key = call.key ∧ kv.value = call.value ∧
      .watch watchId .put kv ∈ watchFrames s₂ pre watchId (-1) ∧
      Arrives codec limit (.watch watchId .put kv)) ∧
    ∀ (net' : Net) (now' : Int) (c' : ConnId) (req' : Nat), net' 0 = true →
      ((∃ kvs, kvGetPrefix codec limit net' now' s₂ c' req' pre = some kvs ∧
          (∃ kv ∈ kvs, kv.key = call.key) ∧
          ∀ kv ∈ kvs, kv.key = call.key → kv.value = call.value) ↔
        IsUtf8 pre ∧ (∀ kv ∈ prefixEntries s₂ pre, IsUtf8 kv.value) ∧
          Fits codec limit (Request.header req' (.getPrefix pre)) [] ∧
          Fits codec limit (getPrefix s₂ req' pre).reply.header []) := by
  obtain ⟨entry, hstored, hvalue, hwatchers⟩ := KvCall.stored hkind hok hstep
  have htextual : s₂.Textual := textual_of_wired ((hs.step _ hstep).of_runFrom hrun)
  have hentry : s₂.kvs[call.key]? = some entry := hkept.trans hstored
  have hkey : IsUtf8 call.key := htextual.kvs call.key entry hentry
  -- what is under the key in the snapshot
  have hmem : (⟨call.key, call.value, entry.leaseId, entry.modRevision⟩ : KeyValue) ∈
      prefixEntries s₂ pre := mem_prefixEntries_iff.mpr ⟨entry, hentry, hpre, by rw [hvalue]⟩
  have honly : ∀ kv ∈ prefixEntries s₂ pre, kv.key = call.key → kv.value = call.value := by
    intro kv hkv hk
    obtain ⟨entry', hget, -, heq⟩ := mem_prefixEntries_iff.mp hkv
    rw [hk, hentry] at hget
    cases hget
    rw [heq]
    exact hvalue
  refine ⟨fun w hw hw' => ⟨_, rfl, rfl, hwatchers w hw hw', arrives_watch hkey _ _⟩,
    fun watchId => ⟨⟨call.key, call.value, entry.leaseId, entry.modRevision⟩, rfl, rfl, ?_,
      arrives_watch hkey _ _⟩, ?_⟩
  · have hsnapshot : ¬ ((-1 : Int) ≥ 0 ∧ canReplayFrom s₂ (-1) = true) := fun h => by omega
    exact List.mem_append_left _ (List.mem_map_of_mem hmem)
  · intro net' now' c' req' hnet
    have hrequest : IsText (Request.header req' (.getPrefix pre)) ↔ IsUtf8 pre := by
      rw [Request.isText_header]
      exact List.forall_mem_singleton
    constructor
    · rintro ⟨kvs, hkvs, -⟩
      obtain ⟨header, hanswer, -⟩ := Option.bind_eq_some_iff.mp hkvs
      obtain ⟨rfl, htext, hfits, htext', hfits'⟩ := answer_eq rfl hanswer
      exact ⟨hrequest.mp htext, (isText_getPrefix htextual req' pre).mp htext', hfits, hfits'⟩
    · rintro ⟨hutf8, hvalues, hfits, hfits'⟩
      have hanswer := @answer_of codec limit net' now' s₂ c' req' (.getPrefix pre) rfl hnet
        (hrequest.mpr hutf8) hfits ((isText_getPrefix htextual req' pre).mpr hvalues) hfits'
      refine ⟨prefixEntries s₂ pre, ?_, ⟨_, hmem, rfl⟩, honly⟩
      rw [kvGetPrefix, hanswer, Option.bind_some, Header.kvs?_header]
      rfl

end process

/-- A code for the names of fields, for examples: the names in JSON are other texts. -/
def FieldName.code : Code FieldName :=
  Code.nat.map
    (fun
      | .op => 0 | .req => 1 | .ttl => 2 | .leaseId => 3 | .key => 4 | .pre => 5 | .watchId => 6
      | .fromRev => 7 | .subId => 8 | .subject => 9 | .reply => 10 | .ok => 11 | .error => 12
      | .kvs => 13 | .value => 14 | .rev => 15 | .revision => 16 | .watch => 17 | .kind => 18
      | .mode => 19 | .event => 20)
    (fun
      | 0 => .op | 1 => .req | 2 => .ttl | 3 => .leaseId | 4 => .key | 5 => .pre | 6 => .watchId
      | 7 => .fromRev | 8 => .subId | 9 => .subject | 10 => .reply | 11 => .ok | 12 => .error
      | 13 => .kvs | 14 => .value | 15 => .rev | 16 => .revision | 17 => .watch | 18 => .kind
      | 19 => .mode | _ => .event)
    (fun name => by cases name <;> rfl)

/-- The default frame limit. -/
def defaultLimit : UInt64 := 256 * 1024 * 1024

/-- A client connects and puts a value. -/
def putValue (value : Bytes) : KvCall := ⟨.put, str "k", value, none⟩

/-- discoveryd after a client has put a value. -/
def withValue (value : Bytes) : Option Server :=
  (wired FieldName.code.textCodec defaultLimit).run
    [.accept, .request (fun _ => true) 0 0 1 (putValue value).request]

theorem text_value_read :
    ∃ s kvs, withValue (str "v") = some s ∧
      kvGetPrefix FieldName.code.textCodec defaultLimit (fun _ => true) 0 s 0 2 (str "k") =
        some kvs ∧
      (∃ kv ∈ kvs, kv.key = str "k") ∧ ∀ kv ∈ kvs, kv.key = str "k" → kv.value = str "v" := by
  have hstep : (wired FieldName.code.textCodec defaultLimit).exec (acceptConn {})
      (.request (fun _ => true) 0 0 1 (putValue (str "v")).request) = some _ := rfl
  obtain ⟨kvs, hkvs⟩ := ((values_readable_iff FieldName.code.textCodec defaultLimit
    (.step .accept .init rfl) (by decide) (by decide +kernel) hstep [] rfl rfl
    (List.prefix_refl (str "k"))).2.2 (fun _ => true) 0 0 2 rfl).mpr
      ⟨by decide +kernel, by decide +kernel, by decide +kernel, by decide +kernel⟩
  exact ⟨_, kvs, rfl, hkvs⟩

theorem withValue_reachable :
    ∃ s, withValue (str "v") = some s ∧ discoveryd.Reachable s :=
  ⟨_, rfl, @reachable_of_wired FieldName.code.textCodec defaultLimit _
    (.step (.request (fun _ => true) 0 0 1 (putValue (str "v")).request)
      (.step .accept .init rfl) rfl)⟩

/-- A value that is not UTF-8 is put, and a watch shows it, but it cannot be read. -/
theorem bytes_value_unreadable :
    (putValue [0xff]).succeeds FieldName.code.textCodec defaultLimit (fun _ => true) 0
        (acceptConn {}) 0 1 = true ∧
      ∃ s, withValue [0xff] = some s ∧
        .watch 1 .put ⟨str "k", [0xff], 0, 1⟩ ∈ watchFrames s (str "k") 1 (-1) ∧
        kvGetPrefix FieldName.code.textCodec defaultLimit (fun _ => true) 0 s 0 2 (str "k") =
          none := by
  refine ⟨by decide +kernel, _, rfl, by decide +kernel, by decide +kernel⟩

end DynamoCpp.Discovery
