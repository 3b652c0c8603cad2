import DynamoCpp.Components.Endpoint
import DynamoCpp.Discovery.History
import Mathlib.Data.Set.Basic

/-! # Instance sources and client routing

    `serve_impl` registers an instance of an endpoint; `instance_source_impl`
    watches the key prefix of an endpoint and folds the watch events into the
    set of live instances; a `Client` routes each request to one of them.

    * **Registration**: the record an instance stores in discovery.
    * **Source**: the fold of `instance_watch_loop`.
    * **Client**: random, round-robin, direct and unary routing.
    * **Containment**: exactly when every request for an endpoint stays inside
      it, whatever the watch delivers.
-/

namespace DynamoCpp.Components

open Framework Discovery

/-! ## Registered instances -/

/-- What an instance stores in discovery. -/
structure EndpointInfo where
  namespaceName : Bytes
  component     : Bytes
  endpoint      : Bytes
  instanceId    : Int64 := 0
  transport     : Bytes := str "dyn-tcp"
  address       : Bytes
  subject       : Bytes
  description   : Bytes
  version       : Bytes
  deriving DecidableEq

/-- The JSON text of an `EndpointInfo`, as the JSON library writes and reads it.
    Writing fails on a string that is not UTF-8; what was written reads back. -/
structure InfoJson where
  dump       : EndpointInfo → Option Bytes
  parse      : Bytes → Option EndpointInfo
  parse_dump : ∀ {info text}, dump info = some text → parse text = some info

/-- The options of `serve` that reach the record. -/
structure ServeOptions where
  description : Bytes := []
  version     : Bytes := str "0.1.0"

/-- The record `serve_impl` builds for an instance. -/
def Endpoint.info (e : Endpoint) (leaseId : Int64) (address : Bytes) (options : ServeOptions) :
    EndpointInfo where
  namespaceName := e.component.ns.name.bytes
  component     := e.component.name.bytes
  endpoint      := e.name.bytes
  instanceId    := leaseId
  address       := address
  subject       := e.subjectFor leaseId
  description   :=
    if options.description = [] then
      str "dynamo-cpp endpoint " ++ e.component.path ++ str "." ++ e.name.bytes
    else options.description
  version       := options.version

/-- An instance that reached the `kv_create` of `serve_impl`. -/
structure Registration (json : InfoJson) where
  endpoint : Endpoint
  leaseId  : Int64
  address  : Bytes
  options  : ServeOptions := {}
  value    : Bytes
  dumped   : json.dump (endpoint.info leaseId address options) = some value

namespace Registration

variable {json : InfoJson}

def info (r : Registration json) : EndpointInfo :=
  r.endpoint.info r.leaseId r.address r.options

def key (r : Registration json) : Bytes := r.endpoint.instanceKey r.leaseId

/-- The request of `serve_impl` to discovery. -/
def request (r : Registration json) : Request := .kvCreate r.key r.value r.leaseId.toInt

theorem parse_value (r : Registration json) : json.parse r.value = some r.info :=
  json.parse_dump r.dumped

end Registration

/-! ## Instance sources -/

/-- `InstanceSource::State`: the live instances by key. -/
structure InstanceSource where
  instances : OrdMap Bytes EndpointInfo := ∅
  closed    : Bool := false

/-- One turn of `instance_watch_loop`; a put that does not parse is skipped. -/
def InstanceSource.fold (json : InfoJson) (s : InstanceSource) (ev : WatchEvent) :
    InstanceSource :=
  match ev.kind with
  | .put =>
    match json.parse ev.kv.value with
    | some info => { s with instances := s.instances.insert ev.kv.key info }
    | none => s
  | .delete => { s with instances := s.instances.erase ev.kv.key }

/-- `instance_watch_loop` over the events received so far. -/
def instanceWatchLoop (json : InfoJson) (events : List WatchEvent) : InstanceSource :=
  events.foldl (InstanceSource.fold json) {}

/-- The end of the loop, once the watch is closed. -/
def InstanceSource.close (_ : InstanceSource) : InstanceSource where
  instances := ∅
  closed    := true

def InstanceSource.snapshot (s : InstanceSource) : List EndpointInfo :=
  s.instances.toList.map (·.2)

/-! ## Clients -/

/-- `Client`, with the counter of `round_robin`. -/
structure Client where
  endpoint : Endpoint
  counter  : UInt64 := 0

/-- How a request is routed; the random policies carry the number drawn. -/
inductive Policy where
  | random (rng : UInt64)
  | roundRobin
  | direct (instanceId : Int64)
  | unary (rng : UInt64)

/-- The address and header of a dispatched request. -/
structure Dispatch where
  address      : Bytes
  subject      : Bytes
  responseType : Bytes
  deriving DecidableEq

/-- `Client::call`: the request goes to the subject of the target. -/
def call (target : EndpointInfo) (responseType : Bytes) : Dispatch :=
  ⟨target.address, target.subject, responseType⟩

def Policy.responseType : Policy → Bytes
  | .unary _ => str "single_out"
  | _ => str "many_out"

def Client.noInstances (c : Client) : Bytes :=
  str "no live instances for endpoint " ++ c.endpoint.keyPrefix

/-- `live[n % live.size()]`, or the error for an empty live set. -/
def Client.pick (c : Client) (live : List EndpointInfo) (n : UInt64) :
    Except Bytes EndpointInfo :=
  match live[n.toNat % live.length]? with
  | some target => .ok target
  | none => .error c.noInstances

/-- The instance a request is sent to. -/
def Client.target (c : Client) (s : InstanceSource) : Policy → Except Bytes EndpointInfo
  | .random rng => c.pick s.snapshot rng
  | .roundRobin => c.pick s.snapshot c.counter
  | .direct instanceId =>
    match s.snapshot.find? fun info => info.instanceId = instanceId with
    | some target => .ok target
    | none =>
      .error (str "instance " ++ hexId instanceId ++ str " not found for endpoint " ++
        c.endpoint.keyPrefix)
  | .unary rng => c.pick s.snapshot rng

/-- A routed request: what is dispatched, and the client afterwards.  Only
    `round_robin` with a live instance advances the counter. -/
def Client.route (c : Client) (s : InstanceSource) (p : Policy) :
    Except Bytes Dispatch × Client :=
  match c.target s p with
  | .error e => (.error e, c)
  | .ok target =>
    let after :=
      match p with
      | .roundRobin => { c with counter := c.counter + 1 }
      | _ => c
    (.ok (call target p.responseType), after)

theorem Client.pick_mem {c : Client} {live : List EndpointInfo} {n : UInt64}
    {target : EndpointInfo} (h : c.pick live n = .ok target) : target ∈ live := by
  simp only [pick] at h
  split at h
  · next info hget =>
    cases h
    exact List.mem_of_getElem? hget
  · cases h

/-- Every policy chooses from the snapshot. -/
theorem Client.target_mem {c : Client} {s : InstanceSource} {p : Policy}
    {target : EndpointInfo} (h : c.target s p = .ok target) : target ∈ s.snapshot := by
  cases p with
  | random | roundRobin | unary => exact pick_mem h
  | direct id =>
    simp only [Client.target] at h
    split at h
    · next info hfind =>
      cases h
      exact List.mem_of_find?_eq_some hfind
    · cases h

theorem Client.route_ok {c : Client} {s : InstanceSource} {p : Policy} {d : Dispatch}
    (h : (c.route s p).1 = .ok d) : ∃ target ∈ s.snapshot, d = call target p.responseType := by
  simp only [route] at h
  split at h
  · cases h
  · next target htarget =>
    cases h
    exact ⟨target, target_mem htarget, rfl⟩

/-! ## Listing a component -/

/-- `list_instances`: every live instance of a component, malformed records
    skipped.  Here the prefix is closed by a separator. -/
def Component.listInstances (json : InfoJson) (s : Server) (c : Component) : List EndpointInfo :=
  (prefixEntries s (c.keyPrefix ++ str "/")).filterMap fun kv => json.parse kv.value

/-- In a store of registered instances, the list holds those of the component,
    each of them and no other. -/
theorem Component.mem_listInstances_iff {json : InfoJson} {s : Server}
    (hstore : ∀ (key : Bytes) (entry : Entry), s.kvs[key]? = some entry →
      ∃ r : Registration json, key = r.key ∧ entry.value = r.value)
    (c : Component) (info : EndpointInfo) :
    info ∈ c.listInstances json s ↔
      ∃ r : Registration json, r.endpoint.component = c ∧ info = r.info ∧
        ∃ entry : Entry, s.kvs[r.key]? = some entry ∧ entry.value = r.value := by
  have hkey : ∀ r : Registration json,
      c.keyPrefix ++ str "/" <+: r.key ↔ r.endpoint.component = c := by
    intro r
    have h := componentPrefix_iff c r.endpoint.component
      (r.endpoint.name.bytes ++ str ":" ++ hexId r.leaseId)
    simp only [Registration.key, Endpoint.instanceKey, Endpoint.keyPrefix, List.append_assoc]
      at h ⊢
    rw [h, eq_comm]
  simp only [Component.listInstances, List.mem_filterMap, mem_prefixEntries_iff]
  constructor
  · rintro ⟨kv, ⟨entry, hget, hpre, heq⟩, hparse⟩
    obtain ⟨r, hk, hvalue⟩ := hstore _ entry hget
    rw [heq] at hparse
    rw [hvalue, r.parse_value] at hparse
    cases hparse
    rw [hk] at hget hpre
    exact ⟨r, (hkey r).mp hpre, rfl, entry, hget, hvalue⟩
  · rintro ⟨r, hcomp, rfl, entry, hget, hvalue⟩
    refine ⟨⟨r.key, entry.value, entry.leaseId, entry.modRevision⟩, ?_, ?_⟩
    · exact ⟨entry, hget, (hkey r).mpr hcomp, rfl⟩
    · rw [hvalue, r.parse_value]

/-! ## Containment -/

section containment

variable {json : InfoJson}

/-- What a watch on `pre` can deliver when the instances `R` are registered:
    puts of registered instances and deletes, of keys under the prefix. -/
structure Delivered (R : Set (Registration json)) (pre : Bytes) (ev : WatchEvent) : Prop where
  under : pre <+: ev.kv.key
  put   : ev.kind = .put → ∃ r ∈ R, ev.kv.key = r.key ∧ ev.kv.value = r.value

/-- The instance is one of endpoint `e`. -/
def EndpointInfo.Of (e : Endpoint) (info : EndpointInfo) : Prop :=
  info.namespaceName = e.component.ns.name.bytes ∧ info.component = e.component.name.bytes ∧
    info.endpoint = e.name.bytes

/-- The source holds instances of `e` only, and every request that any client of
    `e` dispatches goes to a registered instance of `e`. -/
structure StaysInside (R : Set (Registration json)) (e : Endpoint) (s : InstanceSource) :
    Prop where
  instances  : ∀ info ∈ s.snapshot, info.Of e
  dispatches : ∀ (c : Client) (p : Policy) (d : Dispatch), c.endpoint = e →
    (c.route s p).1 = .ok d →
      ∃ r ∈ R, r.endpoint = e ∧ d = ⟨r.address, e.subjectFor r.leaseId, p.responseType⟩

/-- Routing for `e` stays inside `e`, whatever its prefix watch delivers and
    whether or not the watch was closed afterwards. -/
def RoutesInside (R : Set (Registration json)) (e : Endpoint) : Prop :=
  ∀ events : List WatchEvent, (∀ ev ∈ events, Delivered R e.keyPrefix ev) →
    StaysInside R e (instanceWatchLoop json events) ∧
      StaysInside R e (instanceWatchLoop json events).close

/-- The live instances are registered ones whose key the watch reaches. -/
def Sourced (R : Set (Registration json)) (pre : Bytes) (s : InstanceSource) : Prop :=
  ∀ (key : Bytes) (info : EndpointInfo), s.instances[key]? = some info →
    ∃ r ∈ R, pre <+: r.key ∧ info = r.info

theorem Sourced.fold {R : Set (Registration json)} {pre : Bytes} {s : InstanceSource}
    {ev : WatchEvent} (hs : Sourced R pre s) (hev : Delivered R pre ev) :
    Sourced R pre (s.fold json ev) := by
  intro key info hget
  unfold InstanceSource.fold at hget
  split at hget
  · next hkind =>
    -- the put of a registered instance parses back to its record
    obtain ⟨r, hr, hkey, hvalue⟩ := hev.put hkind
    rw [hvalue, r.parse_value] at hget
    rcases OrdMap.get_of_insert hget with ⟨-, rfl⟩ | hget
    · exact ⟨r, hr, hkey ▸ hev.under, rfl⟩
    · exact hs key info hget
  · exact hs key info (OrdMap.get_of_erase hget).2

/-- The loop keeps the source inside what the watch reaches. -/
theorem sourced_instanceWatchLoop {R : Set (Registration json)} {pre : Bytes}
    {events : List WatchEvent} (hev : ∀ ev ∈ events, Delivered R pre ev) :
    Sourced R pre (instanceWatchLoop json events) := by
  refine List.foldlRecOn events (InstanceSource.fold json) ?_ ?_
  · intro key info hget
    simp at hget
  · intro s hs ev hmem
    exact hs.fold (hev ev hmem)

theorem Sourced.close {R : Set (Registration json)} {pre : Bytes} (s : InstanceSource) :
    Sourced R pre s.close := by
  intro key info hget
  simp [InstanceSource.close] at hget

/-- A source of `e`'s own instances stays inside `e`. -/
theorem Sourced.staysInside {R : Set (Registration json)} {e : Endpoint} {s : InstanceSource}
    (hs : Sourced R e.keyPrefix s)
    (hown : ∀ r ∈ R, e.keyPrefix <+: r.key → r.endpoint = e) : StaysInside R e s := by
  have hmem : ∀ info ∈ s.snapshot, ∃ r ∈ R, r.endpoint = e ∧ info = r.info := by
    intro info hinfo
    obtain ⟨⟨key, _⟩, hentry, rfl⟩ := List.mem_map.mp hinfo
    obtain ⟨r, hr, hpre, heq⟩ :=
      hs key _ (Std.ExtTreeMap.mem_toList_iff_getElem?_eq_some.mp hentry)
    exact ⟨r, hr, hown r hr hpre, heq⟩
  constructor
  · intro info hinfo
    obtain ⟨r, -, rfl, rfl⟩ := hmem info hinfo
    exact ⟨rfl, rfl, rfl⟩
  · intro c p d _ hroute
    obtain ⟨target, htarget, rfl⟩ := c.route_ok hroute
    obtain ⟨r, hr, rfl, rfl⟩ := hmem target htarget
    exact ⟨r, hr, rfl, rfl⟩

/-- Routing for `e` stays inside `e` exactly when no registered endpoint of the
    same component has a name that properly extends the name of `e`. -/
theorem routesInside_iff (R : Set (Registration json)) (e : Endpoint) :
    RoutesInside R e ↔
      ∀ r ∈ R, r.endpoint.component = e.component → e.name.bytes <+: r.endpoint.name.bytes →
        r.endpoint.name = e.name := by
  constructor
  · intro h r hr hcomp hname
    -- the watch delivers the registration of `r`
    have hunder : e.keyPrefix <+: r.key :=
      (keyPrefix_prefix_instanceKey_iff _ _ _).mpr ⟨hcomp.symm, hname⟩
    obtain ⟨hin, -⟩ := h [⟨.put, ⟨r.key, r.value, 0, 0⟩⟩] (by
      intro ev hev
      obtain rfl := List.mem_singleton.mp hev
      exact ⟨hunder, fun _ => ⟨r, hr, rfl, rfl⟩⟩)
    have hsnap : r.info ∈ (instanceWatchLoop json [⟨.put, ⟨r.key, r.value, 0, 0⟩⟩]).snapshot := by
      refine List.mem_map.mpr ⟨(r.key, r.info), ?_, rfl⟩
      simp [instanceWatchLoop, InstanceSource.fold, r.parse_value]
    exact Name.ext (hin.instances _ hsnap).2.2
  · intro hown events hev
    have hreach : ∀ r ∈ R, e.keyPrefix <+: r.key → r.endpoint = e := by
      intro r hr hpre
      obtain ⟨hcomp, hname⟩ := (keyPrefix_prefix_instanceKey_iff _ _ _).mp hpre
      have hsame := hown r hr hcomp.symm hname
      cases hre : r.endpoint with
      | mk c n =>
        rw [hre] at hcomp hsame
        cases e
        exact congrArg₂ Endpoint.mk hcomp.symm hsame
    exact ⟨(sourced_instanceWatchLoop hev).staysInside hreach,
      (Sourced.close _).staysInside hreach⟩

end containment

/-- The endpoint `name` of component `dyn/worker`. -/
def workerEndpoint (name : Name) : Endpoint where
  component := ⟨⟨⟨str "dyn", by decide, by decide⟩⟩, ⟨str "worker", by decide, by decide⟩⟩
  name      := name

def gen : Endpoint := workerEndpoint ⟨str "gen", by decide, by decide⟩

def generate : Endpoint := workerEndpoint ⟨str "generate", by decide, by decide⟩

def generateInfo : EndpointInfo := generate.info 26 (str "127.0.0.1:7000") {}

/-- A JSON library that knows one record. -/
def generateJson : InfoJson where
  dump info := if info = generateInfo then some (str "info") else none
  parse text := if text = str "info" then some generateInfo else none
  parse_dump := by
    intro info text h
    split at h
    · next heq =>
      cases h
      simp [heq]
    · cases h

def generateInstance : Registration generateJson where
  endpoint := generate
  leaseId  := 26
  address  := str "127.0.0.1:7000"
  value    := str "info"
  dumped   := by decide

/-- The put of the instance of `generate`, as a watch on `gen` delivers it. -/
def generatePut : WatchEvent := ⟨.put, ⟨generateInstance.key, generateInstance.value, 26, 1⟩⟩

/-- With one instance of `generate` registered, a client of `gen` sends its
    requests to `generate`. -/
theorem gen_routed_to_generate :
    Delivered {generateInstance} gen.keyPrefix generatePut ∧
      (Client.route ⟨gen, 0⟩ (instanceWatchLoop generateJson [generatePut]) .roundRobin).1 =
        .ok ⟨str "127.0.0.1:7000", str "dyn/worker/generate:1a", str "many_out"⟩ ∧
      ¬ RoutesInside {generateInstance} gen := by
  have hput : Delivered {generateInstance} gen.keyPrefix generatePut :=
    ⟨by decide, fun _ => ⟨generateInstance, rfl, rfl, rfl⟩⟩
  refine ⟨hput, by decide, ?_⟩
  intro h
  obtain ⟨hin, -⟩ := h [generatePut] (fun ev hev => List.mem_singleton.mp hev ▸ hput)
  have hof := hin.instances generateInfo (by decide)
  exact absurd hof.2.2 (by decide)

/-- The instance is listed. -/
theorem generate_listed :
    ∃ s : Server, generateInfo ∈ generate.component.listInstances generateJson s := by
  refine ⟨{ kvs := (∅ : OrdMap _ _).insert generateInstance.key ⟨str "info", 26, 1⟩ },
    (Component.mem_listInstances_iff (fun key entry h => ?_) _ _).mpr
      ⟨generateInstance, rfl, rfl, _, by rw [OrdMap.get_insert, if_pos rfl], rfl⟩⟩
  obtain ⟨rfl, rfl⟩ | h := OrdMap.get_of_insert h
  · exact ⟨generateInstance, rfl, rfl⟩
  · simp at h

end DynamoCpp.Components
