import DynamoCpp.Discovery.Protocol
import DynamoCpp.Framework.Delimited
import DynamoCpp.Framework.Digits

/-! # Namespaces, components, endpoints and their keys

    The path model: an instance of an endpoint is registered in discovery
    under `{ns}/components/{component}/{endpoint}:{instance_id:x}` and served
    under the subject `{ns}/{component}/{endpoint}:{instance_id:x}`.  Names are
    validated by the constructors of the handles, so a handle with an invalid
    name does not exist.
-/

namespace DynamoCpp.Components

open Framework

/-! ## Names -/

/-- The characters `validate_name` accepts. -/
def nameChar (c : UInt8) : Bool :=
  ('a'.toUInt8 ≤ c && c ≤ 'z'.toUInt8) || ('0'.toUInt8 ≤ c && c ≤ '9'.toUInt8) ||
    c == '-'.toUInt8 || c == '_'.toUInt8

/-- A name that passed `validate_name`. -/
structure Name where
  bytes    : Bytes
  nonempty : bytes ≠ []
  valid    : bytes.all nameChar = true
  deriving DecidableEq

def validateName (name what : Bytes) : Except Bytes Name :=
  if hne : name = [] then .error (what ++ str " must not be empty")
  else if hok : name.all nameChar = true then .ok ⟨name, hne, hok⟩
  else .error (what ++ str " has invalid character: " ++ name)

theorem Name.ext {a b : Name} (h : a.bytes = b.bytes) : a = b := by
  cases a
  cases b
  cases h
  rfl

@[simp] theorem validateName_bytes (n : Name) (what : Bytes) :
    validateName n.bytes what = .ok n := by
  rw [validateName, dif_neg n.nonempty, dif_pos n.valid]

/-- No separator of a path occurs in a name. -/
theorem Name.notMem (n : Name) {c : UInt8} (hc : nameChar c = false) : c ∉ n.bytes := by
  intro h
  rw [List.all_eq_true.mp n.valid c h] at hc
  cases hc

/-! ## Handles -/

structure Namespace where
  name : Name
  deriving DecidableEq

structure Component where
  ns   : Namespace
  name : Name
  deriving DecidableEq

structure Endpoint where
  component : Component
  name      : Name
  deriving DecidableEq

/-- `DistributedRuntime::ns`. -/
def Namespace.create (name : Bytes) : Except Bytes Namespace :=
  (validateName name (str "namespace")).map fun n => ⟨n⟩

def Namespace.component (ns : Namespace) (name : Bytes) : Except Bytes Component :=
  (validateName name (str "component")).map fun n => ⟨ns, n⟩

def Component.endpoint (c : Component) (name : Bytes) : Except Bytes Endpoint :=
  (validateName name (str "endpoint")).map fun n => ⟨c, n⟩

/-- `snprintf("%llx")` of the id as an unsigned number. -/
def hexId (id : Int64) : Bytes :=
  (Nat.toDigits 16 id.toUInt64.toNat).map fun c => c.toUInt8

def Component.keyPrefix (c : Component) : Bytes :=
  c.ns.name.bytes ++ str "/components/" ++ c.name.bytes

def Component.path (c : Component) : Bytes :=
  c.ns.name.bytes ++ str "." ++ c.name.bytes

def Endpoint.keyPrefix (e : Endpoint) : Bytes :=
  e.component.keyPrefix ++ str "/" ++ e.name.bytes

def Endpoint.instanceKey (e : Endpoint) (instanceId : Int64) : Bytes :=
  e.keyPrefix ++ str ":" ++ hexId instanceId

def Endpoint.subjectFor (e : Endpoint) (instanceId : Int64) : Bytes :=
  e.component.ns.name.bytes ++ str "/" ++ e.component.name.bytes ++ str "/" ++ e.name.bytes ++
    str ":" ++ hexId instanceId

/-- The subject under which `serve_impl` answers for the stats of an instance. -/
def Endpoint.statsSubject (e : Endpoint) (instanceId : Int64) : Bytes :=
  e.subjectFor instanceId ++ str "/stats"

def Endpoint.queueSubject (e : Endpoint) : Bytes :=
  e.component.ns.name.bytes ++ str "/" ++ e.component.name.bytes ++ str "/" ++ e.name.bytes ++
    str ":queue"

/-! ## Which keys a prefix reaches -/

private theorem str_slash : str "/" = ['/'.toUInt8] := by decide

private theorem str_colon : str ":" = [':'.toUInt8] := by decide

private theorem str_components :
    str "/components/" = '/'.toUInt8 :: (str "components" ++ ['/'.toUInt8]) := by decide

/-- A component's prefix closed by `/` reaches the keys of that component only. -/
theorem componentPrefix_iff (c d : Component) (rest : Bytes) :
    c.keyPrefix ++ str "/" <+: d.keyPrefix ++ str "/" ++ rest ↔ c = d := by
  have hns : '/'.toUInt8 ∉ c.ns.name.bytes := c.ns.name.notMem (by decide)
  have hns' : '/'.toUInt8 ∉ d.ns.name.bytes := d.ns.name.notMem (by decide)
  have hname : '/'.toUInt8 ∉ c.name.bytes := c.name.notMem (by decide)
  have hname' : '/'.toUInt8 ∉ d.name.bytes := d.name.notMem (by decide)
  simp only [Component.keyPrefix, str_slash, str_components, List.append_assoc, List.cons_append,
    List.nil_append]
  rw [segment_prefix_iff hns hns', List.prefix_append_right_inj, List.cons_prefix_cons,
    segment_prefix_iff hname hname']
  constructor
  · rintro ⟨hn, -, hc, -⟩
    cases c
    cases d
    exact congrArg₂ Component.mk (congrArg Namespace.mk (Name.ext hn)) (Name.ext hc)
  · rintro rfl
    exact ⟨rfl, rfl, rfl, List.nil_prefix⟩

/-- The prefix a client watches is not closed by a separator: it reaches the
    instances of every endpoint of the component whose name extends this one. -/
theorem keyPrefix_prefix_instanceKey_iff (e f : Endpoint) (id : Int64) :
    e.keyPrefix <+: f.instanceKey id ↔
      e.component = f.component ∧ e.name.bytes <+: f.name.bytes := by
  have hname : ':'.toUInt8 ∉ e.name.bytes := e.name.notMem (by decide)
  constructor
  · intro h
    have hcomp : e.component = f.component := by
      refine (componentPrefix_iff _ _ (f.name.bytes ++ str ":" ++ hexId id)).mp ?_
      refine List.IsPrefix.trans (List.prefix_append _ e.name.bytes) ?_
      simpa only [Endpoint.instanceKey, Endpoint.keyPrefix, List.append_assoc] using h
    refine ⟨hcomp, ?_⟩
    simp only [Endpoint.instanceKey, Endpoint.keyPrefix, hcomp, List.append_assoc, str_colon,
      List.prefix_append_right_inj, List.cons_append, List.nil_append] at h
    exact (prefix_segment_iff hname).mp h
  · rintro ⟨hcomp, hpre⟩
    simp only [Endpoint.instanceKey, Endpoint.keyPrefix, hcomp, List.append_assoc,
      List.prefix_append_right_inj]
    exact hpre.trans (List.prefix_append _ _)

/-! ## Keys and subjects identify instances -/

/-- No separator and no letter after `f` occurs in an id. -/
theorem notMem_hexId (id : Int64) {c : UInt8} (hc : ∀ d < 16, c ≠ (Nat.digitChar d).toUInt8) :
    c ∉ hexId id := by
  intro hmem
  obtain ⟨char, hchar, rfl⟩ := List.mem_map.mp hmem
  obtain ⟨d, hd, rfl⟩ := digit_of_mem_toDigits (by decide) _ char hchar
  exact hc d hd rfl

theorem hexId_injective : Function.Injective hexId := by
  intro i j heq
  have hnat : i.toUInt64.toNat = j.toUInt64.toNat :=
    toDigits_map_injective (by decide) (by decide) _ _ heq
  rw [← i.toInt64_toUInt64, UInt64.toNat.inj hnat, j.toInt64_toUInt64]

/-- What all subjects of an endpoint begin with. -/
def Endpoint.subjectPrefix (e : Endpoint) : Bytes :=
  e.component.ns.name.bytes ++ '/'.toUInt8 ::
    (e.component.name.bytes ++ '/'.toUInt8 :: e.name.bytes)

theorem subjectPrefix_inj (e f : Endpoint) (x y : Bytes) :
    e.subjectPrefix ++ ':'.toUInt8 :: x = f.subjectPrefix ++ ':'.toUInt8 :: y ↔ e = f ∧ x = y := by
  obtain ⟨⟨⟨ns⟩, component⟩, name⟩ := e
  obtain ⟨⟨⟨ns'⟩, component'⟩, name'⟩ := f
  have hslash : nameChar '/'.toUInt8 = false := by decide
  have hcolon : nameChar ':'.toUInt8 = false := by decide
  simp only [Endpoint.subjectPrefix, List.append_assoc, List.cons_append]
  rw [segment_inj_iff (ns.notMem hslash) (ns'.notMem hslash),
    segment_inj_iff (component.notMem hslash) (component'.notMem hslash),
    segment_inj_iff (name.notMem hcolon) (name'.notMem hcolon)]
  constructor
  · rintro ⟨hns, hcomponent, hname, rfl⟩
    rw [Name.ext hns, Name.ext hcomponent, Name.ext hname]
    exact ⟨rfl, rfl⟩
  · rintro ⟨heq, rfl⟩
    cases heq
    exact ⟨rfl, rfl, rfl, rfl⟩

theorem subjectFor_eq (e : Endpoint) (id : Int64) :
    e.subjectFor id = e.subjectPrefix ++ ':'.toUInt8 :: hexId id := by
  simp only [Endpoint.subjectFor, Endpoint.subjectPrefix, str_slash, str_colon, List.append_assoc,
    List.cons_append, List.nil_append]

theorem statsSubject_eq (e : Endpoint) (id : Int64) :
    e.statsSubject id = e.subjectPrefix ++ ':'.toUInt8 ::
      (hexId id ++ '/'.toUInt8 :: str "stats") := by
  have hstats : str "/stats" = '/'.toUInt8 :: str "stats" := by decide
  rw [Endpoint.statsSubject, subjectFor_eq, hstats, List.append_assoc, List.cons_append]

theorem queueSubject_eq (e : Endpoint) :
    e.queueSubject = e.subjectPrefix ++ ':'.toUInt8 :: str "queue" := by
  have hqueue : str ":queue" = ':'.toUInt8 :: str "queue" := by decide
  simp only [Endpoint.queueSubject, Endpoint.subjectPrefix, str_slash, hqueue, List.append_assoc,
    List.cons_append, List.nil_append]

theorem slash_notMem_hexId (id : Int64) : '/'.toUInt8 ∉ hexId id := notMem_hexId id (by decide)

theorem queue_ne_hexId (id : Int64) (rest : Bytes) : str "queue" ≠ hexId id ++ rest := by
  intro heq
  have hq : 'q'.toUInt8 ∉ hexId id := notMem_hexId id (by decide)
  -- an id has a digit, and the first one would be the letter
  have hne : hexId id ≠ [] := by simp [hexId]
  obtain ⟨c, cs, hcs⟩ := List.exists_cons_of_ne_nil hne
  rw [hcs, List.cons_append] at heq
  obtain ⟨hc, _⟩ := List.cons_eq_cons.mp heq
  rw [hcs, ← hc] at hq
  exact hq List.mem_cons_self

theorem instanceKey_inj (e f : Endpoint) (i j : Int64) :
    e.instanceKey i = f.instanceKey j ↔ e = f ∧ i = j := by
  refine ⟨fun heq => ?_, fun h => by rw [h.1, h.2]⟩
  have hcomponent : e.component = f.component := by
    refine ((keyPrefix_prefix_instanceKey_iff e f j).mp ?_).1
    rw [← heq]
    exact (keyPrefix_prefix_instanceKey_iff e e i).mpr ⟨rfl, List.prefix_rfl⟩
  have hcolon : nameChar ':'.toUInt8 = false := by decide
  simp only [Endpoint.instanceKey, Endpoint.keyPrefix, hcomponent, List.append_assoc,
    List.append_cancel_left_eq, str_colon, List.cons_append, List.nil_append] at heq
  obtain ⟨hname, hid⟩ := (segment_inj_iff (e.name.notMem hcolon) (f.name.notMem hcolon)).mp heq
  refine ⟨?_, hexId_injective hid⟩
  exact congrArg₂ Endpoint.mk hcomponent (Name.ext hname)

/-- **Keys and subjects identify instances.**  The instance key, the subject, the stats
    subject and the queue subject each determine the endpoint and the id that they were
    made from, no subject of one kind is a subject of another, and the prefix that
    `list_instances` scans reaches the keys of its component only. -/
theorem keys_identify_instances :
    (∀ (e f : Endpoint) (i j : Int64), e.instanceKey i = f.instanceKey j → e = f ∧ i = j) ∧
    (∀ (e f : Endpoint) (i j : Int64), e.subjectFor i = f.subjectFor j → e = f ∧ i = j) ∧
    (∀ (e f : Endpoint) (i j : Int64), e.statsSubject i = f.statsSubject j → e = f ∧ i = j) ∧
    (∀ e f : Endpoint, e.queueSubject = f.queueSubject → e = f) ∧
    (∀ (e f : Endpoint) (i j : Int64), e.subjectFor i ≠ f.statsSubject j) ∧
    (∀ (e f : Endpoint) (i : Int64), e.subjectFor i ≠ f.queueSubject) ∧
    (∀ (e f : Endpoint) (i : Int64), e.statsSubject i ≠ f.queueSubject) ∧
    ∀ (c : Component) (e : Endpoint) (i : Int64),
      c.keyPrefix ++ str "/" <+: e.instanceKey i ↔ e.component = c := by
  refine ⟨fun e f i j => (instanceKey_inj e f i j).mp, ?_, ?_, ?_, ?_, ?_, ?_, ?_⟩
  · intro e f i j heq
    rw [subjectFor_eq, subjectFor_eq, subjectPrefix_inj] at heq
    exact ⟨heq.1, hexId_injective heq.2⟩
  · intro e f i j heq
    rw [statsSubject_eq, statsSubject_eq, subjectPrefix_inj,
      segment_inj_iff (slash_notMem_hexId i) (slash_notMem_hexId j)] at heq
    exact ⟨heq.1, hexId_injective heq.2.1⟩
  · intro e f heq
    rw [queueSubject_eq, queueSubject_eq, subjectPrefix_inj] at heq
    exact heq.1
  · intro e f i j heq
    rw [subjectFor_eq, statsSubject_eq, subjectPrefix_inj] at heq
    -- the separator is in one of the two only
    have hslash := slash_notMem_hexId i
    rw [heq.2] at hslash
    exact hslash (List.mem_append_right _ List.mem_cons_self)
  · intro e f i heq
    rw [subjectFor_eq, queueSubject_eq, subjectPrefix_inj] at heq
    exact queue_ne_hexId i [] (heq.2.symm.trans (List.append_nil _).symm)
  · intro e f i heq
    rw [statsSubject_eq, queueSubject_eq, subjectPrefix_inj] at heq
    exact queue_ne_hexId i _ heq.2.symm
  · intro c e i
    have hkey : e.instanceKey i =
        e.component.keyPrefix ++ str "/" ++ (e.name.bytes ++ str ":" ++ hexId i) := by
      simp only [Endpoint.instanceKey, Endpoint.keyPrefix, List.append_assoc]
    rw [hkey, componentPrefix_iff, eq_comm]

end DynamoCpp.Components
