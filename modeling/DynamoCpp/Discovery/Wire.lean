import DynamoCpp.Discovery.Rejected
import DynamoCpp.Framework.Document
import DynamoCpp.Transports.Framing

/-! # The discovery protocol on the wire

    A request, a reply or an event is a two-part message: a header, which is the text of a
    JSON object, and raw data.  The values of `kv_create`, `kv_put` and
    `kv_create_or_validate` and those of watch events are data; the values of `get_prefix`
    are strings of the header.  `dump` throws on a string that is not UTF-8, so such a header
    is never sent, and a message that exceeds the frame limit is sent but not read.
-/

namespace DynamoCpp.Discovery

open Framework

/-! ## Headers -/

/-- The names of fields. -/
inductive FieldName where
  | op | req | ttl | leaseId | key | pre | watchId | fromRev | subId | subject
  | reply | ok | error | kvs | value | rev | revision | watch | kind | mode | event
  deriving DecidableEq

abbrev Header : Type := Document FieldName

def Header.text (s : Bytes) : FieldValue FieldName := .scalar (.string s)

def Header.num (i : Int) : FieldValue FieldName := .scalar (.int i)

open Header

/-- The values of the field `op`. -/
inductive OpName where
  | createLease | keepalive | revoke | kvCreate | kvPut | kvCreateOrValidate | getPrefix
  | watch | unwatch | subscribe | unsubscribe | publish | queueDispatch
  deriving DecidableEq

namespace OpName

def bytes : OpName → Bytes
  | .createLease => str "create_lease"
  | .keepalive => str "keepalive"
  | .revoke => str "revoke"
  | .kvCreate => str "kv_create"
  | .kvPut => str "kv_put"
  | .kvCreateOrValidate => str "kv_create_or_validate"
  | .getPrefix => str "get_prefix"
  | .watch => str "watch"
  | .unwatch => str "unwatch"
  | .subscribe => str "subscribe"
  | .unsubscribe => str "unsubscribe"
  | .publish => str "publish"
  | .queueDispatch => str "queue_dispatch"

/-- In the order in which `handle_request` compares them. -/
def all : List OpName :=
  [.createLease, .keepalive, .revoke, .kvCreate, .kvPut, .kvCreateOrValidate, .getPrefix,
    .watch, .unwatch, .subscribe, .unsubscribe, .publish, .queueDispatch]

def ofBytes (op : Bytes) : Option OpName := all.find? fun o => o.bytes = op

theorem isUtf8_bytes (o : OpName) : IsUtf8 o.bytes := by
  cases o <;> decide

end OpName

/-! ### Requests -/

/-- The header a client sends for a request. -/
def Request.header (req : Nat) : Request → Header
  | .createLease ttl =>
    [(.op, text OpName.createLease.bytes), (.ttl, num ttl), (.req, num req)]
  | .keepalive leaseId =>
    [(.op, text OpName.keepalive.bytes), (.leaseId, num leaseId), (.req, num req)]
  | .revoke leaseId =>
    [(.op, text OpName.revoke.bytes), (.leaseId, num leaseId), (.req, num req)]
  | .kvCreate key _ leaseId =>
    [(.op, text OpName.kvCreate.bytes), (.key, text key), (.leaseId, num leaseId),
      (.req, num req)]
  | .kvPut key _ leaseId =>
    [(.op, text OpName.kvPut.bytes), (.key, text key), (.leaseId, num leaseId), (.req, num req)]
  | .kvCreateOrValidate key _ leaseId =>
    [(.op, text OpName.kvCreateOrValidate.bytes), (.key, text key), (.leaseId, num leaseId),
      (.req, num req)]
  | .getPrefix pre => [(.op, text OpName.getPrefix.bytes), (.pre, text pre), (.req, num req)]
  | .watch pre watchId fromRev =>
    [(.op, text OpName.watch.bytes), (.pre, text pre), (.watchId, num watchId),
      (.req, num req)] ++
      -- a client that has seen no revision leaves the field out
      if fromRev = -1 then [] else [(.fromRev, num fromRev)]
  | .unwatch watchId =>
    [(.op, text OpName.unwatch.bytes), (.watchId, num watchId), (.req, num req)]
  | .subscribe subId subject =>
    [(.op, text OpName.subscribe.bytes), (.subId, num subId), (.subject, text subject),
      (.req, num req)]
  | .unsubscribe subId =>
    [(.op, text OpName.unsubscribe.bytes), (.subId, num subId), (.req, num req)]
  | .publish subject _ =>
    [(.op, text OpName.publish.bytes), (.subject, text subject), (.req, num req)]
  | .queueDispatch subject _ =>
    [(.op, text OpName.queueDispatch.bytes), (.subject, text subject), (.req, num req)]
  | .unknown op => [(.op, text op), (.req, num req)]

/-- The data a client sends for a request. -/
def Request.data : Request → Bytes
  | .kvCreate _ value _ | .kvPut _ value _ | .kvCreateOrValidate _ value _ => value
  | .publish _ data | .queueDispatch _ data => data
  | _ => []

/-- No client sends another operation. -/
def Request.isKnown : Request → Bool
  | .unknown _ => false
  | _ => true

/-- What `handle_request` reads from a message.  A field that is missing or has another type
    makes it throw. -/
def Request.ofMessage (header : Header) (data : Bytes) : Option (Nat × Request) := do
  let req ← header.int? .req
  let op ← header.string? .op
  let r ← match OpName.ofBytes op with
    | some .createLease => (header.intD .ttl 10).map .createLease
    | some .keepalive => (header.int? .leaseId).map .keepalive
    | some .revoke => (header.int? .leaseId).map .revoke
    | some .kvCreate => do
      let key ← header.string? .key
      (header.intD .leaseId 0).map (.kvCreate key data)
    | some .kvPut => do
      let key ← header.string? .key
      (header.intD .leaseId 0).map (.kvPut key data)
    | some .kvCreateOrValidate => do
      let key ← header.string? .key
      (header.intD .leaseId 0).map (.kvCreateOrValidate key data)
    | some .getPrefix => (header.string? .pre).map .getPrefix
    | some .watch => do
      let pre ← header.string? .pre
      let watchId ← header.int? .watchId
      (header.intD .fromRev (-1)).map (.watch pre watchId.toNat)
    | some .unwatch => (header.int? .watchId).map fun id => .unwatch id.toNat
    | some .subscribe => do
      let subId ← header.int? .subId
      (header.string? .subject).map (.subscribe subId.toNat)
    | some .unsubscribe => (header.int? .subId).map fun id => .unsubscribe id.toNat
    | some .publish => (header.string? .subject).map (.publish · data)
    | some .queueDispatch => (header.string? .subject).map (.queueDispatch · data)
    | none => some (.unknown op)
  some (req.toNat, r)

theorem Request.ofMessage_header (req : Nat) (r : Request) (h : r.isKnown = true) :
    Request.ofMessage (r.header req) r.data = some (req, r) := by
  cases r with
  | unknown op => cases h
  | watch pre watchId fromRev =>
    by_cases hrev : fromRev = -1
    · subst hrev
      rfl
    · simp only [header, if_neg hrev]
      rfl
  | _ => rfl

/-! ### Frames of the server -/

/-- An element of `kvs`. -/
def KeyValue.item (kv : KeyValue) : Record FieldName :=
  [(.key, .string kv.key), (.value, .string kv.value), (.leaseId, .int kv.leaseId),
    (.rev, .int kv.modRevision)]

def KeyValue.ofItem (item : Record FieldName) : Option KeyValue := do
  let key ← item.string? .key
  let value ← item.string? .value
  let leaseId ← item.intD .leaseId 0
  let rev ← item.intD .rev 0
  some ⟨key, value, leaseId, rev.toNat⟩

theorem KeyValue.ofItem_item (kv : KeyValue) : KeyValue.ofItem kv.item = some kv := rfl

/-- An optional field. -/
def Header.field? {α : Type} (name : FieldName) (value : α → FieldValue FieldName)
    (v : Option α) : Header :=
  (v.map fun a => (name, value a)).toList

theorem Header.find_field?_self {α : Type} (name : FieldName) (value : α → FieldValue FieldName)
    (v : Option α) : (field? name value v).find name = v.map value := by
  cases v with
  | none => rfl
  | some a => exact if_pos rfl

theorem Header.find_field?_of_ne {α : Type} {name name' : FieldName}
    (value : α → FieldValue FieldName) (v : Option α) (h : name' ≠ name) :
    (field? name value v).find name' = none := by
  cases v with
  | none => rfl
  | some a => exact if_neg h

def Reply.header (r : Reply) : Header :=
  [(.reply, num r.reply), (.ok, .scalar (.bool r.ok))] ++
    field? .kvs (fun kvs => .array (kvs.map KeyValue.item)) r.kvs ++
    field? .error text r.error ++ field? .leaseId num r.leaseId ++ field? .ttl num r.ttl ++
    field? .revision (fun rev : Nat => num rev) r.revision

def WatchKind.bytes : WatchKind → Bytes
  | .put => str "put"
  | .delete => str "delete"

def SyncMode.bytes : SyncMode → Bytes
  | .replay => str "replay"
  | .snapshot => str "snapshot"

def Frame.header : Frame → Header
  | .watch id kind kv =>
    [(.watch, num id), (.kind, text kind.bytes), (.key, text kv.key), (.leaseId, num kv.leaseId),
      (.rev, num kv.modRevision)]
  | .sync id mode rev =>
    [(.watch, num id), (.kind, text (str "sync")), (.mode, text mode.bytes), (.rev, num rev)]
  | .event id subject _ => [(.event, num id), (.subject, text subject)]
  | .reply r => r.header

def Frame.data : Frame → Bytes
  | .watch _ _ kv => kv.value
  | .event _ _ data => data
  | _ => []

/-- What `route_watch_frame` reads from a message. -/
def Frame.ofWatch (header : Header) (data : Bytes) : Option Frame := do
  let id ← header.int? .watch
  let kind ← header.string? .kind
  if kind = str "sync" then
    let mode ← header.stringD .mode (str "snapshot")
    let rev ← header.intD .rev 0
    some (.sync id.toNat (if mode = str "snapshot" then .snapshot else .replay) rev.toNat)
  else
    let key ← header.string? .key
    let leaseId ← header.intD .leaseId 0
    let rev ← header.intD .rev 0
    some (.watch id.toNat (if kind = str "put" then .put else .delete)
      ⟨key, data, leaseId, rev.toNat⟩)

theorem Frame.ofWatch_watch (id : Nat) (kind : WatchKind) (kv : KeyValue) :
    Frame.ofWatch (Frame.watch id kind kv).header (Frame.watch id kind kv).data =
      some (.watch id kind kv) := by
  cases kind <;> rfl

/-- What `kv_get_prefix` reads from the header of a reply. -/
def Header.kvs? (header : Header) : Option (List KeyValue) :=
  (header.array? .kvs).bind (·.mapM KeyValue.ofItem)

theorem Header.kvs?_header (r : Reply) : r.header.kvs? = r.kvs := by
  have hfind : r.header.array? .kvs = r.kvs.map (·.map KeyValue.item) := by
    have hkvs : r.header.find .kvs = r.kvs.map fun kvs => .array (kvs.map KeyValue.item) := by
      simp only [Reply.header, Fields.find_append, find_field?_self,
        find_field?_of_ne _ _ (by decide : FieldName.kvs ≠ .error),
        find_field?_of_ne _ _ (by decide : FieldName.kvs ≠ .leaseId),
        find_field?_of_ne _ _ (by decide : FieldName.kvs ≠ .ttl),
        find_field?_of_ne _ _ (by decide : FieldName.kvs ≠ .revision), Option.or_none]
      rfl
    rw [Document.array?, hkvs]
    cases r.kvs <;> rfl
  have hitems : ∀ kvs : List KeyValue,
      (kvs.map KeyValue.item).mapM KeyValue.ofItem = some kvs := by
    intro kvs
    induction kvs with
    | nil => rfl
    | cons kv kvs ih => simp [KeyValue.ofItem_item, ih]
  rw [Header.kvs?, hfind]
  cases r.kvs with
  | none => rfl
  | some kvs => exact hitems kvs

/-- The test of a reply's `ok`. -/
def Header.isOk (header : Header) : Bool := header.boolD .ok false == some true

@[simp] theorem Header.isOk_header (r : Reply) : r.header.isOk = r.ok := by
  have hok : r.header.boolD .ok false = some r.ok := rfl
  rw [isOk, hok]
  cases r.ok <;> rfl

/-! ## Messages -/

/-- `read_frame` accepts the message. -/
def fits (limit : UInt64) (text data : Bytes) : Bool := text.length + data.length ≤ limit.toNat

/-- A message on its way from `dump` to `parse`: what the peer gets of it. -/
def transmit (codec : TextCodec FieldName) (limit : UInt64) (header : Header) (data : Bytes) :
    Option (Header × Bytes) := do
  let text ← codec.dump header
  if fits limit text data then
    let header ← codec.parse text
    some (header, data)
  else none

/-- Every string of the header can be written. -/
def IsText (header : Header) : Prop := ∀ s ∈ header.strings, IsUtf8 s

instance (header : Header) : Decidable (IsText header) :=
  inferInstanceAs (Decidable (∀ s ∈ header.strings, IsUtf8 s))

@[simp] theorem strings_text (s : Bytes) : (text s).strings = [s] := rfl

@[simp] theorem strings_num (i : Int) : (num i).strings = [] := rfl

@[simp] theorem isText_nil : IsText [] := by
  intro s hs
  cases hs

@[simp] theorem isText_cons (name : FieldName) (v : FieldValue FieldName) (header : Header) :
    IsText ((name, v) :: header) ↔ (∀ s ∈ v.strings, IsUtf8 s) ∧ IsText header := by
  simp only [IsText, Document.strings, List.flatMap_cons, List.mem_append, or_imp, forall_and]

@[simp] theorem isText_append (header header' : Header) :
    IsText (header ++ header') ↔ IsText header ∧ IsText header' := by
  simp only [IsText, Document.strings, List.flatMap_append, List.mem_append, or_imp, forall_and]

@[simp] theorem isText_field? {α : Type} (name : FieldName) (value : α → FieldValue FieldName)
    (v : Option α) :
    IsText (field? name value v) ↔ ∀ a, v = some a → ∀ s ∈ (value a).strings, IsUtf8 s := by
  cases v with
  | none => simp [field?]
  | some a => simp [field?]

theorem isText_reply (r : Reply) :
    IsText r.header ↔ (∀ kvs, r.kvs = some kvs → ∀ kv ∈ kvs, IsUtf8 kv.key ∧ IsUtf8 kv.value) ∧
      ∀ e, r.error = some e → IsUtf8 e := by
  have hitem : ∀ kv : KeyValue, Record.strings kv.item = [kv.key, kv.value] := fun _ => rfl
  have hok : (FieldValue.scalar (.bool r.ok) : FieldValue FieldName).strings = [] := rfl
  have hkvs : ∀ kvs : List KeyValue, (∀ s ∈ (FieldValue.array (kvs.map KeyValue.item)).strings,
      IsUtf8 s) ↔ ∀ kv ∈ kvs, IsUtf8 kv.key ∧ IsUtf8 kv.value := by
    intro kvs
    induction kvs with
    | nil => simp [FieldValue.strings]
    | cons kv kvs ih =>
      simp only [FieldValue.strings, List.map_cons, List.flatMap_cons, hitem,
        List.forall_mem_append, List.forall_mem_cons] at ih ⊢
      rw [ih]
      simp
  simp [Reply.header, hok, hkvs]

/-- The strings of a request besides its operation. -/
def Request.texts : Request → List Bytes
  | .kvCreate key _ _ | .kvPut key _ _ | .kvCreateOrValidate key _ _ => [key]
  | .getPrefix pre | .watch pre _ _ => [pre]
  | .subscribe _ subject | .publish subject _ | .queueDispatch subject _ => [subject]
  | .unknown op => [op]
  | _ => []

theorem Request.isText_header (req : Nat) (r : Request) :
    IsText (r.header req) ↔ ∀ s ∈ r.texts, IsUtf8 s := by
  cases r with
  | watch pre watchId fromRev =>
    simp only [Request.header]
    split <;> simp [Request.texts, OpName.isUtf8_bytes]
  | _ => simp [Request.header, Request.texts, OpName.isUtf8_bytes]

/-- The text of the header, if there is one, is within the limit with the data. -/
def Fits (codec : TextCodec FieldName) (limit : UInt64) (header : Header) (data : Bytes) : Prop :=
  ∀ text, codec.dump header = some text → fits limit text data = true

instance (codec : TextCodec FieldName) (limit : UInt64) (header : Header) (data : Bytes) :
    Decidable (Fits codec limit header data) :=
  decidable_of_iff ((codec.dump header).all (fits limit · data) = true) (Option.all_eq_true ..)

section transmit

variable {codec : TextCodec FieldName} {limit : UInt64} {header : Header} {data : Bytes}

/-- What arrives is what was sent. -/
theorem transmit_eq {m : Header × Bytes} (h : transmit codec limit header data = some m) :
    m = (header, data) ∧ IsText header ∧ Fits codec limit header data := by
  unfold transmit at h
  cases hdump : codec.dump header with
  | none =>
    rw [hdump] at h
    cases h
  | some text =>
    have htext : IsText header := (codec.dump_isSome header).mp (by rw [hdump]; rfl)
    rw [hdump] at h
    by_cases hfits : fits limit text data = true
    · have hparse := codec.parse_dump hdump
      simp only [Option.bind_eq_bind, Option.bind_some, if_pos hfits, hparse] at h
      refine ⟨(Option.some.inj h).symm, htext, fun text' htext' => ?_⟩
      rw [hdump] at htext'
      cases htext'
      exact hfits
    · simp only [Option.bind_eq_bind, Option.bind_some, if_neg hfits] at h
      cases h

theorem transmit_of (htext : IsText header) (hfits : Fits codec limit header data) :
    transmit codec limit header data = some (header, data) := by
  obtain ⟨text, hdump⟩ := Option.isSome_iff_exists.mp ((codec.dump_isSome header).mpr htext)
  simp only [transmit, hdump, Option.bind_eq_bind, Option.bind_some, if_pos (hfits text hdump),
    codec.parse_dump hdump]

end transmit

end DynamoCpp.Discovery
