import DynamoCpp.Components.Endpoint
import DynamoCpp.Discovery.Locked
import DynamoCpp.Framework.Document
import DynamoCpp.Llm.Protocols.Json
import Mathlib.Data.List.Induction

/-! # Model discovery

    A worker publishes a `ModelEntry` under `{prefix}{type}/{name}`; the HTTP frontend watches
    the prefix and keeps its `ModelManager` in step, a put adds the model of the entry and a
    delete removes the model of the key.  All workers that serve one model under one type and
    name share the key.
-/

namespace DynamoCpp.Llm.Http

open Framework
open Components (Namespace Component Endpoint Name validateName)
open Discovery (WatchEvent folded folded_concat)

/-! ## Entries -/

structure ModelEntry where
  name          : Bytes := []
  namespaceName : Bytes := []
  component     : Bytes := []
  endpoint      : Bytes := []
  /-- `chat` or `completion`. -/
  modelType     : Bytes := []
  deriving DecidableEq

namespace ModelEntry

def kvKey (e : ModelEntry) (pre : Bytes) : Bytes := pre ++ e.modelType ++ str "/" ++ e.name

def endpointMembers (e : ModelEntry) : Members :=
  Members.ofList
    [("namespace", Llm.toJson e.namespaceName), ("component", Llm.toJson e.component),
      ("name", Llm.toJson e.endpoint)]

def toJson (e : ModelEntry) : Json :=
  .object <| Members.ofList
    [("name", Llm.toJson e.name), ("endpoint", .object e.endpointMembers),
      ("model_type", Llm.toJson e.modelType)]

def fromJson (j : Json) (e : ModelEntry) : Except JsonError ModelEntry := do
  let name ← getOr j "name" []
  let modelType ← getOr j "model_type" []
  match j.find "endpoint" with
  | some it =>
    if it.isObject then
      let namespaceName ← it.value "namespace" []
      let component ← it.value "component" []
      let endpoint ← it.value "name" []
      .ok ⟨name, namespaceName, component, endpoint, modelType⟩
    else .ok { e with name, modelType }
  | none => .ok { e with name, modelType }

end ModelEntry

instance : ToJson ModelEntry := ⟨ModelEntry.toJson⟩

instance : FromJson ModelEntry where
  default := {}
  fromJson := ModelEntry.fromJson

instance : Restored ModelEntry id where
  get_toJson := fun e => by
    show ModelEntry.fromJson e.toJson {} = .ok e
    have hns : (Json.object e.endpointMembers).value "namespace" [] = .ok e.namespaceName :=
      Json.value_of_find (v := e.namespaceName) (by simp [ModelEntry.endpointMembers]) []
    have hcomponent : (Json.object e.endpointMembers).value "component" [] = .ok e.component :=
      Json.value_of_find (v := e.component) (by simp [ModelEntry.endpointMembers]) []
    have hname : (Json.object e.endpointMembers).value "name" [] = .ok e.endpoint :=
      Json.value_of_find (v := e.endpoint) (by simp [ModelEntry.endpointMembers]) []
    simp [ModelEntry.fromJson, ModelEntry.toJson, hns, hcomponent, hname]
  isNull_toJson := fun _ => rfl

/-- The texts of entries, as the JSON library writes and reads them.  Writing fails on a
    string that is not UTF-8; an entry that was written reads back. -/
structure EntryText where
  dump       : Json → Option Bytes
  parse      : Bytes → Option Json
  parse_dump : ∀ {e : ModelEntry} {text}, dump (toJson e) = some text →
    parse text = some (toJson e)

/-- `nlohmann::json::parse(value).get<ModelEntry>()` -/
def EntryText.read (text : EntryText) (value : Bytes) : Option ModelEntry :=
  (text.parse value).bind fun j => (j.get (α := ModelEntry)).toOption

variable {text : EntryText} {pre : Bytes}

theorem EntryText.read_dump {e : ModelEntry} {value : Bytes}
    (h : text.dump (toJson e) = some value) : text.read value = some e := by
  have hget : (toJson e).get = .ok e := Restored.get_toJson e
  rw [read, text.parse_dump h, Option.bind_some, hget]
  rfl

/-- Any code of entries will do as their text; it need not look like JSON. -/
def EntryText.ofCode (code : Code ModelEntry) : EntryText where
  dump j := (j.get (α := ModelEntry)).toOption.map code.put
  parse value := (code.take value).map fun r => toJson r.1
  parse_dump := by
    intro e value h
    have hget : (toJson e).get = .ok e := Restored.get_toJson e
    rw [hget] at h
    have hvalue : code.put e ++ [] = value := (List.append_nil _).trans (Option.some.inj h)
    rw [← hvalue, code.take_put]
    rfl

/-! ## The manager -/

inductive ModelType where
  | chat
  | completion
  deriving DecidableEq

def ModelType.bytes : ModelType → Bytes
  | .chat => str "chat"
  | .completion => str "completion"

theorem ModelType.bytes_inj {type type' : ModelType} (h : type.bytes = type'.bytes) :
    type = type' := by
  cases type <;> cases type' <;> first | rfl | exact absurd h (by decide)

/-- `ModelManager`.  The engine of a model is a client of an endpoint. -/
structure ModelManager where
  chatEngines       : OrdMap Bytes Endpoint := ∅
  completionEngines : OrdMap Bytes Endpoint := ∅

namespace ModelManager

def addChatModel (m : ModelManager) (name : Bytes) (engine : Endpoint) : ModelManager :=
  { m with chatEngines := m.chatEngines.insert name engine }

def addCompletionModel (m : ModelManager) (name : Bytes) (engine : Endpoint) : ModelManager :=
  { m with completionEngines := m.completionEngines.insert name engine }

def removeChatModel (m : ModelManager) (name : Bytes) : ModelManager :=
  { m with chatEngines := m.chatEngines.erase name }

def removeCompletionModel (m : ModelManager) (name : Bytes) : ModelManager :=
  { m with completionEngines := m.completionEngines.erase name }

/-- The model is listed. -/
def lists (m : ModelManager) : ModelType → Bytes → Bool
  | .chat, name => m.chatEngines.contains name
  | .completion, name => m.completionEngines.contains name

end ModelManager

/-! ## The watcher -/

/-- `add_model`.  The clients it makes are not modelled; making one is assumed to succeed. -/
def addModel (m : ModelManager) (entry : ModelEntry) : Except Bytes ModelManager := do
  let ns ← Namespace.create entry.namespaceName
  let component ← ns.component entry.component
  let endpoint ← component.endpoint entry.endpoint
  if entry.modelType = str "chat" then .ok (m.addChatModel entry.name endpoint)
  else if entry.modelType = str "completion" then .ok (m.addCompletionModel entry.name endpoint)
  else .error (str "unknown model_type: " ++ entry.modelType)

/-- `{prefix}{type}/{name}` as type and name; an empty type on mismatch. -/
def splitKey (key pre : Bytes) : Bytes × Bytes :=
  if pre <+: key then (cut '/'.toUInt8 (key.drop pre.length)).getD ([], []) else ([], [])

/-- One turn of the loop of `run_model_watcher`.  An entry that cannot be read or added is
    logged and skipped. -/
def watchModel (text : EntryText) (pre : Bytes) (m : ModelManager) (event : WatchEvent) :
    ModelManager :=
  match event.kind with
  | .put =>
    match text.read event.kv.value with
    | some entry => (addModel m entry).toOption.getD m
    | none => m
  | .delete =>
    let r := splitKey event.kv.key pre
    if r.1 = str "chat" then m.removeChatModel r.2
    else if r.1 = str "completion" then m.removeCompletionModel r.2
    else m

/-- `run_model_watcher` over the events received so far. -/
def runModelWatcher (text : EntryText) (pre : Bytes) (events : List WatchEvent) : ModelManager :=
  events.foldl (watchModel text pre) {}

/-! ## Registered models -/

/-- A model that a worker serves. -/
structure Model where
  type     : ModelType
  name     : Bytes
  endpoint : Endpoint
  deriving DecidableEq

def Model.entry (m : Model) : ModelEntry where
  name          := m.name
  namespaceName := m.endpoint.component.ns.name.bytes
  component     := m.endpoint.component.name.bytes
  endpoint      := m.endpoint.name.bytes
  modelType     := m.type.bytes

/-- The key of a model. -/
def modelKey (pre : Bytes) (type : ModelType) (name : Bytes) : Bytes :=
  pre ++ type.bytes ++ str "/" ++ name

/-- What `register_model_entry` puts for some model. -/
def Registers (text : EntryText) (pre key value : Bytes) : Prop :=
  ∃ m : Model, key = m.entry.kvKey pre ∧ text.dump (toJson m.entry) = some value

theorem slash_notMem (type : ModelType) : '/'.toUInt8 ∉ type.bytes := by
  cases type <;> decide

theorem modelKey_eq (pre : Bytes) (type : ModelType) (name : Bytes) :
    modelKey pre type name = pre ++ (type.bytes ++ '/'.toUInt8 :: name) := by
  have hslash : str "/" = ['/'.toUInt8] := by decide
  simp [modelKey, hslash]

theorem prefix_modelKey (pre : Bytes) (type : ModelType) (name : Bytes) :
    pre <+: modelKey pre type name := by
  rw [modelKey_eq]
  exact List.prefix_append _ _

/-- Type and name can be read off the key. -/
theorem splitKey_eq_iff {key : Bytes} {type : ModelType} {name : Bytes} :
    splitKey key pre = (type.bytes, name) ↔ key = modelKey pre type name := by
  have hne : type.bytes ≠ [] := by cases type <;> decide
  rw [modelKey_eq, splitKey]
  constructor
  · intro h
    split at h
    · next hpre =>
      obtain ⟨rest, rfl⟩ := hpre
      rw [List.drop_left] at h
      cases hcut : cut '/'.toUInt8 rest with
      | none =>
        -- without a slash the type is empty, and no model type is
        rw [hcut] at h
        exact absurd (Prod.mk.inj h).1.symm hne
      | some r =>
        rw [hcut, Option.getD_some] at h
        subst h
        rw [(cut_eq_some.mp hcut).2]
    · exact absurd (Prod.mk.inj h).1.symm hne
  · rintro rfl
    have hcut : cut '/'.toUInt8 (type.bytes ++ '/'.toUInt8 :: name) = some (type.bytes, name) :=
      cut_eq_some.mpr ⟨slash_notMem type, rfl⟩
    rw [if_pos (List.prefix_append _ _), List.drop_left, hcut]
    rfl

theorem modelKey_inj {type type' : ModelType} {name name' : Bytes} :
    modelKey pre type name = modelKey pre type' name' ↔ type = type' ∧ name = name' := by
  constructor
  · intro h
    have hsplit : splitKey (modelKey pre type name) pre = (type'.bytes, name') :=
      splitKey_eq_iff.mpr h
    rw [splitKey_eq_iff.mpr rfl] at hsplit
    obtain ⟨htype, hname⟩ := Prod.mk.inj hsplit
    exact ⟨ModelType.bytes_inj htype, hname⟩
  · rintro ⟨rfl, rfl⟩
    rfl

/-! ## The fold of the watcher -/

namespace ModelManager

/-- Adding a model of either type. -/
def add (m : ModelManager) : ModelType → Bytes → Endpoint → ModelManager
  | .chat => m.addChatModel
  | .completion => m.addCompletionModel

def remove (m : ModelManager) : ModelType → Bytes → ModelManager
  | .chat => m.removeChatModel
  | .completion => m.removeCompletionModel

theorem lists_add (m : ModelManager) (type type' : ModelType) (name name' : Bytes)
    (engine : Endpoint) :
    (m.add type name engine).lists type' name' =
      (decide (type = type' ∧ name = name') || m.lists type' name') := by
  rw [Bool.eq_iff_iff]
  cases type <;> cases type' <;>
    simp [add, lists, addChatModel, addCompletionModel, Std.ExtTreeMap.contains_insert]

theorem lists_remove (m : ModelManager) (type type' : ModelType) (name name' : Bytes) :
    (m.remove type name).lists type' name' =
      (!decide (type = type' ∧ name = name') && m.lists type' name') := by
  rw [Bool.eq_iff_iff]
  cases type <;> cases type' <;>
    simp [remove, lists, removeChatModel, removeCompletionModel, Std.ExtTreeMap.contains_erase]

end ModelManager

theorem addModel_entry (m : ModelManager) (model : Model) :
    addModel m model.entry = .ok (m.add model.type model.name model.endpoint) := by
  obtain ⟨type, name, endpoint⟩ := model
  simp only [addModel, Model.entry, Namespace.create, Namespace.component, Component.endpoint,
    Components.validateName_bytes]
  cases type <;> rfl

/-- A put of a registration adds the model of its key. -/
theorem watchModel_put {event : WatchEvent}
    (hkind : event.kind = .put) (h : Registers text pre event.kv.key event.kv.value)
    (m : ModelManager) :
    ∃ model : Model, event.kv.key = modelKey pre model.type model.name ∧
      watchModel text pre m event = m.add model.type model.name model.endpoint := by
  obtain ⟨model, hkey, hdump⟩ := h
  refine ⟨model, hkey, ?_⟩
  simp only [watchModel, hkind, EntryText.read_dump hdump, addModel_entry]
  rfl

/-- A delete removes the model of its key. -/
theorem watchModel_delete {text : EntryText} {pre : Bytes} {event : WatchEvent}
    (hkind : event.kind = .delete) (m : ModelManager) :
    (∃ type name, event.kv.key = modelKey pre type name ∧
        watchModel text pre m event = m.remove type name) ∨
      (∀ type name, event.kv.key ≠ modelKey pre type name) ∧ watchModel text pre m event = m := by
  simp only [watchModel, hkind]
  split
  · next htype =>
    exact .inl ⟨.chat, _, splitKey_eq_iff.mp (Prod.ext htype rfl), rfl⟩
  · next hchat =>
    split
    · next htype =>
      exact .inl ⟨.completion, _, splitKey_eq_iff.mp (Prod.ext htype rfl), rfl⟩
    · next hcompletion =>
      -- a key of a model would have one of the two types
      refine .inr ⟨fun type name hkey => ?_, rfl⟩
      have hsplit := splitKey_eq_iff.mpr hkey
      cases type with
      | chat => exact hchat (congrArg Prod.fst hsplit)
      | completion => exact hcompletion (congrArg Prod.fst hsplit)

/-- One event decides about the model of its key and leaves the others. -/
theorem lists_watchModel {event : WatchEvent}
    (h : event.kind = .put → Registers text pre event.kv.key event.kv.value) (m : ModelManager)
    (type : ModelType) (name : Bytes) :
    (watchModel text pre m event).lists type name =
      if event.kv.key = modelKey pre type name then decide (event.kind = .put)
      else m.lists type name := by
  cases hkind : event.kind with
  | put =>
    obtain ⟨model, hkey, hadd⟩ := watchModel_put hkind (h hkind) m
    rw [hadd, ModelManager.lists_add, hkey]
    by_cases hsame : model.type = type ∧ model.name = name
    · rw [if_pos (modelKey_inj.mpr hsame), decide_eq_true hsame]
      rfl
    · rw [if_neg (fun heq => hsame (modelKey_inj.mp heq)), decide_eq_false hsame]
      rfl
  | delete =>
    rcases @watchModel_delete text pre event hkind m with
      ⟨type', name', hkey, hremove⟩ | ⟨hother, hskip⟩
    · rw [hremove, ModelManager.lists_remove, hkey]
      by_cases hsame : type' = type ∧ name' = name
      · rw [if_pos (modelKey_inj.mpr hsame), decide_eq_true hsame]
        rfl
      · rw [if_neg (fun heq => hsame (modelKey_inj.mp heq)), decide_eq_false hsame]
        rfl
    · rw [hskip, if_neg (hother type name)]

/-- What the watcher lists are the models whose keys the events leave. -/
theorem lists_runModelWatcher {events : List WatchEvent}
    (h : ∀ e ∈ events, e.kind = .put → Registers text pre e.kv.key e.kv.value)
    (type : ModelType) (name : Bytes) :
    (runModelWatcher text pre events).lists type name =
      (folded events (modelKey pre type name)).isSome := by
  -- from the end: the last event for the key decides
  induction events using List.reverseRecOn with
  | nil => cases type <;> simp [runModelWatcher, ModelManager.lists, folded]
  | append_singleton events event ih =>
    have hevents : ∀ e ∈ events, e.kind = .put → Registers text pre e.kv.key e.kv.value :=
      fun e he => h e (List.mem_append_left _ he)
    have hevent := h event (List.mem_append_right _ List.mem_cons_self)
    rw [runModelWatcher, List.foldl_append, List.foldl_cons, List.foldl_nil,
      lists_watchModel hevent, ← runModelWatcher, ih hevents, folded_concat]
    split
    · cases event.kind <;> rfl
    · rfl

end DynamoCpp.Llm.Http
