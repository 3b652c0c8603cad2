import DynamoCpp.Llm.Http.ModelLiveness

/-! # The models of the store

    The watcher takes type and name of a model that is added from the entry, which is the
    value of the event, and those of a model that is removed from the key.  For the keys of
    registrations the two agree, whatever the prefix and the name are, so the manager holds
    the models of the entries that the events leave.
-/

namespace DynamoCpp.Llm.Http

open Framework
open Discovery (WatchEvent folded)

/-- An entry that the events leave under some key. -/
def Left (text : EntryText) (events : List WatchEvent) (entry : ModelEntry) : Prop :=
  ∃ key kv, folded events key = some kv ∧ text.read kv.value = some entry

/-- What the events leave was put. -/
theorem exists_put_of_folded {events : List WatchEvent} {key : Bytes} {kv : Discovery.KeyValue}
    (h : folded events key = some kv) :
    ∃ e ∈ events, e.kind = .put ∧ e.kv.key = key ∧ e.kv = kv := by
  rcases EventLog.exists_event_of_replay _ _ h with ⟨change, hchange, hkey, himg⟩ | hnone
  · obtain ⟨e, he, rfl⟩ := List.mem_map.mp hchange
    simp only [WatchEvent.change, Option.ite_none_right_eq_some, Option.some.injEq] at hkey himg
    exact ⟨e, he, himg.1, hkey, himg.2⟩
  · cases hnone

/-- A registration is read back as the entry of a model whose key it has. -/
theorem Registers.read {text : EntryText} {pre key value : Bytes}
    (h : Registers text pre key value) :
    ∃ model : Model, key = modelKey pre model.type model.name ∧
      text.read value = some model.entry := by
  obtain ⟨model, hkey, hdump⟩ := h
  exact ⟨model, hkey, EntryText.read_dump hdump⟩

theorem delete_unlists {text : EntryText} {pre : Bytes} {delete : WatchEvent} {type : ModelType}
    {name : Bytes} (hdelete : delete.kind = .delete) (hkey : delete.kv.key = modelKey pre type name)
    (m : ModelManager) : (watchModel text pre m delete).lists type name = false := by
  have hnot : delete.kind = .put → Registers text pre delete.kv.key delete.kv.value := by
    intro hput
    rw [hdelete] at hput
    cases hput
  rw [lists_watchModel hnot, if_pos hkey, hdelete]
  rfl

section

variable {text : EntryText} {pre : Bytes} {events : List WatchEvent}
  (h : ∀ e ∈ events, e.kind = .put → Registers text pre e.kv.key e.kv.value)

include h

/-- The key of a model holds an entry exactly if an entry of that type and name is left. -/
theorem isSome_folded_iff_left (type : ModelType) (name : Bytes) :
    (folded events (modelKey pre type name)).isSome = true ↔
      ∃ entry, Left text events entry ∧ entry.modelType = type.bytes ∧ entry.name = name := by
  constructor
  · intro hsome
    obtain ⟨kv, hkv⟩ := Option.isSome_iff_exists.mp hsome
    obtain ⟨e, he, hput, hkey, rfl⟩ := exists_put_of_folded hkv
    obtain ⟨model, hmodel, hread⟩ := (h e he hput).read
    obtain ⟨rfl, rfl⟩ := modelKey_inj.mp (hkey.symm.trans hmodel)
    exact ⟨model.entry, ⟨_, e.kv, hkv, hread⟩, rfl, rfl⟩
  · rintro ⟨entry, ⟨key, kv, hkv, hentry⟩, htype, rfl⟩
    obtain ⟨e, he, hput, hkey, rfl⟩ := exists_put_of_folded hkv
    obtain ⟨model, hmodel, hread⟩ := (h e he hput).read
    -- the entry that is read is that of the model whose key it is
    obtain rfl := Option.some.inj (hentry.symm.trans hread)
    obtain rfl : model.type = type := ModelType.bytes_inj htype
    rw [← hkey, hmodel] at hkv
    exact Option.isSome_iff_exists.mpr ⟨e.kv, hkv⟩

/-- **The watcher mirrors the store.**  After any events for registrations, the chat models
    and the completion models of the manager are those of the entries that the events leave,
    and a delete removes the model that a put of its key added. -/
theorem watcher_mirrors_store :
    (∀ name, name ∈ (runModelWatcher text pre events).chatEngines ↔
      ∃ entry, Left text events entry ∧ entry.modelType = str "chat" ∧ entry.name = name) ∧
    (∀ name, name ∈ (runModelWatcher text pre events).completionEngines ↔
      ∃ entry, Left text events entry ∧ entry.modelType = str "completion" ∧
        entry.name = name) ∧
    ∀ put ∈ events, ∀ delete : WatchEvent, put.kind = .put → delete.kind = .delete →
      delete.kv.key = put.kv.key →
      ∃ (type : ModelType) (entry : ModelEntry), text.read put.kv.value = some entry ∧
        entry.modelType = type.bytes ∧
        ∀ m, (watchModel text pre m put).lists type entry.name = true ∧
          (watchModel text pre m delete).lists type entry.name = false := by
  refine ⟨fun name => ?_, fun name => ?_, ?_⟩
  · rw [Std.ExtTreeMap.mem_iff_contains]
    exact Iff.trans (by rw [← lists_runModelWatcher h]; rfl) (isSome_folded_iff_left h .chat name)
  · rw [Std.ExtTreeMap.mem_iff_contains]
    exact Iff.trans (by rw [← lists_runModelWatcher h]; rfl)
      (isSome_folded_iff_left h .completion name)
  · intro put hput delete hkind hdelete hkey
    obtain ⟨model, hmodel, hread⟩ := (h put hput hkind).read
    refine ⟨model.type, model.entry, hread, rfl, fun m => ⟨?_, ?_⟩⟩
    · rw [lists_watchModel (h put hput), hmodel, hkind]
      exact if_pos rfl
    · exact delete_unlists hdelete (hkey.trans hmodel) m

end

/-- A chat model whose name has slashes and an empty segment. -/
def slashedModel : Model := { sharedModel with name := str "a//b" }

def slashedEvent (kind : Discovery.WatchKind) : WatchEvent where
  kind := kind
  kv   := { key := slashedModel.entry.kvKey (str "p/"), value := entryCode.put slashedModel.entry }

theorem dump_slashed :
    (EntryText.ofCode entryCode).dump (toJson slashedModel.entry) =
      some (entryCode.put slashedModel.entry) := by
  show ((toJson slashedModel.entry).get (α := ModelEntry)).toOption.map entryCode.put = _
  rfl

/-- It is put, deleted and put again. -/
theorem slashed_mirrored :
    str "a//b" ∈ (runModelWatcher (.ofCode entryCode) (str "p/")
      [slashedEvent .put, slashedEvent .delete, slashedEvent .put]).chatEngines := by
  have hregisters : ∀ e ∈ [slashedEvent .put, slashedEvent .delete, slashedEvent .put],
      e.kind = .put → Registers (.ofCode entryCode) (str "p/") e.kv.key e.kv.value := by
    intro e he _
    simp only [List.mem_cons, List.not_mem_nil, or_false] at he
    rcases he with rfl | rfl | rfl <;> exact ⟨slashedModel, rfl, dump_slashed⟩
  have hleft : Left (.ofCode entryCode)
      [slashedEvent .put, slashedEvent .delete, slashedEvent .put] slashedModel.entry :=
    ⟨slashedModel.entry.kvKey (str "p/"), (slashedEvent .put).kv, by decide,
      EntryText.read_dump dump_slashed⟩
  exact ((watcher_mirrors_store hregisters).1 (str "a//b")).mpr ⟨_, hleft, rfl, rfl⟩

end DynamoCpp.Llm.Http
