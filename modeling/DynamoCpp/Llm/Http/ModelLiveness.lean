import DynamoCpp.Discovery.Contents
import DynamoCpp.Discovery.LeasedKeys
import DynamoCpp.Llm.Http.ModelWatcher

/-! # Which models are listed

    Workers register models, each under its own lease, and leases end.  Workers that serve
    the same model share its key, and the key is bound to the lease of the one that
    registered last: when that lease ends the model is no longer listed, even if other
    workers still serve it.
-/

namespace DynamoCpp.Llm.Http

open Framework
open Discovery (World Move LeaseId Server KeysMatch foldSink watching noMidSnapshotLoss consume)
open Discovery.InProcess (WatchedStore WatchStep watchedStore)

/-! ## Workers -/

/-- The keys that the step writes are registrations of models under leases. -/
structure Registering (text : EntryText) (pre : Bytes) (step : WatchStep) : Prop where
  underLease : step.UnderLease
  registers  : step.Carries (Registers text pre)

structure RegisteringMove (text : EntryText) (pre : Bytes) (l : Move) : Prop where
  underLease : l.UnderLease
  registers  : l.Carries (Registers text pre)

/-- The accepted registrations of a run, each with its lease. -/
def registrations (steps : List WatchStep) : List (Bytes × LeaseId) :=
  watchedStore.collect (fun w step => step.put w) watchedStore.init steps

def registrationsAt (pre : Bytes) (id : Nat) (moves : List Move) : List (Bytes × LeaseId) :=
  ((watching pre id).guarded (noMidSnapshotLoss id)).collect (fun w l => l.put w)
    (watching pre id).init moves

section

variable (live : LeaseId → Prop) (registered : List (Bytes × LeaseId)) (key : Bytes)

/-- One of the leases under which the key was registered is live. -/
def SomeLives : Prop := ∃ l, (key, l) ∈ registered ∧ live l

/-- The lease under which the key was registered last is live. -/
def LastLives : Prop := ∃ l, lastFor registered key = some l ∧ live l

end

/-! ## The in-process store -/

/-- What a run of registrations keeps, with the registrations so far. -/
structure Tracked (text : EntryText) (pre : Bytes) (w : WatchedStore)
    (registered : List (Bytes × LeaseId)) : Prop where
  following : Discovery.InProcess.Following w
  carries   : w.Carries (Registers text pre)
  leased    : w.store.Leased registered

variable {text : EntryText} {pre : Bytes}

theorem tracked_of_run {steps : List WatchStep}
    {w : WatchedStore} (hrun : watchedStore.run steps = some w)
    (hsteps : ∀ step ∈ steps, Registering text pre step) :
    Tracked text pre w (registrations steps) := by
  -- that the watcher sees registrations rests on its following the store
  have hinit : Tracked text pre watchedStore.init [] :=
    ⟨Discovery.InProcess.following_init, .init, .init⟩
  refine System.collect_invariant ?_ hinit hsteps hrun
  intro w step w' puts h hstep hexec
  exact ⟨h.following.step hexec, h.carries.step h.following hstep.registers hexec,
    h.leased.step hstep.underLease hexec⟩

/-- A model is listed exactly if the lease of its last registration is live. -/
theorem lists_received {steps : List WatchStep}
    {w : WatchedStore} (hrun : watchedStore.run steps = some w)
    (hsteps : ∀ step ∈ steps, Registering text pre step) {c : Nat} (hc : c < w.channels)
    (hopen : w.isOpen c = true) (hpre : w.pre c = pre) (type : ModelType) (name : Bytes) :
    (runModelWatcher text pre (w.received c)).lists type name = true ↔
      LastLives w.store.Live (registrations steps) (modelKey pre type name) := by
  -- listed ↔ left by the events ↔ in the store ↔ the last lease is live
  have htracked := tracked_of_run hrun hsteps
  have hfollowed := htracked.following.followed c hc hopen
  rw [lists_runModelWatcher (htracked.carries.received hfollowed), hfollowed.current, hpre,
    Discovery.InProcess.under, if_pos (prefix_modelKey pre type name)]
  exact htracked.leased.isSome_iff _

/-! ## discoveryd -/

theorem mem_foldSink (events : List Discovery.WatchEvent) (k : Bytes) :
    k ∈ foldSink events ↔ (Discovery.folded events k).isSome = true := by
  induction events using List.reverseRecOn with
  | nil => simp [foldSink, Discovery.folded]
  | append_singleton events e ih =>
    rw [foldSink, List.foldl_append, ← foldSink, Discovery.folded_concat]
    show k ∈ consume (foldSink events) e ↔ _
    unfold consume
    cases e.kind <;> by_cases hk : e.kv.key = k <;> simp [hk, ih]

/-- What a run against discoveryd keeps. -/
structure TrackedAt (text : EntryText) (pre : Bytes) (w : World)
    (registered : List (Bytes × LeaseId)) : Prop where
  carries : w.Carries (Registers text pre)
  leased  : w.server.Leased registered

theorem trackedAt_of_run {id : Nat} {moves : List Move}
    {w : World} (hrun : ((watching pre id).guarded (noMidSnapshotLoss id)).run moves = some w)
    (hmoves : ∀ l ∈ moves, RegisteringMove text pre l) :
    TrackedAt text pre w (registrationsAt pre id moves) := by
  have hinit : TrackedAt text pre (watching pre id).init [] :=
    ⟨⟨.init, (fun _ h => by cases h), (fun _ h => by cases h)⟩, .init⟩
  refine System.collect_invariant ?_ hinit hmoves hrun
  intro w l w' puts h hl hexec
  -- the guard only rules moves out
  have hmove := (Option.ite_none_right_eq_some.mp hexec).2
  exact ⟨h.carries.step hl.registers hmove, h.leased.move hl.underLease hmove⟩

theorem lists_sink {id : Nat} {moves : List Move} {w : World}
    (hrun : ((watching pre id).guarded (noMidSnapshotLoss id)).run moves = some w)
    (hmoves : ∀ l ∈ moves, RegisteringMove text pre l) (hsettled : w.Settled)
    (type : ModelType) (name : Bytes) :
    (runModelWatcher text pre w.sink).lists type name = true ↔
      LastLives w.server.Live (registrationsAt pre id moves) (modelKey pre type name) := by
  -- once everything is delivered, the sink and the server have the same keys
  have htracked := trackedAt_of_run hrun hmoves
  obtain ⟨h, hw⟩ := Discovery.watches_of_reachable (.of_run hrun)
  have hkeys := hw.sink ▸ hw.keysMatch hsettled
  rw [lists_runModelWatcher htracked.carries.sink, ← mem_foldSink, hkeys,
    and_iff_left (prefix_modelKey pre type name), Std.ExtTreeMap.mem_iff_isSome_getElem?]
  exact htracked.leased.isSome_iff _

/-! ## Main result -/

/-- **The last worker decides.**  When the watcher has consumed the events of a run of
    registrations and lease ends, a model is listed exactly if the lease of its last
    registration is live.  So it is listed while any of its workers lives exactly if the last
    one to register does, or none. -/
theorem listed_iff_last_worker_lives (text : EntryText) (pre : Bytes) (type : ModelType)
    (name : Bytes) :
    (∀ steps w c, watchedStore.run steps = some w →
      (∀ step ∈ steps, Registering text pre step) → c < w.channels → w.isOpen c = true →
      w.pre c = pre →
      ((runModelWatcher text pre (w.received c)).lists type name = true ↔
        LastLives w.store.Live (registrations steps) (modelKey pre type name)) ∧
      (((runModelWatcher text pre (w.received c)).lists type name = true ↔
          SomeLives w.store.Live (registrations steps) (modelKey pre type name)) ↔
        (SomeLives w.store.Live (registrations steps) (modelKey pre type name) →
          LastLives w.store.Live (registrations steps) (modelKey pre type name)))) ∧
    ∀ id moves w, ((watching pre id).guarded (noMidSnapshotLoss id)).run moves = some w →
      (∀ l ∈ moves, RegisteringMove text pre l) → w.Settled →
      ((runModelWatcher text pre w.sink).lists type name = true ↔
        LastLives w.server.Live (registrationsAt pre id moves) (modelKey pre type name)) ∧
      (((runModelWatcher text pre w.sink).lists type name = true ↔
          SomeLives w.server.Live (registrationsAt pre id moves) (modelKey pre type name)) ↔
        (SomeLives w.server.Live (registrationsAt pre id moves) (modelKey pre type name) →
          LastLives w.server.Live (registrationsAt pre id moves) (modelKey pre type name))) := by
  constructor
  · intro steps w c hrun hsteps hc hopen hpre
    have hlast := lists_received hrun hsteps hc hopen hpre type name
    exact ⟨hlast, lastFor_live_iff hlast⟩
  · intro id moves w hrun hmoves hsettled
    have hlast := lists_sink hrun hmoves hsettled type name
    exact ⟨hlast, lastFor_live_iff hlast⟩

/-! ### Two workers of one model -/

/-- Entries as their strings, one after the other: a text for examples, which is not JSON. -/
def entryCode : Code ModelEntry :=
  let string : Code Bytes := Code.byte.list
  (string.prod (string.prod (string.prod (string.prod string)))).map
    (fun e => (e.name, e.namespaceName, e.component, e.endpoint, e.modelType))
    (fun (name, namespaceName, component, endpoint, modelType) =>
      ⟨name, namespaceName, component, endpoint, modelType⟩)
    fun _ => rfl

def sharedModel : Model where
  type     := .chat
  name     := str "m"
  endpoint := ⟨⟨⟨str "n", List.cons_ne_nil _ _, rfl⟩, ⟨str "c", List.cons_ne_nil _ _, rfl⟩⟩,
    ⟨str "e", List.cons_ne_nil _ _, rfl⟩⟩

def sharedKey : Bytes := sharedModel.entry.kvKey (str "p/")

def sharedValue : Bytes := entryCode.put sharedModel.entry

theorem registers_shared : Registers (.ofCode entryCode) (str "p/") sharedKey sharedValue := by
  refine ⟨sharedModel, rfl, ?_⟩
  show ((toJson sharedModel.entry).get (α := ModelEntry)).toOption.map entryCode.put = _
  rfl

/-- Two workers register the model while it is watched, and one of them ends. -/
def twoWorkers (ended : LeaseId) : List WatchStep :=
  [.locked .makeLease (fun _ => true) [], .locked .makeLease (fun _ => true) [],
    .watch (str "p/"),
    .locked (.kvPut sharedKey sharedValue (some 1)) (fun _ => true) [],
    .locked (.kvPut sharedKey sharedValue (some 2)) (fun _ => true) [],
    .locked (.revokeLease ended) (fun _ => true) []]

theorem twoWorkers_registering (ended : LeaseId) :
    ∀ step ∈ twoWorkers ended, Registering (.ofCode entryCode) (str "p/") step := by
  have hput : ∀ l : LeaseId, l ≠ 0 → Registering (.ofCode entryCode) (str "p/")
      (.locked (.kvPut sharedKey sharedValue (some l)) (fun _ => true) []) := by
    intro l hl
    refine ⟨hl, ?_⟩
    rintro p ⟨⟩
    exact registers_shared
  intro step hstep
  simp only [twoWorkers, List.mem_cons, List.not_mem_nil, or_false] at hstep
  rcases hstep with rfl | rfl | rfl | rfl | rfl | rfl
  · exact ⟨trivial, fun p hp => by cases hp⟩
  · exact ⟨trivial, fun p hp => by cases hp⟩
  · exact ⟨trivial, trivial⟩
  · exact hput 1 (by decide)
  · exact hput 2 (by decide)
  · exact ⟨trivial, fun p hp => by cases hp⟩

def twoWorkersAt (ended : LeaseId) : List Move :=
  [.accept, .request (fun _ => true) 0 0 1 (.createLease 10),
    .request (fun _ => true) 0 0 2 (.createLease 10), .reconnect, .serve (fun _ => true) 0 0,
    .request (fun _ => true) 0 0 3 (.kvPut sharedKey sharedValue 1),
    .request (fun _ => true) 0 0 4 (.kvPut sharedKey sharedValue 2),
    .request (fun _ => true) 0 0 5 (.revoke ended), .deliver, .deliver, .deliver, .deliver]

theorem twoWorkersAt_registering (ended : LeaseId) :
    ∀ l ∈ twoWorkersAt ended, RegisteringMove (.ofCode entryCode) (str "p/") l := by
  have hput : ∀ (req : Nat) (l : LeaseId), l ≠ 0 → RegisteringMove (.ofCode entryCode) (str "p/")
      (.request (fun _ => true) 0 0 req (.kvPut sharedKey sharedValue l)) := by
    intro req l hl
    refine ⟨hl, ?_⟩
    rintro p ⟨⟩
    exact registers_shared
  have hlease : ∀ (req : Nat) (r : Discovery.Request), r.UnderLease → r.pair? = none →
      RegisteringMove (.ofCode entryCode) (str "p/") (.request (fun _ => true) 0 0 req r) := by
    intro req r hr hnone
    refine ⟨hr, fun p hp => ?_⟩
    rw [hnone] at hp
    cases hp
  intro l hl
  simp only [twoWorkersAt, List.mem_cons, List.not_mem_nil, or_false] at hl
  rcases hl with rfl | rfl | rfl | rfl | rfl | rfl | rfl | rfl | rfl | rfl | rfl | rfl
  · exact ⟨trivial, trivial⟩
  · exact hlease _ _ trivial rfl
  · exact hlease _ _ trivial rfl
  · exact ⟨trivial, trivial⟩
  · exact ⟨trivial, trivial⟩
  · exact hput _ 1 (by decide)
  · exact hput _ 2 (by decide)
  · exact hlease _ _ trivial rfl
  all_goals exact ⟨trivial, trivial⟩

/-- The first worker ends, and the model stays listed as it should. -/
theorem listed_after_first_worker :
    (∃ w, watchedStore.run (twoWorkers 1) = some w ∧
      ((runModelWatcher (.ofCode entryCode) (str "p/") (w.received 0)).lists .chat (str "m") =
          true ↔
        SomeLives w.store.Live (registrations (twoWorkers 1)) sharedKey)) ∧
    ∃ w, ((watching (str "p/") 1).guarded (noMidSnapshotLoss 1)).run (twoWorkersAt 1) = some w ∧
      ((runModelWatcher (.ofCode entryCode) (str "p/") w.sink).lists .chat (str "m") = true ↔
        SomeLives w.server.Live (registrationsAt (str "p/") 1 (twoWorkersAt 1)) sharedKey) := by
  obtain ⟨hstore, hserver⟩ :=
    listed_iff_last_worker_lives (.ofCode entryCode) (str "p/") .chat (str "m")
  constructor
  · refine System.exists_run
      (fun w => (w.channels, w.isOpen 0, w.pre 0, (w.store.members 2).isSome))
      (1, true, str "p/", true) (by decide +kernel) fun w hrun hfacts => ?_
    simp only [Prod.mk.injEq] at hfacts
    obtain ⟨hchannels, hopen, hpre, hlive⟩ := hfacts
    refine ((hstore _ w 0 hrun (twoWorkers_registering 1) (by omega) hopen hpre).2).mpr
      fun _ => ⟨2, ?_, hlive⟩
    decide +kernel
  · refine System.exists_run (fun w => decide (w.Settled ∧ w.server.Live 2)) true
      (by decide +kernel) fun w hrun hfacts => ?_
    obtain ⟨hsettled, hlive⟩ := of_decide_eq_true hfacts
    refine ((hserver 1 _ w hrun (twoWorkersAt_registering 1) hsettled).2).mpr
      fun _ => ⟨2, ?_, hlive⟩
    decide +kernel

/-- The worker that registered last ends, and the model is gone although the first worker
    still lives. -/
theorem unlisted_after_last_worker :
    (∀ step ∈ twoWorkers 2, Registering (.ofCode entryCode) (str "p/") step) ∧
    ∃ w, watchedStore.run (twoWorkers 2) = some w ∧ 0 < w.channels ∧ w.isOpen 0 = true ∧
      w.pre 0 = str "p/" ∧
      SomeLives w.store.Live (registrations (twoWorkers 2)) sharedKey ∧
      (runModelWatcher (.ofCode entryCode) (str "p/") (w.received 0)).lists .chat (str "m") =
        false := by
  refine ⟨twoWorkers_registering 2, ?_⟩
  refine System.exists_run (fun w => (w.channels, w.isOpen 0, w.pre 0, (w.store.members 1).isSome,
      (runModelWatcher (.ofCode entryCode) (str "p/") (w.received 0)).lists .chat (str "m")))
    (1, true, str "p/", true, false) (by decide +kernel) fun w hrun hfacts => ?_
  simp only [Prod.mk.injEq] at hfacts
  obtain ⟨hchannels, hopen, hpre, hlive, hunlisted⟩ := hfacts
  refine ⟨by omega, hopen, hpre, ⟨1, ?_, hlive⟩, hunlisted⟩
  decide +kernel

end DynamoCpp.Llm.Http
