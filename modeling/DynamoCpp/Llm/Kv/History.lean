import DynamoCpp.Framework.Recency
import DynamoCpp.Llm.Kv.Identity

/-! # The history of the reuse pool

    The history of a pool is two logs.  The first has the blocks that came in, by `insert`
    or by a handle that was released; the time of a block is its last position in it, and
    the tick of a filed block is this time in 64 bits.  The second has the entries into the
    uninitialized queue: the arrivals of blocks without a hash or with the hash of a filed
    block, and the filed blocks that were reset.
-/

namespace DynamoCpp.Llm.Kv

open Framework AvailableBlocksState

namespace AvailableBlocksState

/-! ## The filed blocks -/

/-- The filed blocks, as the priority set orders them. -/
def filed (s : AvailableBlocksState) : List InsertedBlock :=
  s.prioritySet.toList.filterMap fun entry => s.lookupMap[entry.2]?

/-- The identities of the blocks in the uninitialized queue, from its front. -/
def queue (s : AvailableBlocksState) : List Nat := s.uninitializedSet.map (·.id)

section filed

variable {s s' : AvailableBlocksState} {block : InsertedBlock}

/-- Every entry of the priority set has its block. -/
theorem Indexed.entry (hs : Indexed s) {entry : PriorityKey × SequenceHash}
    (hmem : entry ∈ s.prioritySet.toList) :
    ∃ b : InsertedBlock, s.lookupMap[entry.2]? = some b ∧ keyOf b.toKvBlock = entry.1 :=
  (hs.priority entry.1 entry.2).mp (Std.ExtTreeMap.mem_toList_iff_getElem?_eq_some.mp hmem)

/-- The first entry of the priority set is the first filed block. -/
theorem popPriority_filed (hs : Indexed s) :
    (s.filed = [] ∧ s.popPriority = (.ok none, s)) ∨
      ∃ block s', s.popPriority = (.ok (some block), s') ∧ Indexed s' ∧
        s'.uninitializedSet = s.uninitializedSet ∧ s.filed = block :: s'.filed := by
  cases hfirst : s.prioritySet.first? with
  | none =>
    refine .inl ⟨?_, by simp [popPriority, hfirst]⟩
    rw [filed, List.head?_eq_none_iff.mp hfirst, List.filterMap_nil]
  | some entry =>
    obtain ⟨key, hash⟩ := entry
    have hlist := OrdMap.toList_eq_cons_of_first? hfirst
    obtain ⟨b, hb, hkey⟩ := (hs.priority key hash).mp (OrdMap.getElem?_of_first? hfirst)
    have hpop : s.popPriority = (.ok (some b),
        { s with
          lookupMap := s.lookupMap.erase hash
          prioritySet := s.prioritySet.erase key }) := by
      simp [popPriority, hfirst, hb]
    have htake : s.takeWithHashLocked hash = some (b,
        { s with
          lookupMap := s.lookupMap.erase hash
          prioritySet := s.prioritySet.erase key }) := by
      simp [takeWithHashLocked, hb, hkey]
    refine .inr ⟨b, _, hpop, hs.takeWithHashLocked htake, rfl, ?_⟩
    unfold filed
    simp only [hlist, List.filterMap_cons, hb]
    refine congrArg _ (List.filterMap_congr fun e he => ?_)
    -- the other entries have other hashes, since their keys differ
    have hentry := Std.ExtTreeMap.mem_toList_iff_getElem?_eq_some.mp he
    have hne : hash ≠ e.2 := by
      rintro rfl
      obtain ⟨b', hb', hkey'⟩ := hs.entry (hlist ▸ List.mem_cons_of_mem _ he)
      rw [hb] at hb'
      rw [← Option.some.inj hb', hkey] at hkey'
      rw [← hkey'] at hentry
      simp at hentry
    rw [OrdMap.get_erase, if_neg hne.symm]

end filed

/-! ## Calls without an arrival -/

/-- The blocks of the hashes that are filed, each once, in the order of the hashes. -/
def filedUnder : OrdMap SequenceHash InsertedBlock → List SequenceHash → List Nat
  | _, [] => []
  | map, hash :: hashes =>
    match map[hash]? with
    | none => filedUnder map hashes
    | some block => block.id :: filedUnder (map.erase hash) hashes

/-- `s'` is at the same tick as `s` and has no entry in the lookup map that `s` does not
    have.  The queue has lost blocks at its front and got the given ones at its end. -/
structure Narrows (s : AvailableBlocksState) (queued : List Nat) (s' : AvailableBlocksState) :
    Prop where
  tick   : s'.returnTick = s.returnTick
  lookup : ∀ (h : SequenceHash) (b : InsertedBlock), s'.lookupMap[h]? = some b →
    s.lookupMap[h]? = some b
  queue  : s'.queue <:+ s.queue ++ queued

section narrows

variable {s s' s'' : AvailableBlocksState} {block : InsertedBlock} {queued queued' : List Nat}

theorem suffix_append_of_suffix {l l' m : List Nat} (h : l <:+ l') : l ++ m <:+ l' ++ m := by
  obtain ⟨t, rfl⟩ := h
  exact ⟨t, (List.append_assoc t l m).symm⟩

theorem Narrows.refl (s : AvailableBlocksState) : Narrows s [] s :=
  ⟨rfl, fun _ _ hb => hb, (List.append_nil s.queue).symm ▸ List.suffix_rfl⟩

theorem Narrows.trans (h : Narrows s queued s') (h' : Narrows s' queued' s'') :
    Narrows s (queued ++ queued') s'' where
  tick := h'.tick.trans h.tick
  lookup := fun hash b hb => h.lookup hash b (h'.lookup hash b hb)
  queue := by
    rw [← List.append_assoc]
    exact h'.queue.trans (suffix_append_of_suffix h.queue)

theorem takeWithHashLocked_narrows {hash : SequenceHash}
    (htake : s.takeWithHashLocked hash = some (block, s')) : Narrows s [] s' := by
  obtain ⟨-, rfl⟩ := takeWithHashLocked_eq_some.mp htake
  exact ⟨rfl, fun h c hc => (OrdMap.get_of_erase hc).2, (Narrows.refl s).queue⟩

theorem popPriority_narrows (s : AvailableBlocksState) : Narrows s [] s.popPriority.2 := by
  have hsame := (Narrows.refl s).queue
  unfold popPriority
  split
  · exact .refl s
  · dsimp only
    split
    · exact ⟨rfl, fun _ _ hb => hb, hsame⟩
    · exact ⟨rfl, fun h b hb => (OrdMap.get_of_erase hb).2, hsame⟩

/-- The queue is taken from its front. -/
theorem takeAnyLocked_narrows (s : AvailableBlocksState) : Narrows s [] s.takeAnyLocked.2 := by
  unfold takeAnyLocked
  split
  · next block rest hrest =>
    refine ⟨rfl, fun _ _ hb => hb, ?_⟩
    rw [List.append_nil, queue, queue, hrest]
    exact List.suffix_cons _ _
  · exact popPriority_narrows s

theorem matchLoop_narrows (hashes : List SequenceHash) :
    ∀ s, Narrows s [] (matchLoop hashes s).2 := by
  induction hashes with
  | nil => exact Narrows.refl
  | cons hash hashes ih =>
    intro s
    unfold matchLoop
    split
    · exact .refl s
    · next block s' htake => exact (takeWithHashLocked_narrows htake).trans (ih s')

theorem takeLoop_narrows (n : Nat) : ∀ s, Narrows s [] (takeLoop n s).2.2 := by
  induction n with
  | zero => exact Narrows.refl
  | succ n ih =>
    intro s
    have hfirst := takeAnyLocked_narrows s
    unfold takeLoop
    generalize s.takeAnyLocked = r at hfirst
    obtain ⟨result, s'⟩ := r
    cases result with
    | error e => exact hfirst
    | ok taken =>
      cases taken with
      | none => exact hfirst
      | some block => exact hfirst.trans (ih s')

theorem handOut_narrows (h : Narrows s queued s') (blocks : List InsertedBlock) :
    Narrows s queued (s'.handOut blocks) := ⟨h.tick, h.lookup, h.queue⟩

/-- `take_blocks` in a pool whose indexes agree. -/
theorem takeBlocks_narrows {total : UInt64} (hs : Sound total s) (count : UInt32) :
    Narrows s [] (s.takeBlocks count).2 := by
  have hnone := (takeLoop_transfer count.toNat s hs).1
  have hloop := takeLoop_narrows count.toNat s
  unfold takeBlocks
  generalize takeLoop count.toNat s = r at hnone hloop
  obtain ⟨taken, e, s'⟩ := r
  obtain rfl : e = none := hnone
  exact handOut_narrows hloop taken

/-- A block that is reset is not filed any more, and enters the queue. -/
theorem insertLocked_reset_narrows (h : Narrows s [] s') (block : InsertedBlock) :
    Narrows s [block.id] (s'.insertLocked { block with toKvBlock := block.toKvBlock.reset }) := by
  rw [insertLocked_reset]
  refine ⟨h.tick, h.lookup, ?_⟩
  have hqueue := h.queue
  rw [List.append_nil] at hqueue
  rw [queue, List.map_append]
  exact suffix_append_of_suffix hqueue

/-- `reset_all` moves the filed blocks to the queue in the order of the priority set. -/
theorem resetAll_narrows (hs : Indexed s) :
    Narrows s (s.filed.map (·.id)) s.resetAll.2 := by
  fun_induction resetAll s with
  | case1 s e s' hpop =>
    rcases popPriority_filed hs with ⟨-, hnone⟩ | ⟨block, s'', hsome, -⟩
    · cases hpop.symm.trans hnone
    · cases hpop.symm.trans hsome
  | case2 s s' hpop =>
    rcases popPriority_filed hs with ⟨hfiled, hnone⟩ | ⟨block, s'', hsome, -⟩
    · cases hpop.symm.trans hnone
      rw [hfiled]
      exact .refl s
    · cases hpop.symm.trans hsome
  | case3 s block s' hpop ih =>
    have hnarrow := popPriority_narrows s
    rcases popPriority_filed hs with ⟨-, hnone⟩ | ⟨first, s'', hsome, hs', -, hfiled⟩
    · cases hpop.symm.trans hnone
    · cases hpop.symm.trans hsome
      rw [hpop] at hnarrow
      rw [hfiled]
      refine (insertLocked_reset_narrows hnarrow block).trans ?_
      have hrest := ih (hs'.insertLocked _)
      rw [insertLocked_reset] at hrest ⊢
      exact hrest

theorem reset_narrows (hashes : List SequenceHash) :
    ∀ s, Narrows s (filedUnder s.lookupMap hashes) (s.reset hashes) := by
  induction hashes with
  | nil => exact Narrows.refl
  | cons hash hashes ih =>
    intro s
    show Narrows s _ ((s.rework hash KvBlock.reset).reset hashes)
    unfold filedUnder rework
    cases hb : s.lookupMap[hash]? with
    | none =>
      rw [takeWithHashLocked_eq_none.mpr hb]
      exact ih s
    | some block =>
      have htake := takeWithHashLocked_eq_some.mpr ⟨hb, rfl⟩
      have hfirst := insertLocked_reset_narrows (takeWithHashLocked_narrows htake) block
      rw [htake]
      refine hfirst.trans ?_
      dsimp only
      rw [insertLocked_reset]
      exact ih _

end narrows

/-! ## Priorities -/

/-- The priority after the updates of a hash, in their order. -/
def newPriority (updates : List (SequenceHash × UInt32)) (hash : SequenceHash) (old : UInt32) :
    UInt32 :=
  updates.foldl (fun priority u => if u.1 = hash then u.2 else priority) old

section priorities

variable {s : AvailableBlocksState}

theorem Indexed.rework (hs : Indexed s) (hash : SequenceHash) (f : KvBlock → KvBlock) :
    Indexed (s.rework hash f) := by
  unfold AvailableBlocksState.rework
  split
  · exact hs
  · next block s' htake => exact (hs.takeWithHashLocked htake).insertLocked _

/-- One update: the block is filed again under its hash. -/
theorem rework_priority (hs : Indexed s) (hash : SequenceHash) (priority : UInt32) :
    (s.rework hash fun block => { block with priority }).returnTick = s.returnTick ∧
    (s.rework hash fun block => { block with priority }).uninitializedSet = s.uninitializedSet ∧
    ∀ h : SequenceHash, (s.rework hash fun block => { block with priority }).lookupMap[h]? =
      (s.lookupMap[h]?).map fun b =>
        { b with priority := if hash = h then priority else b.priority } := by
  unfold rework takeWithHashLocked
  cases hb : s.lookupMap[hash]? with
  | none =>
    -- the hash is unknown
    refine ⟨rfl, rfl, fun h => ?_⟩
    by_cases hh : hash = h
    · simp only [← hh, hb, Option.map_none]
    · simp only [if_neg hh, Option.map_id']
  | some block =>
    have hself := hs.hash hash block hb
    have hfiles : ¬ (hash = 0 ∨ (s.lookupMap.erase hash).contains hash = true) := by
      simp [hs.nonzero hash block hb]
    simp only [insertLocked, hself, if_neg hfiles, OrdMap.get_insert, OrdMap.get_erase, true_and]
    intro h
    by_cases hh : h = hash
    · subst hh
      simp only [if_true, hb, Option.map_some]
    · simp only [if_neg hh, if_neg (Ne.symm hh), Option.map_id']

/-- `update_priorities` changes the priorities of filed blocks, and nothing else. -/
theorem updatePriorities_spec (updates : List (SequenceHash × UInt32)) :
    ∀ {s : AvailableBlocksState}, Indexed s →
      (s.updatePriorities updates).returnTick = s.returnTick ∧
      (s.updatePriorities updates).uninitializedSet = s.uninitializedSet ∧
      ∀ h : SequenceHash, (s.updatePriorities updates).lookupMap[h]? =
        (s.lookupMap[h]?).map fun b => { b with priority := newPriority updates h b.priority } := by
  induction updates with
  | nil => exact fun _ => ⟨rfl, rfl, fun _ => (Option.map_id').symm⟩
  | cons u updates ih =>
    intro s hs
    obtain ⟨htick, hqueue, hlookup⟩ := rework_priority hs u.1 u.2
    obtain ⟨htick', hqueue', hlookup'⟩ :=
      ih (hs.rework u.1 fun block => { block with priority := u.2 })
    refine ⟨htick'.trans htick, hqueue'.trans hqueue, fun h => (hlookup' h).trans ?_⟩
    rw [hlookup, Option.map_map]
    rfl

end priorities

/-! ## Steps -/

/-- The block enters the queue when it comes in without a hash or with that of a filed block. -/
def enqueued (s : AvailableBlocksState) (block : InsertedBlock) : List Nat :=
  if block.tokenBlock.sequenceHash = 0 ∨
      s.lookupMap.contains block.tokenBlock.sequenceHash = true then [block.id]
  else []

/-- What a call does to the pool, with the block that comes in and the entries into the queue. -/
inductive Step (s : AvailableBlocksState) :
    Option InsertedBlock → List Nat → AvailableBlocksState → Prop where
  | narrows {queued : List Nat} {s' : AvailableBlocksState} : Narrows s queued s' →
      Step s none queued s'
  | updates (us : List (SequenceHash × UInt32)) : Step s none [] (s.updatePriorities us)
  | returns (block : InsertedBlock) :
      Step s (some block) (s.enqueued block) (s.returnBlock block)
  | inserts (block : InsertedBlock) : Step s (some block) (s.enqueued block) (s.insert block)

theorem matchBlocks_step (s : AvailableBlocksState) (hashes : List SequenceHash) :
    Step s none [] (s.matchBlocks hashes).2 :=
  .narrows (handOut_narrows (matchLoop_narrows hashes s) _)

section steps

variable {s s' : AvailableBlocksState} {block : InsertedBlock}

/-- What the lookup map has after `insert_locked`. -/
theorem lookup_insertLocked {hash : SequenceHash} {b : InsertedBlock}
    (hb : (s.insertLocked block).lookupMap[hash]? = some b) :
    s.lookupMap[hash]? = some b ∨
      (block.tokenBlock.sequenceHash ≠ 0 ∧ hash = block.tokenBlock.sequenceHash ∧ b = block) := by
  unfold insertLocked at hb
  dsimp only at hb
  split at hb
  · exact .inl hb
  · next hcond =>
    rcases OrdMap.get_of_insert hb with ⟨rfl, rfl⟩ | hb
    · exact .inr ⟨fun h => hcond (.inl h), rfl, rfl⟩
    · exact .inl hb

theorem insertLocked_returnTick (s : AvailableBlocksState) (block : InsertedBlock) :
    (s.insertLocked block).returnTick = s.returnTick := by
  unfold insertLocked
  dsimp only
  split <;> rfl

theorem returnBlock_queue (s : AvailableBlocksState) (block : InsertedBlock) :
    (s.returnBlock block).queue = s.queue ++ s.enqueued block := by
  unfold returnBlock insertLocked enqueued queue
  dsimp only
  split
  · rw [List.map_append]
    rfl
  · exact (List.append_nil _).symm

/-- The queue loses blocks at its front, and what enters it is at its end. -/
theorem Step.queue {into : Option InsertedBlock} {queued : List Nat} (hs : Indexed s)
    (hstep : Step s into queued s') : s'.queue <:+ s.queue ++ queued := by
  cases hstep with
  | narrows hnarrow => exact hnarrow.queue
  | updates us =>
    have hqueue : (s.updatePriorities us).queue = s.queue ++ [] := by
      unfold AvailableBlocksState.queue
      rw [(updatePriorities_spec us hs).2.1, List.append_nil]
    exact hqueue ▸ List.suffix_rfl
  | returns block => exact returnBlock_queue s block ▸ List.suffix_rfl
  | inserts block =>
    have hqueue : (s.insert block).queue = s.queue ++ s.enqueued block :=
      returnBlock_queue { s with totalBlocks := s.totalBlocks + 1 } block
    exact hqueue ▸ List.suffix_rfl

end steps

/-! ## Times -/

/-- The tick is the number of arrivals.  The ticks of the filed blocks are the times of
    their last arrivals, in 64 bits. -/
structure Timed (log : List Nat) (s : AvailableBlocksState) : Prop where
  tick  : s.returnTick = UInt64.ofNat log.length
  filed : ∀ (hash : SequenceHash) (b : InsertedBlock), s.lookupMap[hash]? = some b →
    b.id ∈ log ∧ b.returnTick = UInt64.ofNat (lastOccurrence log b.id)

theorem timed_init : Timed [] {} := ⟨rfl, by simp⟩

section timed

variable {log queued : List Nat} {s s' : AvailableBlocksState} {block : InsertedBlock}

theorem Timed.narrow (h : Timed log s) (hnarrow : Narrows s queued s') : Timed log s' where
  tick := hnarrow.tick.trans h.tick
  filed := fun hash b hb => h.filed hash b (hnarrow.lookup hash b hb)

theorem Timed.updatePriorities (h : Timed log s) (hs : Indexed s)
    (updates : List (SequenceHash × UInt32)) : Timed log (s.updatePriorities updates) := by
  obtain ⟨htick, -, hlookup⟩ := updatePriorities_spec updates hs
  refine ⟨htick.trans h.tick, fun hash b hb => ?_⟩
  rw [hlookup] at hb
  obtain ⟨old, hold, rfl⟩ := Option.map_eq_some_iff.mp hb
  exact h.filed hash old hold

/-- A block that comes in is the latest. -/
theorem Timed.returnBlock (h : Timed log s) (hfresh : block.id ∉ s.parked) :
    Timed (log ++ [block.id]) (s.returnBlock block) := by
  have htick : s.returnTick + 1 = UInt64.ofNat (log.length + 1) := by
    rw [h.tick, UInt64.ofNat_add]
    rfl
  refine ⟨?_, fun hash b hb => ?_⟩
  · rw [List.length_append, List.length_singleton, ← htick]
    exact insertLocked_returnTick _ _
  · rcases lookup_insertLocked hb with hold | ⟨-, -, rfl⟩
    · -- a block that was filed before is another one, and its last arrival is what it was
      have hne : block.id ≠ b.id := by
        intro heq
        exact hfresh (heq ▸ id_mem_parked (mem_parkedBlocks.mpr (.inr ⟨hash, hold⟩)))
      obtain ⟨hmem, hb⟩ := h.filed hash b hold
      exact ⟨List.mem_append_left _ hmem, by rw [hb, lastOccurrence_concat_ne hne]⟩
    · refine ⟨List.mem_append_right _ (List.mem_singleton.mpr rfl), ?_⟩
      show s.returnTick + 1 = UInt64.ofNat (lastOccurrence (log ++ [block.id]) block.id)
      rw [htick, lastOccurrence_concat_self]

/-- The log grows by what comes in. -/
theorem Timed.step (h : Timed log s) (hs : Indexed s) {into : Option InsertedBlock}
    (hstep : Step s into queued s') (hfresh : ∀ b ∈ into, b.id ∉ s.parked) :
    Timed (log ++ into.toList.map (·.id)) s' := by
  cases hstep with
  | narrows hnarrow => exact (List.append_nil log).symm ▸ h.narrow hnarrow
  | updates us => exact (List.append_nil log).symm ▸ h.updatePriorities hs us
  | returns block => exact h.returnBlock (hfresh block rfl)
  | inserts block =>
    have hgrown : Timed log { s with totalBlocks := s.totalBlocks + 1 } := ⟨h.tick, h.filed⟩
    exact hgrown.returnBlock (hfresh block rfl)

/-- Until the counter has gone around, blocks with one tick came in at one time. -/
theorem Timed.id_eq (h : Timed log s) (hshort : log.length ≤ 2 ^ 64) {hash hash' : SequenceHash}
    {a b : InsertedBlock} (ha : s.lookupMap[hash]? = some a) (hb : s.lookupMap[hash']? = some b)
    (htick : a.returnTick = b.returnTick) : a.id = b.id := by
  obtain ⟨hmem, hat⟩ := h.filed hash a ha
  obtain ⟨hmem', hat'⟩ := h.filed hash' b hb
  refine lastOccurrence_inj hmem hmem' ?_
  have hle := @lastOccurrence_le _ _ log a.id
  have hle' := @lastOccurrence_le _ _ log b.id
  have hpos := lastOccurrence_pos hmem
  have hpos' := lastOccurrence_pos hmem'
  rw [hat, hat'] at htick
  have hnat := congrArg UInt64.toNat htick
  rw [UInt64.toNat_ofNat', UInt64.toNat_ofNat'] at hnat
  omega

end timed

end AvailableBlocksState

/-! ## The pool and its handles -/

/-- The calls of the pool and of the handles it gives out. -/
def Op.ofPool : Op → Bool
  | .insert _ | .matchBlocks _ | .matchTokenBlocks _ | .takeBlocks _ | .updatePriorities _
  | .reset _ | .resetAll | .construct | .moveConstruct _ | .moveAssign _ _ | .write _ _
  | .take _ | .destroy _ => true
  | _ => false

/-- A pool, its handles and what clients do with them. -/
def reusePool (setup : Setup) : System World Op :=
  (storage setup).guarded fun _ op => op.ofPool = true

/-- The block that the destructor of the handle returns. -/
def UniqueBlock.returned : UniqueBlock → Option InsertedBlock
  | .empty => none
  | .moved _ => none
  | .owning block => some block

namespace World

/-- The state under the pool's mutex. -/
def pool (w : World) : AvailableBlocksState := w.manager.availableBlocks

/-- The block that a call brings into the pool. -/
def incoming (w : World) : Op → Option InsertedBlock
  | .insert block => some { block with id := w.inserts }
  | .moveAssign dst src => if dst = src then none else w.handles[dst]?.bind (·.returned)
  | .destroy handle => w.handles[handle]?.bind (·.returned)
  | _ => none

def arrivals (w : World) (op : Op) : List Nat := (w.incoming op).toList.map (·.id)

/-- The blocks that enter the uninitialized queue in a call. -/
def queued (w : World) : Op → List Nat
  | .reset hashes => filedUnder w.pool.lookupMap hashes
  | .resetAll => w.pool.filed.map (·.id)
  | op => ((w.incoming op).map w.pool.enqueued).getD []

/-- The blocks that came into the pool in a run, oldest first. -/
def arrivalLog (setup : Setup) (ops : List Op) : List Nat :=
  (reusePool setup).collect arrivals (reusePool setup).init ops

/-- The entries into the uninitialized queue in a run, oldest first. -/
def queueLog (setup : Setup) (ops : List Op) : List Nat :=
  (reusePool setup).collect queued (reusePool setup).init ops

section steps

variable {w w' : World}

theorem release_step (w : World) (handle : UniqueBlock) :
    AvailableBlocksState.Step w.pool handle.returned
      ((handle.returned.map w.pool.enqueued).getD [])
        (w.manager.release handle).availableBlocks := by
  cases handle with
  | empty | moved => exact .narrows (.refl _)
  | owning block => exact .returns block

/-- Every call of the pool or of a handle is one step of the pool, and leaves the registry alone. -/
theorem exec_poolStep (setup : Setup) {op : Op} (hsound : w.Sound) (hop : op.ofPool = true)
    (hexec : w.exec setup op = some w') :
    AvailableBlocksState.Step w.pool (w.incoming op) (w.queued op) w'.pool ∧
      w'.manager.inflightBlocks = w.manager.inflightBlocks := by
  have hkept : AvailableBlocksState.Step w.pool none [] w.pool := .narrows (.refl _)
  cases op with
  | insert block =>
    cases hexec
    exact ⟨.inserts { block with id := w.inserts }, rfl⟩
  | matchBlocks hashes =>
    cases hexec
    exact ⟨matchBlocks_step _ hashes, rfl⟩
  | matchTokenBlocks tokenBlocks =>
    cases hexec
    exact ⟨matchBlocks_step _ _, rfl⟩
  | takeBlocks count =>
    cases hexec
    have hnarrow := takeBlocks_narrows hsound.pool count
    unfold takeBlocks
    generalize w.manager.availableBlocks.takeBlocks count = r at hnarrow
    obtain ⟨result, pool⟩ := r
    cases result with
    | error | ok => exact ⟨.narrows hnarrow, rfl⟩
  | updatePriorities updates =>
    cases hexec
    exact ⟨.updates updates, rfl⟩
  | reset hashes =>
    cases hexec
    exact ⟨.narrows (reset_narrows hashes _), rfl⟩
  | resetAll =>
    cases hexec
    exact ⟨.narrows (resetAll_narrows hsound.pool.indexed), rfl⟩
  | construct =>
    cases hexec
    exact ⟨hkept, rfl⟩
  | moveConstruct src =>
    obtain ⟨b, -, hexec⟩ := Option.bind_eq_some_iff.mp hexec
    cases hexec
    exact ⟨hkept, rfl⟩
  | moveAssign dst src =>
    obtain ⟨old, hold, hexec⟩ := Option.bind_eq_some_iff.mp hexec
    obtain ⟨new, -, hexec⟩ := Option.bind_eq_some_iff.mp hexec
    simp only [queued, incoming, hold, Option.bind_some]
    by_cases hsame : dst = src
    · rw [if_pos hsame] at hexec ⊢
      cases hexec
      exact ⟨hkept, rfl⟩
    · rw [if_neg hsame] at hexec ⊢
      cases hexec
      exact ⟨w.release_step old, rfl⟩
  | write handle block =>
    obtain ⟨b, -, hexec⟩ := Option.bind_eq_some_iff.mp hexec
    obtain ⟨b', -, hexec⟩ := Option.bind_eq_some_iff.mp hexec
    cases hexec
    exact ⟨hkept, rfl⟩
  | take handle =>
    obtain ⟨b, -, hexec⟩ := Option.bind_eq_some_iff.mp hexec
    cases b with
    | empty => cases hexec
    | moved | owning =>
      cases hexec
      exact ⟨hkept, rfl⟩
  | destroy handle =>
    obtain ⟨b, hb, hexec⟩ := Option.bind_eq_some_iff.mp hexec
    cases hexec
    simp only [queued, incoming, hb, Option.bind_some]
    exact ⟨w.release_step b, rfl⟩
  | _ => cases hop

end steps

section identities

variable {setup : Setup} {w : World}

theorem pool_indexed (hreach : (storage setup).Reachable w) : w.pool.Indexed :=
  (held_of_reachable hreach).1.pool.indexed

/-- A block that comes in was not in the pool. -/
theorem incoming_fresh (hreach : (storage setup).Reachable w) (op : Op) :
    ∀ b ∈ w.incoming op, b.id ∉ w.pool.parked := by
  have hcount := count_places hreach
  have hhandle : ∀ {i : Nat} {b : InsertedBlock}, b ∈ w.handles[i]?.bind (·.returned) →
      b.id ∉ w.pool.parked := by
    intro i b hb
    obtain ⟨h, hh, hb⟩ := Option.bind_eq_some_iff.mp hb
    cases h with
    | empty => cases hb
    | moved shell => cases hb
    | owning block =>
      cases hb
      -- the block is in the handle, so it is nowhere else
      have howned : b.id ∈ w.handled := by
        rw [handled, ← sum_map_eraseIdx hh]
        exact Multiset.mem_add.mpr (.inr (Multiset.mem_singleton.mpr rfl))
      have hpos := Multiset.count_pos.mpr howned
      have hone := hcount b.id
      rw [← Multiset.count_eq_zero]
      show w.manager.availableBlocks.parked.count b.id = 0
      split at hone <;> omega
  intro b hb
  cases op with
  | insert block =>
    cases hb
    -- the number of the next insert is not in use
    have hnone := hcount w.inserts
    rw [if_neg (Nat.lt_irrefl _)] at hnone
    rw [← Multiset.count_eq_zero]
    show w.manager.availableBlocks.parked.count w.inserts = 0
    omega
  | moveAssign dst src => exact hhandle (Option.ite_none_left_eq_some.mp hb).2
  | destroy handle => exact hhandle hb
  | _ => cases hb

/-- Parked blocks have identities of their own. -/
theorem eq_of_id_eq (hreach : (storage setup).Reachable w) {a b : InsertedBlock}
    (ha : a ∈ w.pool.parkedBlocks) (hb : b ∈ w.pool.parkedBlocks) (hid : a.id = b.id) : a = b := by
  have hnodup : w.pool.parked.Nodup := by
    have hheld := (held_of_reachable hreach).2
    refine Multiset.nodup_of_le ?_ (hheld ▸ Multiset.nodup_range w.inserts)
    exact (Multiset.le_add_right _ _).trans (Multiset.le_add_right _ _)
  rw [← ids_parkedBlocks] at hnodup
  exact List.inj_on_of_nodup_map (Multiset.coe_nodup.mp hnodup) ha hb hid

end identities

section runs

variable {setup : Setup} {ops : List Op} {w w' : World} {op : Op}

/-- A call of the pool or of a handle, from a state that clients can reach. -/
theorem reusePool_step (hexec : (reusePool setup).exec w op = some w')
    (hreach : (storage setup).Reachable w) : (storage setup).Reachable w' ∧
      AvailableBlocksState.Step w.pool (w.incoming op) (w.queued op) w'.pool := by
  obtain ⟨hop, hexec⟩ := System.guarded_exec.mp hexec
  exact ⟨.step op hreach hexec, (exec_poolStep setup (held_of_reachable hreach).1 hop hexec).1⟩

theorem timed_of_run (hrun : (reusePool setup).run ops = some w) :
    w.pool.Timed (arrivalLog setup ops) := by
  -- along the run, for the log collected so far
  have hinv : (storage setup).Reachable w ∧ w.pool.Timed ([] ++ arrivalLog setup ops) := by
    refine @System.collect_invariant _ _ _ (reusePool setup) arrivals
      (fun w log => (storage setup).Reachable w ∧ w.pool.Timed log) (fun _ => True) ?_ ops _ w _
      ⟨.init, timed_init⟩ (fun _ _ => trivial) hrun
    rintro w op w' log ⟨hreach, htimed⟩ - hexec
    obtain ⟨hreach', hstep⟩ := reusePool_step hexec hreach
    exact ⟨hreach', htimed.step (pool_indexed hreach) hstep (incoming_fresh hreach op)⟩
  exact hinv.2

/-- The queue has the latest entries, from the oldest on. -/
theorem queue_of_run (hrun : (reusePool setup).run ops = some w) :
    w.pool.queue <:+ queueLog setup ops := by
  have hinv : (storage setup).Reachable w ∧ w.pool.queue <:+ [] ++ queueLog setup ops := by
    refine @System.collect_invariant _ _ _ (reusePool setup) queued
      (fun w log => (storage setup).Reachable w ∧ w.pool.queue <:+ log) (fun _ => True) ?_ ops _ w _
      ⟨.init, List.suffix_rfl⟩ (fun _ _ => trivial) hrun
    rintro w op w' log ⟨hreach, hqueue⟩ - hexec
    obtain ⟨hreach', hstep⟩ := reusePool_step hexec hreach
    exact ⟨hreach', (hstep.queue (pool_indexed hreach)).trans (suffix_append_of_suffix hqueue)⟩
  exact hinv.2

end runs

end World

end DynamoCpp.Llm.Kv
