import DynamoCpp.Framework.LongestPrefix
import DynamoCpp.Llm.Kv.EvictionOrder
import DynamoCpp.Llm.Kv.Steps

/-! # Matching parked blocks

    `match_blocks` takes filed blocks out by their hashes, up to the first hash that is not
    filed any more.  Since the hashes are distinct, the handles can be dropped in any order:
    every block finds its hash free and is filed again.  Blocks with the same hashes that
    wait in the uninitialized queue stay there.
-/

namespace DynamoCpp.Llm.Kv

open Framework

/-! ## What is matched -/

namespace AvailableBlocksState

/-- The hashes of a list are distinct, and each has a parked block. -/
def Matchable (s : AvailableBlocksState) (hashes : List SequenceHash) : Prop :=
  hashes.Nodup ∧ ∀ hash ∈ hashes, (s.lookupMap[hash]?).isSome = true

section matching

variable {s s' : AvailableBlocksState} {hash : SequenceHash} {block : InsertedBlock}

theorem matchable_nil (s : AvailableBlocksState) : s.Matchable [] := ⟨.nil, by simp⟩

/-- A block that was taken out matches no hash of the rest. -/
theorem matchable_cons (htake : s.takeWithHashLocked hash = some (block, s'))
    (hashes : List SequenceHash) : s.Matchable (hash :: hashes) ↔ s'.Matchable hashes := by
  obtain ⟨hblock, rfl⟩ := takeWithHashLocked_eq_some.mp htake
  unfold Matchable
  rw [List.nodup_cons, List.forall_mem_cons, hblock]
  constructor
  · rintro ⟨⟨hnotmem, hnodup⟩, -, hrest⟩
    refine ⟨hnodup, fun h hh => ?_⟩
    have hne : h ≠ hash := fun heq => hnotmem (heq ▸ hh)
    rw [OrdMap.get_erase, if_neg hne]
    exact hrest h hh
  · rintro ⟨hnodup, hrest⟩
    refine ⟨⟨fun hmem => ?_, hnodup⟩, rfl, fun h hh => ?_⟩
    · have hgone := hrest hash hmem
      rw [OrdMap.get_erase, if_pos rfl] at hgone
      cases hgone
    · have hleft := hrest h hh
      rw [OrdMap.get_erase] at hleft
      split at hleft
      · cases hleft
      · exact hleft

/-- The loop takes out the blocks of the longest prefix that it can. -/
structure Matched (s : AvailableBlocksState) (hashes : List SequenceHash) (k : Nat)
    (r : List InsertedBlock × AvailableBlocksState) : Prop where
  longest : IsLongestPrefix s.Matchable hashes k
  blocks  : r.1.map some = (hashes.take k).map (s.lookupMap[·]?)
  lookup  : ∀ hash : SequenceHash, r.2.lookupMap[hash]? =
    if hash ∈ hashes.take k then none else s.lookupMap[hash]?
  queue   : r.2.uninitializedSet = s.uninitializedSet

theorem matchLoop_matched (hashes : List SequenceHash) :
    ∀ s, ∃ k, Matched s hashes k (matchLoop hashes s) := by
  induction hashes with
  | nil => exact fun s => ⟨0, isLongestPrefix_nil s.matchable_nil, rfl, fun _ => rfl, rfl⟩
  | cons hash hashes ih =>
    intro s
    unfold matchLoop
    split
    · next hnone =>
      refine ⟨0, isLongestPrefix_zero s.matchable_nil fun p hp => ?_, rfl, fun _ => rfl, rfl⟩
      have hfiled := hp.2 hash List.mem_cons_self
      rw [takeWithHashLocked_eq_none.mp hnone] at hfiled
      cases hfiled
    · next block s' htake =>
      obtain ⟨k, hk⟩ := ih s'
      -- the rest is matched in a pool without the block of this hash
      have hfits := hk.longest.cons (matchable_cons htake)
      obtain ⟨hblock, rfl⟩ := takeWithHashLocked_eq_some.mp htake
      refine ⟨k + 1, hfits, ?_, fun h => ?_, hk.queue⟩
      · rw [List.map_cons, List.take_succ_cons, List.map_cons, hblock, hk.blocks]
        refine congrArg _ (List.map_congr_left fun h hh => ?_)
        rw [OrdMap.get_erase, if_neg]
        -- the hash does not occur again among the matched ones
        rintro rfl
        exact (List.nodup_cons.mp hfits.holds.1).1 hh
      · rw [hk.lookup h, OrdMap.get_erase, List.take_succ_cons]
        by_cases hh : h = hash <;> simp [hh]

theorem matchLoop_availableBlocks (hashes : List SequenceHash) :
    ∀ s, (matchLoop hashes s).2.availableBlocks = s.availableBlocks := by
  induction hashes with
  | nil => exact fun s => rfl
  | cons hash hashes ih =>
    intro s
    unfold matchLoop
    split
    · rfl
    · next htake =>
      obtain ⟨-, rfl⟩ := takeWithHashLocked_eq_some.mp htake
      exact ih _

theorem matchBlocks_matched (s : AvailableBlocksState) (hashes : List SequenceHash) :
    ∃ k, Matched s hashes k (s.matchBlocks hashes) := by
  obtain ⟨k, hk⟩ := matchLoop_matched hashes s
  exact ⟨k, hk.longest, hk.blocks, hk.lookup, hk.queue⟩

variable {hashes : List SequenceHash} {k : Nat} {r : List InsertedBlock × AvailableBlocksState}

theorem Matched.lookup_of_mem (h : Matched s hashes k r) (hb : block ∈ r.1) :
    ∃ hash ∈ hashes.take k, s.lookupMap[hash]? = some block := by
  have hmem : some block ∈ (hashes.take k).map (s.lookupMap[·]?) :=
    h.blocks ▸ List.mem_map_of_mem hb
  exact List.mem_map.mp hmem

/-- The matched blocks have the hashes that were asked for. -/
theorem Matched.map_hash (h : Matched s hashes k r) (hs : Indexed s) :
    r.1.map (·.tokenBlock.sequenceHash) = hashes.take k := by
  have hall : ∀ hash ∈ hashes.take k,
      (s.lookupMap[hash]?).map (·.tokenBlock.sequenceHash) = some hash := by
    intro hash hmem
    obtain ⟨b, hb⟩ := Option.isSome_iff_exists.mp (h.longest.holds.2 hash hmem)
    rw [hb, Option.map_some, hs.hash hash b hb]
  have hmap : (r.1.map (·.tokenBlock.sequenceHash)).map some = (hashes.take k).map some := by
    calc (r.1.map (·.tokenBlock.sequenceHash)).map some
        = (r.1.map some).map (Option.map (·.tokenBlock.sequenceHash)) := by
          simp only [List.map_map]
          rfl
      _ = (hashes.take k).map some := by
          rw [h.blocks, List.map_map]
          exact List.map_congr_left hall
  exact List.map_injective_iff.mpr (Option.some_injective _) hmap

end matching

/-! ## Returning what was matched -/

/-- What a request can reuse of the block parked under a hash. -/
def contents (s : AvailableBlocksState) (hash : SequenceHash) :
    Option (Nat × TokenBlock × UInt32) :=
  (s.lookupMap[hash]?).map fun b => (b.id, b.tokenBlock, b.priority)

section returning

variable {s : AvailableBlocksState} {block : InsertedBlock}

/-- A block whose hash is free is filed. -/
theorem returnBlock_files (hne : block.tokenBlock.sequenceHash ≠ 0)
    (hfree : s.lookupMap[block.tokenBlock.sequenceHash]? = none) :
    (s.returnBlock block).lookupMap = s.lookupMap.insert block.tokenBlock.sequenceHash
        { block with returnTick := s.returnTick + 1 } ∧
      (s.returnBlock block).uninitializedSet = s.uninitializedSet ∧
      (s.returnBlock block).availableBlocks = s.availableBlocks + 1 := by
  have hcontains : s.lookupMap.contains block.tokenBlock.sequenceHash = false := by
    rw [Std.ExtTreeMap.contains_eq_isSome_getElem?, hfree]
    rfl
  unfold returnBlock insertLocked
  simp [hne, hcontains]

/-- Blocks with distinct hashes that are free are filed, whatever their order. -/
theorem returnAll_files (blocks : List InsertedBlock) :
    ∀ s : AvailableBlocksState, (blocks.map (·.tokenBlock.sequenceHash)).Nodup →
      (∀ b ∈ blocks, b.tokenBlock.sequenceHash ≠ 0 ∧
        s.lookupMap[b.tokenBlock.sequenceHash]? = none) →
      (∀ b ∈ blocks, (blocks.foldl returnBlock s).contents b.tokenBlock.sequenceHash =
        some (b.id, b.tokenBlock, b.priority)) ∧
      (∀ hash, hash ∉ blocks.map (·.tokenBlock.sequenceHash) →
        (blocks.foldl returnBlock s).contents hash = s.contents hash) ∧
      (blocks.foldl returnBlock s).uninitializedSet = s.uninitializedSet ∧
      (blocks.foldl returnBlock s).availableBlocks =
        s.availableBlocks + UInt64.ofNat blocks.length := by
  induction blocks with
  | nil => exact fun s _ _ => ⟨by simp, fun _ _ => rfl, rfl, (UInt64.add_zero _).symm⟩
  | cons block blocks ih =>
    intro s hnodup hfree
    rw [List.map_cons, List.nodup_cons] at hnodup
    obtain ⟨⟨hne, hunfiled⟩, hrest⟩ := List.forall_mem_cons.mp hfree
    obtain ⟨hmap, hqueue, hcount⟩ := returnBlock_files hne hunfiled
    have hother : ∀ hash, hash ≠ block.tokenBlock.sequenceHash →
        (s.returnBlock block).lookupMap[hash]? = s.lookupMap[hash]? := by
      intro hash hhash
      rw [hmap, OrdMap.get_insert, if_neg hhash]
    -- the others find their hashes as free as before
    have hdiffers : ∀ b ∈ blocks, b.tokenBlock.sequenceHash ≠ block.tokenBlock.sequenceHash :=
      fun b hb heq => hnodup.1 (heq ▸ List.mem_map_of_mem hb)
    obtain ⟨hfiled, hkept, hqueue', hcount'⟩ := ih (s.returnBlock block) hnodup.2 fun b hb =>
      ⟨(hrest b hb).1, (hother _ (hdiffers b hb)).trans (hrest b hb).2⟩
    refine ⟨List.forall_mem_cons.mpr ⟨?_, hfiled⟩, fun hash hhash => ?_, hqueue'.trans hqueue, ?_⟩
    · refine (hkept _ hnodup.1).trans ?_
      unfold contents
      rw [hmap, Std.ExtTreeMap.getElem?_insert_self]
      rfl
    · rw [List.map_cons, List.mem_cons, not_or] at hhash
      refine (hkept hash hhash.2).trans ?_
      unfold contents
      rw [hother hash hhash.1]
    · refine hcount'.trans ?_
      rw [hcount, List.length_cons, Nat.add_comm, UInt64.ofNat_add, ← UInt64.add_assoc]
      rfl

/-- What was matched can be returned in any order. -/
theorem Matched.returned {hashes : List SequenceHash} {k : Nat}
    (h : Matched s hashes k (s.matchBlocks hashes)) (hs : Indexed s)
    {dropped : List InsertedBlock} (hperm : dropped.Perm (s.matchBlocks hashes).1) :
    (∀ hash, (dropped.foldl returnBlock (s.matchBlocks hashes).2).contents hash =
        s.contents hash) ∧
      (dropped.foldl returnBlock (s.matchBlocks hashes).2).uninitializedSet =
        s.uninitializedSet ∧
      (dropped.foldl returnBlock (s.matchBlocks hashes).2).availableBlocks =
        s.availableBlocks := by
  have hhashes : (dropped.map (·.tokenBlock.sequenceHash)).Perm (hashes.take k) :=
    h.map_hash hs ▸ hperm.map _
  have hparked : ∀ b ∈ dropped, s.lookupMap[b.tokenBlock.sequenceHash]? = some b := by
    intro b hb
    obtain ⟨hash, -, hlookup⟩ := h.lookup_of_mem (hperm.mem_iff.mp hb)
    rwa [hs.hash hash b hlookup]
  have hfree : ∀ b ∈ dropped, b.tokenBlock.sequenceHash ≠ 0 ∧
      (s.matchBlocks hashes).2.lookupMap[b.tokenBlock.sequenceHash]? = none := by
    intro b hb
    refine ⟨hs.nonzero _ b (hparked b hb), ?_⟩
    rw [h.lookup, if_pos (hhashes.mem_iff.mp (List.mem_map_of_mem hb))]
  obtain ⟨hfiled, hkept, hqueue, hcount⟩ := returnAll_files dropped (s.matchBlocks hashes).2
    (hhashes.nodup_iff.mpr h.longest.holds.1) hfree
  refine ⟨fun hash => ?_, hqueue.trans h.queue, hcount.trans ?_⟩
  · -- a hash was matched and its block is back, or nothing happened to it
    by_cases hmem : hash ∈ dropped.map (·.tokenBlock.sequenceHash)
    · obtain ⟨b, hb, rfl⟩ := List.mem_map.mp hmem
      rw [hfiled b hb, contents, hparked b hb]
      rfl
    · refine (hkept hash hmem).trans ?_
      unfold contents
      rw [h.lookup, if_neg (fun hin => hmem (hhashes.mem_iff.mpr hin))]
  · rw [hperm.length_eq, ← matchLoop_availableBlocks hashes s]
    exact UInt64.sub_add_cancel _ _

end returning

end AvailableBlocksState

/-! ## Dropping the handles -/

namespace World

variable {setup : Setup} {w w' : World}

/-- Handles that were received last are dropped in some order, until none is left. -/
theorem runFrom_destroy {kept : List UniqueBlock} (order : List Nat) :
    ∀ {w : World} {blocks : List InsertedBlock}, w.handles = kept ++ blocks.map .owning →
      (storage setup).runFrom w (order.map fun i => .destroy (kept.length + i)) = some w' →
      w'.handles = kept →
      ∃ dropped : List InsertedBlock, dropped.Perm blocks ∧
        w'.pool = dropped.foldl AvailableBlocksState.returnBlock w.pool := by
  induction order with
  | nil =>
    intro w blocks hhandles hrun hend
    cases hrun
    have hnone : blocks.map UniqueBlock.owning = [] :=
      List.append_right_eq_self.mp (hhandles.symm.trans hend)
    exact ⟨[], by rw [List.map_eq_nil_iff.mp hnone], rfl⟩
  | cons i order ih =>
    intro w blocks hhandles hrun hend
    obtain ⟨m, hexec, hrest⟩ := Option.bind_eq_some_iff.mp hrun
    obtain ⟨handle, hhandle, hexec⟩ := Option.bind_eq_some_iff.mp hexec
    cases hexec
    rw [hhandles, List.getElem?_append_right (Nat.le_add_right _ _), Nat.add_sub_cancel_left,
      List.getElem?_map, Option.map_eq_some_iff] at hhandle
    obtain ⟨block, hblock, rfl⟩ := hhandle
    obtain ⟨hi, hget⟩ := List.getElem?_eq_some_iff.mp hblock
    -- the vector of handles closes the gap, so positions are those of what is left
    have hleft : w.handles.eraseIdx (kept.length + i) =
        kept ++ (blocks.eraseIdx i).map .owning := by
      rw [hhandles, List.eraseIdx_append_of_length_le (Nat.le_add_right _ _),
        Nat.add_sub_cancel_left, List.eraseIdx_map]
    obtain ⟨dropped, hperm, hpool⟩ := ih hleft hrest hend
    exact ⟨block :: dropped, (hperm.cons block).trans (hget ▸ List.getElem_cons_eraseIdx_perm hi),
      hpool⟩

/-- `match_blocks` returns the parked blocks of the longest prefix of distinct
    parked hashes.  When their handles are dropped as they are, in whatever
    order, every hash has its block with its tokens and its priority again, and
    the uninitialized queue and the counter are what they were. -/
theorem match_then_drop {setup : Setup} {w : World} (hreach : (storage setup).Reachable w)
    (hashes : List SequenceHash) :
    (∃ k, IsLongestPrefix w.pool.Matchable hashes k ∧
      (w.pool.matchBlocks hashes).1.map some = (hashes.take k).map (w.pool.lookupMap[·]?)) ∧
    ∀ (order : List Nat) (w' : World),
      (storage setup).runFrom w
          (.matchBlocks hashes :: order.map fun i => .destroy (w.handles.length + i)) = some w' →
      w'.handles = w.handles →
      (∀ hash, w'.pool.contents hash = w.pool.contents hash) ∧
        w'.pool.uninitializedSet = w.pool.uninitializedSet ∧
        w'.pool.availableBlocks = w.pool.availableBlocks := by
  obtain ⟨k, hk⟩ := w.pool.matchBlocks_matched hashes
  refine ⟨⟨k, hk.longest, hk.blocks⟩, fun order w' hrun hend => ?_⟩
  obtain ⟨dropped, hperm, hpool⟩ := runFrom_destroy order rfl hrun hend
  rw [hpool]
  exact hk.returned (pool_indexed hreach) hperm

end World

/-- Two blocks with hash 5, one of them in the queue, and one with hash 7. -/
def duplicateRun : List Op := [.insert (hashed 5), .insert (hashed 7), .insert (hashed 5)]

theorem duplicateRun_runs : ((storage unitSetup).run duplicateRun).isSome = true := rfl

/-- The hash 5 is matched once, though the queue has another block with it. -/
theorem duplicateRun_neutral :
    ∃ w w', (storage unitSetup).run duplicateRun = some w ∧
      (w.pool.matchBlocks [7, 5, 5]).1.map (·.id) = [1, 0] ∧
      (storage unitSetup).runFrom w [.matchBlocks [7, 5, 5], .destroy 1, .destroy 0] = some w' ∧
      w'.pool.returnTick = 5 ∧
      (∀ hash, w'.pool.contents hash = w.pool.contents hash) ∧
      w'.pool.uninitializedSet = w.pool.uninitializedSet := by
  have hrun := (Option.some_get duplicateRun_runs).symm
  refine ⟨_, _, hrun, by decide, rfl, rfl, ?_⟩
  obtain ⟨-, hneutral⟩ := World.match_then_drop (.of_run hrun) [7, 5, 5]
  obtain ⟨hcontents, hqueue, -⟩ := hneutral [1, 0] _ rfl rfl
  exact ⟨hcontents, hqueue⟩

end DynamoCpp.Llm.Kv
