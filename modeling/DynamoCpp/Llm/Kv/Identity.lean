import DynamoCpp.Llm.Kv.Conservation

/-! # Blocks that keep their old identity

    A block that is taken out of the pool for new tokens still has the token
    block of its last use.  `prepare_prefill_offload` overwrites it in the blocks
    for complete token blocks.  The block for the partial tail keeps it, and
    brings it back when the handle is destroyed.
-/

namespace DynamoCpp.Llm.Kv

open Framework AvailableBlocksState KvStorageManager

namespace AvailableBlocksState

/-- The blocks in the pool. -/
def parkedBlocks (s : AvailableBlocksState) : List InsertedBlock :=
  s.uninitializedSet ++ s.lookupMap.toList.map (·.2)

/-- The block that `take_any_locked` takes next. -/
def nextOut (s : AvailableBlocksState) : Option InsertedBlock :=
  match s.uninitializedSet with
  | block :: _ => some block
  | [] => s.prioritySet.first?.bind fun entry => s.lookupMap[entry.2]?

section pool

variable {s s' : AvailableBlocksState} {block c : InsertedBlock} {h : SequenceHash}

theorem ids_parkedBlocks (s : AvailableBlocksState) : ids s.parkedBlocks = s.parked := by
  simp [parkedBlocks, parked]

theorem mem_parkedBlocks :
    c ∈ s.parkedBlocks ↔ c ∈ s.uninitializedSet ∨ ∃ k : SequenceHash, s.lookupMap[k]? = some c := by
  simp only [parkedBlocks, List.mem_append, List.mem_map, Prod.exists,
    Std.ExtTreeMap.mem_toList_iff_getElem?_eq_some, exists_eq_right]

theorem id_mem_parked (hc : c ∈ s.parkedBlocks) : c.id ∈ s.parked := by
  rw [← ids_parkedBlocks]
  exact Multiset.mem_coe.mpr (List.mem_map.mpr ⟨c, hc, rfl⟩)

/-! ## Taking -/

/-- What is left after one block was taken was there before. -/
theorem takeAnyLocked_parkedBlocks {r : Except Exception (Option InsertedBlock)}
    (htake : s.takeAnyLocked = (r, s')) (hc : c ∈ s'.parkedBlocks) : c ∈ s.parkedBlocks := by
  have hsub : s'.uninitializedSet ⊆ s.uninitializedSet ∧
      ∀ (k : SequenceHash) (b : InsertedBlock), s'.lookupMap[k]? = some b →
        s.lookupMap[k]? = some b := by
    unfold takeAnyLocked popPriority at htake
    split at htake
    · next first rest hrest =>
      cases htake
      exact ⟨hrest ▸ List.subset_cons_self _ _, fun _ _ h => h⟩
    · split at htake
      · cases htake
        exact ⟨List.Subset.refl _, fun _ _ h => h⟩
      · dsimp only at htake
        split at htake
        · cases htake
          exact ⟨List.Subset.refl _, fun _ _ h => h⟩
        · cases htake
          refine ⟨List.Subset.refl _, ?_⟩
          exact fun k b hb => (OrdMap.get_of_erase hb).2
  rw [mem_parkedBlocks] at hc ⊢
  exact hc.imp (fun h => hsub.1 h) fun ⟨k, hk⟩ => ⟨k, hsub.2 k c hk⟩

theorem takeLoop_parkedBlocks (n : Nat) :
    ∀ s, c ∈ (takeLoop n s).2.2.parkedBlocks → c ∈ s.parkedBlocks := by
  induction n with
  | zero => exact fun _ hc => hc
  | succ n ih =>
    intro s hc
    unfold takeLoop at hc
    split at hc
    · next e s' htake => exact takeAnyLocked_parkedBlocks htake hc
    · next s' htake => exact takeAnyLocked_parkedBlocks htake hc
    · next block s' htake => exact takeAnyLocked_parkedBlocks htake (ih s' hc)

theorem takeAnyLocked_some (htake : s.takeAnyLocked = (.ok (some block), s')) :
    s.nextOut = some block := by
  unfold takeAnyLocked popPriority at htake
  split at htake
  · next first rest hrest =>
    cases htake
    rw [nextOut, hrest]
  · next hnil =>
    split at htake
    · cases htake
    · next key hash hfirst =>
      dsimp only at htake
      split at htake
      · cases htake
      · next b hb =>
        cases htake
        rw [nextOut, hnil, hfirst]
        exact hb

/-- The first block of a vector that was taken. -/
theorem takeLoop_head {n : Nat} {taken : List InsertedBlock}
    (htake : (takeLoop n s).1 = block :: taken) : s.nextOut = some block := by
  cases n with
  | zero => cases htake
  | succ n =>
    unfold takeLoop at htake
    split at htake
    · cases htake
    · cases htake
    · next first s' hfirst =>
      cases htake
      exact takeAnyLocked_some hfirst

/-- The next block out is parked. -/
theorem mem_parkedBlocks_of_nextOut (hnext : s.nextOut = some block) : block ∈ s.parkedBlocks := by
  rw [mem_parkedBlocks]
  unfold nextOut at hnext
  split at hnext
  · next first rest hrest =>
    cases hnext
    exact .inl (hrest ▸ List.mem_cons_self)
  · obtain ⟨entry, -, hb⟩ := Option.bind_eq_some_iff.mp hnext
    exact .inr ⟨entry.2, hb⟩

/-! ## Returning -/

/-- A block files nothing under another hash. -/
theorem returnBlock_lookup_ne (s : AvailableBlocksState) (hne : block.tokenBlock.sequenceHash ≠ h) :
    (s.returnBlock block).lookupMap[h]? = s.lookupMap[h]? := by
  unfold returnBlock insertLocked
  dsimp only
  split
  · rfl
  · rw [OrdMap.get_insert, if_neg hne.symm]

/-- A block that is filed keeps its place. -/
theorem returnBlock_lookup_some (hc : s.lookupMap[h]? = some c) (block : InsertedBlock) :
    (s.returnBlock block).lookupMap[h]? = some c := by
  by_cases hsame : block.tokenBlock.sequenceHash = h
  · have hcontains : s.lookupMap.contains block.tokenBlock.sequenceHash = true := by
      rw [hsame, Std.ExtTreeMap.contains_eq_isSome_getElem?, hc]
      rfl
    unfold returnBlock insertLocked
    simp only [hcontains, or_true]
    exact hc
  · rw [returnBlock_lookup_ne s hsame]
    exact hc

/-- A block with a hash is filed under it when it returns, or one already was. -/
theorem returnBlock_lookup_self (s : AvailableBlocksState)
    (hzero : block.tokenBlock.sequenceHash ≠ 0) :
    (s.returnBlock block).lookupMap[block.tokenBlock.sequenceHash]?.isSome = true := by
  unfold returnBlock insertLocked
  dsimp only
  split
  · next hcond =>
    have hmem := Std.ExtTreeMap.mem_iff_contains.mpr (hcond.resolve_left hzero)
    exact Std.ExtTreeMap.mem_iff_isSome_getElem?.mp hmem
  · rw [Std.ExtTreeMap.getElem?_insert_self]
    rfl

/-- `match_blocks` for one hash finds what is filed under it. -/
theorem matchBlocks_single_eq_nil (s : AvailableBlocksState) (h : SequenceHash) :
    (s.matchBlocks [h]).1 = [] ↔ s.lookupMap[h]? = none := by
  unfold matchBlocks matchLoop takeWithHashLocked
  cases s.lookupMap[h]? with
  | none => simp
  | some b => simp

end pool

end AvailableBlocksState

/-! ## A prefill that was prepared and is destroyed -/

/-- One handle of a `PrefillOffload`. -/
inductive OffloadHandle where
  | reserved (inner : InnerId)
  | unique (block : InsertedBlock)

def PrefillOffload.handles (o : PrefillOffload) : List OffloadHandle :=
  o.inflightBlocks.map .reserved ++ o.blocks.map .unique

namespace KvStorageManager

/-- The destructor of the handle. -/
def destroyHandle (m : KvStorageManager) : OffloadHandle → KvStorageManager
  | .reserved i => m.drop i
  | .unique block => m.release (.owning block)

/-- The handles go in the given order. -/
def destroyAll (m : KvStorageManager) (order : List OffloadHandle) : KvStorageManager :=
  order.foldl destroyHandle m

/-- From one block more than there are token blocks, the first is left for the tail
    and the others get the token blocks. -/
theorem assign_spec (remaining : List TokenBlock) :
    ∀ (complete blocks : List InsertedBlock) (first : InsertedBlock),
      blocks.length = remaining.length →
      (assign remaining complete (first :: blocks)).2 = [first] ∧
        (assign remaining complete (first :: blocks)).1.map (·.tokenBlock) =
          complete.map (·.tokenBlock) ++ remaining := by
  induction remaining with
  | nil =>
    intro complete blocks first hlen
    obtain rfl := List.length_eq_zero_iff.mp hlen
    exact ⟨rfl, (List.append_nil _).symm⟩
  | cons tokenBlock remaining ih =>
    intro complete blocks first hlen
    have hne : blocks ≠ [] := by
      rintro rfl
      simp at hlen
    have hlast : (first :: blocks).getLast? = some (blocks.getLast hne) := by
      rw [List.getLast?_cons_of_ne_nil hne, List.getLast?_eq_getLast_of_ne_nil hne]
    have hdrop : (first :: blocks).dropLast = first :: blocks.dropLast :=
      List.dropLast_cons_of_ne_nil hne
    have hlen' : blocks.dropLast.length = remaining.length := by
      simp only [List.length_cons] at hlen
      simp only [List.length_dropLast]
      omega
    obtain ⟨hrest, htokens⟩ := ih
      (complete ++ [{ blocks.getLast hne with tokenBlock := tokenBlock }]) blocks.dropLast first
        hlen'
    simp only [assign, hlast, hdrop]
    exact ⟨hrest, by rw [htokens]; simp⟩

section offload

variable {m m' : KvStorageManager} {matched : PrefillMatched} {offload : PrefillOffload}

/-- What a prefill that was prepared consists of. -/
theorem preparePrefillOffload_ok (hok : m.preparePrefillOffload matched = (.ok offload, m')) :
    m'.inflightBlocks = m.inflightBlocks ∧
      (∀ c ∈ m'.availableBlocks.parkedBlocks, c ∈ m.availableBlocks.parkedBlocks) ∧
      offload.completePrefillBlocks.map (·.tokenBlock) = matched.remainingBlocks ∧
      m.availableBlocks.nextOut = some offload.tailPrefillBlock.2 := by
  unfold preparePrefillOffload takeBlocks at hok
  have hparked := fun c => takeLoop_parkedBlocks (c := c)
    (UInt32.ofNat matched.remainingBlocks.length + 1).toNat m.availableBlocks
  have hhead : ∀ block taken,
      (takeLoop (UInt32.ofNat matched.remainingBlocks.length + 1).toNat
        m.availableBlocks).1 = block :: taken → m.availableBlocks.nextOut = some block :=
    fun _ _ => takeLoop_head
  generalize takeLoop _ m.availableBlocks = r at hok hparked hhead
  obtain ⟨taken, e, s'⟩ := r
  cases e with
  | some e => cases hok
  | none =>
    dsimp only at hok
    split at hok
    · cases hok
    · next hlen =>
      have hlen : taken.length = matched.remainingBlocks.length + 1 := not_not.mp hlen
      cases taken with
      | nil => simp at hlen
      | cons first taken =>
        obtain ⟨hrest, htokens⟩ := assign_spec matched.remainingBlocks [] taken first
          (by simpa using hlen)
        rw [hrest] at hok
        obtain ⟨rfl, rfl⟩ := hok
        exact ⟨rfl, hparked, htokens, hhead first taken rfl⟩

end offload

/-! ### Destructors and one hash -/

section destructors

variable {m : KvStorageManager} {h : SequenceHash}

/-- No inner has a block with the hash. -/
def NotInflight (h : SequenceHash) (m : KvStorageManager) : Prop :=
  ∀ inner ∈ m.inflightBlocks.inners, ∀ c, inner.block = .owning c → c.tokenBlock.sequenceHash ≠ h

/-- The destructor of a `ReservedBlock` leaves the pool alone, or returns the block
    of the inner and leaves it without one. -/
theorem drop_cases (m : KvStorageManager) (i : InnerId) :
    ((m.drop i).availableBlocks = m.availableBlocks ∨
      ∃ inner ∈ m.inflightBlocks.inners,
        (m.drop i).availableBlocks = inner.block.release m.availableBlocks) ∧
    ∀ inner ∈ (m.drop i).inflightBlocks.inners, inner.block = .empty ∨
      ∃ old ∈ m.inflightBlocks.inners, inner.block = old.block := by
  cases hinner : m.inflightBlocks.inners[i]? with
  | none =>
    rw [drop_none hinner]
    exact ⟨.inl rfl, fun inner hmem => .inr ⟨inner, hmem, rfl⟩⟩
  | some inner =>
    have hmem := List.mem_of_getElem? hinner
    by_cases hlast : inner.useCount = 1
    · obtain ⟨hpool, hinners⟩ := drop_last hinner hlast
      refine ⟨.inr ⟨inner, hmem, hpool⟩, ?_⟩
      intro other hother
      rw [hinners] at hother
      rcases List.mem_or_eq_of_mem_set hother with hold | rfl
      · exact .inr ⟨other, hold, rfl⟩
      · exact .inl rfl
    · rw [drop_more hinner hlast]
      refine ⟨.inl rfl, ?_⟩
      intro other hother
      rw [ReservedBlocks.setUseCount_eq hinner] at hother
      rcases List.mem_or_eq_of_mem_set hother with hold | rfl
      · exact .inr ⟨other, hold, rfl⟩
      · exact .inr ⟨inner, hmem, rfl⟩

theorem release_lookup_ne (m : KvStorageManager) {block : UniqueBlock}
    (hne : ∀ c, block = .owning c → c.tokenBlock.sequenceHash ≠ h) :
    (block.release m.availableBlocks).lookupMap[h]? = m.availableBlocks.lookupMap[h]? := by
  cases block with
  | empty => rfl
  | moved shell => rfl
  | owning c => exact returnBlock_lookup_ne _ (hne c rfl)

variable {c : InsertedBlock}

theorem release_lookup_some {s : AvailableBlocksState}
    (hc : s.lookupMap[h]? = some c) (block : UniqueBlock) :
    (block.release s).lookupMap[h]? = some c := by
  cases block with
  | empty => exact hc
  | moved shell => exact hc
  | owning block => exact returnBlock_lookup_some hc block

theorem drop_lookup_some (hc : m.availableBlocks.lookupMap[h]? = some c)
    (i : InnerId) : (m.drop i).availableBlocks.lookupMap[h]? = some c := by
  rcases (drop_cases m i).1 with hpool | ⟨inner, -, hpool⟩
  · rw [hpool]
    exact hc
  · rw [hpool]
    exact release_lookup_some hc inner.block

/-- A handle without the hash files nothing under it. -/
theorem destroyHandle_absent (hfree : NotInflight h m)
    (habsent : m.availableBlocks.lookupMap[h]? = none) {handle : OffloadHandle}
    (hne : ∀ c, handle = .unique c → c.tokenBlock.sequenceHash ≠ h) :
    NotInflight h (m.destroyHandle handle) ∧
      (m.destroyHandle handle).availableBlocks.lookupMap[h]? = none := by
  cases handle with
  | unique block =>
    refine ⟨hfree, ?_⟩
    have hsame : (m.release (.owning block)).availableBlocks.lookupMap[h]? =
        m.availableBlocks.lookupMap[h]? :=
      returnBlock_lookup_ne _ (hne block rfl)
    exact hsame.trans habsent
  | reserved i =>
    obtain ⟨hpool, hinners⟩ := drop_cases m i
    constructor
    · intro inner hinner c hc
      rcases hinners inner hinner with hempty | ⟨old, hold, hsame⟩
      · rw [hempty] at hc
        cases hc
      · exact hfree old hold c (hsame ▸ hc)
    · show (m.drop i).availableBlocks.lookupMap[h]? = none
      rcases hpool with hpool | ⟨inner, hinner, hpool⟩
      · rw [hpool]
        exact habsent
      · rw [hpool, release_lookup_ne m (hfree inner hinner)]
        exact habsent

/-- No destructor takes a block out of the lookup map. -/
theorem destroyHandle_filed (handle : OffloadHandle)
    (hc : m.availableBlocks.lookupMap[h]? = some c) :
    (m.destroyHandle handle).availableBlocks.lookupMap[h]? = some c := by
  cases handle with
  | unique block => exact release_lookup_some hc (.owning block)
  | reserved i => exact drop_lookup_some hc i

theorem destroyAll_absent (order : List OffloadHandle)
    (hne : ∀ c, .unique c ∈ order → c.tokenBlock.sequenceHash ≠ h) :
    ∀ m, NotInflight h m → m.availableBlocks.lookupMap[h]? = none →
      (m.destroyAll order).availableBlocks.lookupMap[h]? = none := by
  induction order with
  | nil => exact fun _ _ habsent => habsent
  | cons handle order ih =>
    intro m hfree habsent
    obtain ⟨hfree', habsent'⟩ := destroyHandle_absent hfree habsent
      fun c hc => hne c (hc ▸ List.mem_cons_self)
    exact ih (fun c hc => hne c (List.mem_cons_of_mem _ hc)) _ hfree' habsent'

theorem destroyAll_filed (order : List OffloadHandle) :
    ∀ m : KvStorageManager, m.availableBlocks.lookupMap[h]? = some c →
      (m.destroyAll order).availableBlocks.lookupMap[h]? = some c := by
  induction order with
  | nil => exact fun _ hc => hc
  | cons handle order ih => exact fun m hc => ih _ (destroyHandle_filed handle hc)

/-- A handle whose block has the hash files it, whenever its turn comes. -/
theorem destroyAll_unique {order : List OffloadHandle}
    (hmem : .unique c ∈ order) (hzero : c.tokenBlock.sequenceHash ≠ 0) (m : KvStorageManager) :
    (m.destroyAll order).availableBlocks.lookupMap[c.tokenBlock.sequenceHash]?.isSome = true := by
  obtain ⟨before, after, rfl⟩ := List.append_of_mem hmem
  unfold destroyAll
  rw [List.foldl_append, List.foldl_cons]
  obtain ⟨b, hb⟩ := Option.isSome_iff_exists.mp
    (returnBlock_lookup_self (before.foldl destroyHandle m).availableBlocks hzero)
  exact Option.isSome_iff_exists.mpr ⟨b, destroyAll_filed after _ hb⟩

end destructors

end KvStorageManager

/-! ## Eviction -/

/-- Between `m` and `m'` the block `b` was taken out of the pool, and nothing else
    that the request can return has its hash. -/
structure Evicts (m m' : KvStorageManager) (matched : PrefillMatched) (b : InsertedBlock) :
    Prop where
  parked    : b ∈ m.availableBlocks.parkedBlocks
  taken     : b.id ∉ m'.availableBlocks.parked
  hash      : b.tokenBlock.sequenceHash ≠ 0
  /-- No other parked block has the hash, ... -/
  alone     : ∀ c ∈ m.availableBlocks.parkedBlocks,
    c.tokenBlock.sequenceHash = b.tokenBlock.sequenceHash → c = b
  /-- ... no inflight block, ... -/
  inflight  : ∀ inner ∈ m.inflightBlocks.inners, inner.useCount ≠ 0 →
    ∀ c, inner.block.block? = some c → c.tokenBlock.sequenceHash ≠ b.tokenBlock.sequenceHash
  /-- ... and none of the token blocks that the request still needs. -/
  remaining : ∀ tokenBlock ∈ matched.remainingBlocks,
    tokenBlock.sequenceHash ≠ b.tokenBlock.sequenceHash

section evicts

variable {m m' : KvStorageManager} {matched : PrefillMatched} {offload : PrefillOffload}
  {b : InsertedBlock}

/-- A pool that gave `b` away has nothing under its hash. -/
theorem Evicts.lookup_none {total : UInt64} (he : Evicts m m' matched b) (hsound : m'.Sound total)
    (hparked : ∀ c ∈ m'.availableBlocks.parkedBlocks, c ∈ m.availableBlocks.parkedBlocks) :
    m'.availableBlocks.lookupMap[b.tokenBlock.sequenceHash]? = none := by
  rw [Option.eq_none_iff_forall_ne_some]
  intro c hc
  have hmem : c ∈ m'.availableBlocks.parkedBlocks :=
    mem_parkedBlocks.mpr (.inr ⟨_, hc⟩)
  have hhash := hsound.pool.indexed.hash _ c hc
  have hself := he.alone c (hparked c hmem) hhash
  exact he.taken (hself ▸ id_mem_parked hmem)

/-- The live inners have other hashes, and the destroyed ones have no block. -/
theorem Evicts.notInflight {total : UInt64} (he : Evicts m m' matched b) (hsound : m.Sound total)
    (hsame : m'.inflightBlocks = m.inflightBlocks) :
    m'.NotInflight b.tokenBlock.sequenceHash := by
  intro inner hinner c hc
  rw [hsame] at hinner
  by_cases hdead : inner.useCount = 0
  · rw [hsound.destroyed inner hinner hdead] at hc
    cases hc
  · exact he.inflight inner hinner hdead c.toKvBlock (by rw [hc]; rfl)

end evicts

/-- A block that was evicted for a prefill cannot be matched under its old hash once
    the prefill is destroyed, in whichever order, exactly if it was not the first
    block that the pool handed out: that one becomes the tail. -/
theorem evicted_unmatchable_iff {setup : Setup} {w : World} (hreach : (storage setup).Reachable w)
    {matched : PrefillMatched} {offload : PrefillOffload} {m : KvStorageManager}
    (hok : w.manager.preparePrefillOffload matched = (.ok offload, m)) {b : InsertedBlock}
    (he : Evicts w.manager m matched b) {order : List OffloadHandle}
    (horder : order.Perm offload.handles) :
    ((m.destroyAll order).availableBlocks.matchBlocks [b.tokenBlock.sequenceHash]).1 = [] ↔
      w.manager.availableBlocks.nextOut ≠ some b := by
  have hsound := (World.held_of_reachable hreach).1
  have hsound' := (preparePrefillOffload_transfer hsound matched).keeps
  rw [hok] at hsound'
  obtain ⟨hinflight, hparked, htokens, hnext⟩ := preparePrefillOffload_ok hok
  rw [matchBlocks_single_eq_nil, hnext]
  have htail : .unique offload.tailPrefillBlock.2 ∈ order :=
    horder.mem_iff.mpr (by simp [PrefillOffload.handles, PrefillOffload.blocks])
  constructor
  · intro hnone hb
    rw [Option.some.injEq] at hb
    have hfiled := destroyAll_unique htail (by rw [hb]; exact he.hash) m
    rw [hb, hnone] at hfiled
    cases hfiled
  · intro hb
    refine destroyAll_absent order ?_ m (he.notInflight hsound hinflight)
      (he.lookup_none hsound' hparked)
    intro c hc
    have hmem := horder.mem_iff.mp hc
    simp only [PrefillOffload.handles, PrefillOffload.blocks, List.mem_append, List.mem_map,
      reduceCtorEq, and_false, exists_false, false_or, OffloadHandle.unique.injEq,
      exists_eq_right, List.mem_singleton] at hmem
    rcases hmem with hcomplete | rfl
    · -- a block for a complete token block was overwritten
      have hstamped : c.tokenBlock ∈ matched.remainingBlocks :=
        htokens ▸ List.mem_map.mpr ⟨c, hcomplete, rfl⟩
      exact he.remaining _ hstamped
    · -- the tail block still has the hash it was parked with
      intro hhash
      have hfirst := mem_parkedBlocks_of_nextOut hnext
      exact hb (congrArg some (he.alone _ hfirst hhash))

/-! ## A pool with a block of hash 5 -/

def fiveBlock : KvBlock := { tokenBlock := { tokens := [7], blockHash := 5, sequenceHash := 5 } }

/-- An uninitialized block comes in first. -/
def spareRun : List Op := [.insert {}, .insert fiveBlock]

def oneRemaining : PrefillMatched :=
  ⟨[], [{ tokens := [8], blockHash := 9, sequenceHash := 9 }], ⟨[], 1, none⟩⟩

theorem spareRun_runs : ((storage unitSetup).run spareRun).isSome = true := rfl

/-- The spare block becomes the tail, and the block of hash 5 is overwritten. -/
theorem spareRun_unmatchable :
    ∃ offload m,
      (((storage unitSetup).run spareRun).get spareRun_runs).manager.preparePrefillOffload
        oneRemaining = (.ok offload, m) ∧
      ((m.destroyAll offload.handles).availableBlocks.matchBlocks [5]).1 = [] := by
  refine ⟨_, _, rfl, ?_⟩
  have hreach := System.Reachable.of_run_isSome spareRun_runs
  refine (@evicted_unmatchable_iff _ _ hreach oneRemaining _ _ rfl
    ⟨{ fiveBlock with returnTick := 2 }, 1⟩ ?_ _ (List.Perm.refl _)).mpr (by decide)
  exact ⟨by decide, by decide, by decide, by decide, fun _ hinner => (nomatch hinner), by decide⟩

def fiveRun : List Op := [.insert fiveBlock]

theorem fiveRun_runs : ((storage unitSetup).run fiveRun).isSome = true := rfl

/-- Without a spare block, the block of hash 5 becomes the tail of a request for no
    complete block.  When the request is gone, it is found under hash 5 again. -/
theorem tail_matchable_again :
    ∃ w offload m b, (storage unitSetup).Reachable w ∧
      w.manager.preparePrefillOffload ⟨[], [], ⟨[], 1, none⟩⟩ = (.ok offload, m) ∧
      Evicts w.manager m ⟨[], [], ⟨[], 1, none⟩⟩ b ∧ b.tokenBlock.sequenceHash = 5 ∧
      ((m.destroyAll offload.handles).availableBlocks.matchBlocks [5]).1 ≠ [] := by
  refine ⟨_, _, _, ⟨{ fiveBlock with returnTick := 1 }, 0⟩,
    System.Reachable.of_run_isSome fiveRun_runs, rfl, ?_, rfl, by decide⟩
  exact ⟨by decide, by decide, by decide, by decide, fun _ hinner => (nomatch hinner), by decide⟩

end DynamoCpp.Llm.Kv
