import DynamoCpp.Framework.Custody
import DynamoCpp.Llm.Kv.Reuse

/-! # What the pool holds

    The pool parks a block in the lookup map, with an entry in the priority set,
    or in the uninitialized set.  The two indexes stay in step, so no operation
    meets an entry without its block, and every operation hands out exactly the
    blocks that it stops holding.
-/

namespace DynamoCpp.Llm.Kv

open Framework

/-- The identities of a list of blocks. -/
def ids (blocks : List InsertedBlock) : Multiset Nat := (blocks.map (·.id) : List Nat)

@[simp] theorem ids_nil : ids [] = 0 := rfl

@[simp] theorem ids_cons (b : InsertedBlock) (bs : List InsertedBlock) :
    ids (b :: bs) = {b.id} + ids bs := rfl

@[simp] theorem ids_append (bs cs : List InsertedBlock) : ids (bs ++ cs) = ids bs + ids cs := by
  simp [ids]

@[simp] theorem card_ids (bs : List InsertedBlock) : (ids bs).card = bs.length := by
  simp [ids]

theorem ids_perm {bs cs : List InsertedBlock} (h : bs.Perm cs) : ids bs = ids cs :=
  Multiset.coe_eq_coe.mpr (h.map _)

theorem sum_map_ids (bs : List InsertedBlock) :
    (bs.map fun b => ({b.id} : Multiset Nat)).sum = ids bs := by
  induction bs with
  | nil => rfl
  | cons b bs ih => rw [List.map_cons, List.sum_cons, ih, ids_cons]

namespace AvailableBlocksState

/-- The identities of the parked blocks. -/
def parked (s : AvailableBlocksState) : Multiset Nat :=
  ids s.uninitializedSet + ids (s.lookupMap.toList.map (·.2))

/-! ## The indexes agree -/

/-- The lookup map files every block under its own hash, which is not 0, and the
    priority set has exactly the keys of its blocks. -/
structure Indexed (s : AvailableBlocksState) : Prop where
  hash     : ∀ (h : SequenceHash) (b : InsertedBlock), s.lookupMap[h]? = some b →
    b.tokenBlock.sequenceHash = h
  priority : ∀ (k : PriorityKey) (h : SequenceHash), s.prioritySet[k]? = some h ↔
    ∃ b : InsertedBlock, s.lookupMap[h]? = some b ∧ keyOf b.toKvBlock = k
  nonzero  : ∀ (h : SequenceHash) (b : InsertedBlock), s.lookupMap[h]? = some b → h ≠ 0

theorem indexed_init : Indexed {} where
  hash := by simp
  priority := by simp
  nonzero := by simp

section indexed

variable {s s' : AvailableBlocksState} {block : InsertedBlock}

/-- Only the two indexes matter. -/
theorem Indexed.congr (hs : Indexed s) (hmap : s'.lookupMap = s.lookupMap)
    (hset : s'.prioritySet = s.prioritySet) : Indexed s' :=
  ⟨hmap ▸ hs.hash, hmap ▸ hset ▸ hs.priority, hmap ▸ hs.nonzero⟩

/-- The condition under which `insert_locked` files a block. -/
theorem lookup_none_of_not
    (h : ¬ (block.tokenBlock.sequenceHash = 0 ∨
      s.lookupMap.contains block.tokenBlock.sequenceHash = true)) :
    s.lookupMap[block.tokenBlock.sequenceHash]? = none :=
  Std.ExtTreeMap.getElem?_eq_none fun hmem => h (.inr (Std.ExtTreeMap.mem_iff_contains.mp hmem))

/-- A block whose hash is not in the map is not in the priority set either. -/
theorem Indexed.key_fresh (hs : Indexed s)
    (hnew : s.lookupMap[block.tokenBlock.sequenceHash]? = none) :
    s.prioritySet[keyOf block.toKvBlock]? = none := by
  rw [Option.eq_none_iff_forall_ne_some]
  intro h hk
  obtain ⟨b, hb, hkey⟩ := (hs.priority _ h).mp hk
  -- the key has the hash in it
  have hh : h = block.tokenBlock.sequenceHash :=
    (hs.hash h b hb).symm.trans (congrArg PriorityKey.sequenceHash hkey)
  rw [hh, hnew] at hb
  cases hb

theorem Indexed.insertLocked (hs : Indexed s) (block : InsertedBlock) :
    Indexed (s.insertLocked block) := by
  unfold AvailableBlocksState.insertLocked
  dsimp only
  split
  · exact hs.congr rfl rfl
  · next hcond =>
    have hnew := lookup_none_of_not hcond
    have hkey : keyOf block.toKvBlock ∉ s.prioritySet := by
      rw [Std.ExtTreeMap.mem_iff_isSome_getElem?, hs.key_fresh hnew]
      simp
    refine ⟨fun h b hb => ?_, fun k h => ?_, fun h b hb => ?_⟩
    · rcases OrdMap.get_of_insert hb with ⟨rfl, rfl⟩ | hb
      · rfl
      · exact hs.hash h b hb
    · simp only [Std.ExtTreeMap.getElem?_insertIfNew, Std.ExtTreeMap.getElem?_insert,
        Std.LawfulEqCmp.compare_eq_iff_eq, hkey, not_false_eq_true, and_true]
      by_cases hk : keyOf block.toKvBlock = k
      · subst hk
        by_cases hh : block.tokenBlock.sequenceHash = h
        · simp [hh]
        · simp only [if_true, Option.some.injEq, hh, false_iff, not_exists, not_and]
          intro b hb heq
          exact hh ((congrArg PriorityKey.sequenceHash heq).symm.trans (hs.hash h b hb))
      · rw [if_neg hk, hs.priority]
        by_cases hh : block.tokenBlock.sequenceHash = h
        · subst hh
          simp [hnew, hk]
        · rw [if_neg hh]
    · rcases OrdMap.get_of_insert hb with ⟨rfl, rfl⟩ | hb
      · exact fun hzero => hcond (.inl hzero)
      · exact hs.nonzero h b hb

theorem Indexed.takeWithHashLocked (hs : Indexed s) {hash : SequenceHash}
    (htake : s.takeWithHashLocked hash = some (block, s')) : Indexed s' := by
  obtain ⟨hb, rfl⟩ := takeWithHashLocked_eq_some.mp htake
  refine ⟨fun h c hc => hs.hash h c (OrdMap.get_of_erase hc).2, fun k h => ?_,
    fun h c hc => hs.nonzero h c (OrdMap.get_of_erase hc).2⟩
  simp only [OrdMap.get_erase]
  by_cases hh : h = hash
  · subst hh
    simp only [if_true, reduceCtorEq, false_and, exists_false, iff_false]
    split
    · simp
    · next hk =>
      intro hold
      obtain ⟨c, hc, hkey⟩ := (hs.priority k h).mp hold
      rw [hb] at hc
      cases hc
      exact hk hkey.symm
  · rw [if_neg hh]
    split
    · next hk =>
      -- another block has another hash in its key
      subst hk
      simp only [reduceCtorEq, false_iff, not_exists, not_and]
      intro c hc hkey
      have heq : c.tokenBlock.sequenceHash = block.tokenBlock.sequenceHash :=
        congrArg PriorityKey.sequenceHash hkey
      rw [hs.hash h c hc, hs.hash hash block hb] at heq
      exact hh heq
    · exact hs.priority k h

/-- The first entry of the priority set has its block in the map. -/
theorem popPriority_eq (hs : Indexed s) :
    (s.prioritySet.first? = none ∧ s.popPriority = (.ok none, s)) ∨
      ∃ hash block s', s.takeWithHashLocked hash = some (block, s') ∧
        s.popPriority = (.ok (some block), s') := by
  cases hfirst : s.prioritySet.first? with
  | none => exact .inl ⟨rfl, by simp [popPriority, hfirst]⟩
  | some entry =>
    obtain ⟨key, hash⟩ := entry
    obtain ⟨b, hb, hkey⟩ := (hs.priority key hash).mp (OrdMap.getElem?_of_first? hfirst)
    refine .inr ⟨hash, b, _, by simp [takeWithHashLocked, hb]; rfl, ?_⟩
    simp [popPriority, hfirst, hb, hkey]

end indexed

/-! ## Under the mutex -/

/-- The indexes agree, and the counters have the given values. -/
structure Counted (total available : UInt64) (s : AvailableBlocksState) : Prop where
  indexed         : Indexed s
  totalBlocks     : s.totalBlocks = total
  availableBlocks : s.availableBlocks = available

section locked

variable {s s' : AvailableBlocksState} {total available : UInt64} {block : InsertedBlock}

theorem insertLocked_transfer (h : Counted total available s) (block : InsertedBlock) :
    Transfer (Counted total available) parked s {block.id} 0 (s.insertLocked block) where
  keeps := by
    refine ⟨h.indexed.insertLocked block, ?_, ?_⟩
    · unfold insertLocked
      dsimp only
      split <;> exact h.totalBlocks
    · unfold insertLocked
      dsimp only
      split <;> exact h.availableBlocks
  balance := by
    unfold insertLocked
    dsimp only
    split
    · simp only [parked, ids_append]
      abel
    · next hcond =>
      have hperm := OrdMap.toList_insert_perm s.lookupMap _ block (lookup_none_of_not hcond)
      simp only [parked, ids_perm (hperm.map (·.2)), List.map_cons, ids_cons]
      abel

theorem takeWithHashLocked_transfer (h : Counted total available s) {hash : SequenceHash}
    (htake : s.takeWithHashLocked hash = some (block, s')) :
    Transfer (Counted total available) parked s 0 {block.id} s' := by
  have hindexed := h.indexed.takeWithHashLocked htake
  obtain ⟨hb, rfl⟩ := takeWithHashLocked_eq_some.mp htake
  refine ⟨⟨hindexed, h.totalBlocks, h.availableBlocks⟩, ?_⟩
  have hperm := OrdMap.toList_erase_perm s.lookupMap hash block hb
  simp only [parked, ids_perm (hperm.map (·.2)), List.map_cons, ids_cons]
  abel

/-- `take_any_locked` and the loop of `reset_all` never miss a block. -/
theorem popPriority_transfer (h : Counted total available s) :
    ∃ taken : Option InsertedBlock, s.popPriority.1 = .ok taken ∧
      Transfer (Counted total available) parked s 0 (ids taken.toList) s.popPriority.2 := by
  rcases popPriority_eq h.indexed with ⟨-, hnone⟩ | ⟨hash, block, s', htake, hpop⟩
  · exact ⟨none, by rw [hnone], by rw [hnone]; exact .refl h⟩
  · refine ⟨some block, by rw [hpop], ?_⟩
    rw [hpop]
    exact takeWithHashLocked_transfer h htake

theorem takeAnyLocked_transfer (h : Counted total available s) :
    ∃ taken : Option InsertedBlock, s.takeAnyLocked.1 = .ok taken ∧
      Transfer (Counted total available) parked s 0 (ids taken.toList) s.takeAnyLocked.2 := by
  unfold takeAnyLocked
  split
  · next block rest hrest =>
    refine ⟨some block, rfl, ⟨h.indexed.congr rfl rfl, h.totalBlocks,
      h.availableBlocks⟩, ?_⟩
    simp only [parked, hrest, ids_cons, Option.toList]
    abel
  · exact popPriority_transfer h

/-- A block that is reworked stays parked. -/
theorem rework_transfer (h : Counted total available s) (hash : SequenceHash)
    (f : KvBlock → KvBlock) :
    Transfer (Counted total available) parked s 0 0 (s.rework hash f) := by
  unfold rework
  split
  · exact .refl h
  · next block s' htake =>
    have hout := takeWithHashLocked_transfer h htake
    exact hout.returns_all
      (insertLocked_transfer hout.keeps { block with toKvBlock := f block.toKvBlock })

theorem matchLoop_transfer (hashes : List SequenceHash) :
    ∀ s, Counted total available s →
      Transfer (Counted total available) parked s 0 (ids (matchLoop hashes s).1)
        (matchLoop hashes s).2 := by
  induction hashes with
  | nil => exact fun s h => .refl h
  | cons hash hashes ih =>
    intro s h
    unfold matchLoop
    split
    · exact .refl h
    · next block s' htake =>
      have hfirst := takeWithHashLocked_transfer h htake
      exact hfirst.trans (ih s' hfirst.keeps)

theorem takeLoop_transfer (n : Nat) :
    ∀ s, Counted total available s → (takeLoop n s).2.1 = none ∧
      Transfer (Counted total available) parked s 0 (ids (takeLoop n s).1) (takeLoop n s).2.2 := by
  induction n with
  | zero => exact fun s h => ⟨rfl, .refl h⟩
  | succ n ih =>
    intro s h
    obtain ⟨taken, hok, hfirst⟩ := takeAnyLocked_transfer h
    generalize hr : s.takeAnyLocked = r at hok hfirst
    obtain ⟨result, s'⟩ := r
    obtain rfl : result = .ok taken := hok
    cases taken with
    | none => exact ⟨by simp [takeLoop, hr], by simpa [takeLoop, hr] using hfirst⟩
    | some block =>
      obtain ⟨hnone, hrest⟩ := ih s' hfirst.keeps
      refine ⟨by simp [takeLoop, hr, hnone], ?_⟩
      simpa [takeLoop, hr] using hfirst.trans hrest

theorem resetAll_transfer (h : Counted total available s) :
    s.resetAll.1 = .ok () ∧ Transfer (Counted total available) parked s 0 0 s.resetAll.2 := by
  fun_induction resetAll s with
  | case1 s e s' hpop =>
    obtain ⟨taken, hok, -⟩ := popPriority_transfer h
    rw [hpop] at hok
    cases hok
  | case2 s s' hpop =>
    obtain ⟨taken, hok, hstep⟩ := popPriority_transfer h
    rw [hpop] at hok hstep
    cases hok
    exact ⟨rfl, hstep⟩
  | case3 s block s' hpop ih =>
    obtain ⟨taken, hok, hstep⟩ := popPriority_transfer h
    rw [hpop] at hok hstep
    cases hok
    have hback := insertLocked_transfer hstep.keeps
      { block with toKvBlock := block.toKvBlock.reset }
    obtain ⟨hdone, hrest⟩ := ih hback.keeps
    exact ⟨hdone, (hstep.returns_all hback).trans hrest⟩

end locked

/-! ## Between the operations -/

/-- The indexes agree, and `available_blocks` counts the parked blocks. -/
def Sound (total : UInt64) (s : AvailableBlocksState) : Prop :=
  Counted total (UInt64.ofNat s.parked.card) s

theorem sound_init : Sound 0 {} := ⟨indexed_init, rfl, rfl⟩

theorem Sound.available_eq {total : UInt64} {s : AvailableBlocksState} (h : Sound total s)
    (hfits : s.parked.card < 2 ^ 64) : s.availableBlocks.toNat = s.parked.card := by
  rw [h.availableBlocks, UInt64.toNat_ofNat', Nat.mod_eq_of_lt hfits]

section sound

variable {s s' : AvailableBlocksState} {total available : UInt64} {into out : Multiset Nat}

theorem sound_of_transfer (h : Transfer (Counted total available) parked s into out s')
    (hcount : available = UInt64.ofNat s'.parked.card) :
    Transfer (Sound total) parked s into out s' := by
  subst hcount
  exact ⟨h.keeps, h.balance⟩

/-- An operation that hands nothing over leaves the counter right. -/
theorem sound_of_keeps (h : Transfer (Counted total (UInt64.ofNat s.parked.card)) parked s 0 0 s') :
    Transfer (Sound total) parked s 0 0 s' := by
  refine sound_of_transfer h ?_
  have hsame : s.parked = s'.parked := by simpa using h.balance
  rw [hsame]

/-- Handing out subtracts what was taken. -/
theorem handOut_transfer {blocks : List InsertedBlock}
    (h : Transfer (Counted total (UInt64.ofNat s.parked.card)) parked s 0 (ids blocks) s') :
    Transfer (Sound total) parked s 0 (ids blocks) (s'.handOut blocks) := by
  have hcard : s.parked.card = s'.parked.card + blocks.length := by
    have := congrArg Multiset.card h.balance
    simpa using this
  refine ⟨⟨h.keeps.indexed.congr rfl rfl, h.keeps.totalBlocks, ?_⟩, h.balance⟩
  show s'.availableBlocks - UInt64.ofNat blocks.length = UInt64.ofNat s'.parked.card
  rw [h.keeps.availableBlocks, hcard, UInt64.ofNat_add, UInt64.add_sub_cancel]

theorem returnBlock_transfer (h : Sound total s) (block : InsertedBlock) :
    Transfer (Sound total) parked s {block.id} 0 (s.returnBlock block) := by
  have hin := insertLocked_transfer
    (s := { s with availableBlocks := s.availableBlocks + 1, returnTick := s.returnTick + 1 })
    ⟨h.indexed.congr rfl rfl, h.totalBlocks, rfl⟩
    { block with returnTick := s.returnTick + 1 }
  have hbalance : s.parked + {block.id} = (s.returnBlock block).parked + 0 := hin.balance
  refine sound_of_transfer ⟨hin.keeps, hbalance⟩ ?_
  rw [h.availableBlocks, ← add_zero (s.returnBlock block).parked, ← hbalance, Multiset.card_add,
    UInt64.ofNat_add]
  rfl

theorem matchBlocks_transfer (h : Sound total s) (hashes : List SequenceHash) :
    Transfer (Sound total) parked s 0 (ids (s.matchBlocks hashes).1) (s.matchBlocks hashes).2 :=
  handOut_transfer (matchLoop_transfer hashes s h)

/-- `take_blocks` never throws. -/
theorem takeBlocks_transfer (h : Sound total s) (count : UInt32) :
    ∃ taken, (s.takeBlocks count).1 = .ok taken ∧
      Transfer (Sound total) parked s 0 (ids taken) (s.takeBlocks count).2 := by
  obtain ⟨hnone, hloop⟩ := takeLoop_transfer count.toNat s h
  generalize hr : takeLoop count.toNat s = r at hnone hloop
  obtain ⟨taken, e, s'⟩ := r
  obtain rfl : e = none := hnone
  refine ⟨taken, by simp [takeBlocks, hr], ?_⟩
  simpa [takeBlocks, hr] using handOut_transfer hloop

theorem updatePriorities_transfer (h : Sound total s) (updates : List (SequenceHash × UInt32)) :
    Transfer (Sound total) parked s 0 0 (s.updatePriorities updates) := by
  have hloop : Transfer (Counted total (UInt64.ofNat s.parked.card)) parked s 0 0
      (s.updatePriorities updates) :=
    Transfer.foldl_keeps (fun _ u hs => rework_transfer hs u.1 _) updates s h
  exact sound_of_keeps hloop

theorem reset_transfer (h : Sound total s) (hashes : List SequenceHash) :
    Transfer (Sound total) parked s 0 0 (s.reset hashes) := by
  have hloop : Transfer (Counted total (UInt64.ofNat s.parked.card)) parked s 0 0
      (s.reset hashes) :=
    Transfer.foldl_keeps (fun _ hash hs => rework_transfer hs hash KvBlock.reset) hashes s h
  exact sound_of_keeps hloop

/-- A new block is parked, and counted in `total_blocks`. -/
theorem insert_transfer (h : Sound total s) (block : InsertedBlock) :
    Sound (total + 1) (s.insert block) ∧ (s.insert block).parked = block.id ::ₘ s.parked := by
  have hcounted : Sound (total + 1) { s with totalBlocks := s.totalBlocks + 1 } :=
    ⟨h.indexed.congr rfl rfl, congrArg (· + 1) h.totalBlocks, h.availableBlocks⟩
  have hin := returnBlock_transfer hcounted block
  refine ⟨hin.keeps, ?_⟩
  have hbalance : s.parked + {block.id} = (s.insert block).parked + 0 := hin.balance
  rw [← add_zero (s.insert block).parked, ← hbalance, add_comm]
  rfl

end sound

end AvailableBlocksState

end DynamoCpp.Llm.Kv
