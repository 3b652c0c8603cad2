import DynamoCpp.Llm.Kv.EvictionOrder
import DynamoCpp.Llm.Kv.Registration
import Mathlib.Data.List.Dedup

/-! # A prefill that cannot be allocated

    When the pool has too few blocks, `prepare_prefill_offload` has emptied it already.
    The exception destroys the handles in the order of the vector, and the argument with
    its inflight blocks.  The blocks of the uninitialized queue return first, so a block
    may take the place of another with its hash.
-/

namespace DynamoCpp.Llm.Kv

open Framework AvailableBlocksState KvStorageManager

/-! ## Dropping a list of reserved blocks -/

/-- The destructor of the handle returns a block. -/
def UniqueBlock.owns : UniqueBlock → Bool
  | .empty => false
  | .moved _ => false
  | .owning _ => true

namespace ReservedBlocks

/-- The inners all of whose `ReservedBlock`s are in the list. -/
def lastHeld (r : ReservedBlocks) (inners : List InnerId) : List InnerId :=
  inners.dedup.filter fun i => ((r.inners[i]?).map (·.useCount)) == some (inners.count i)

/-- The inner has a block of the pool. -/
def ownsBlock (r : ReservedBlocks) (i : InnerId) : Bool :=
  ((r.inners[i]?).map (·.block.owns)).getD false

/-- The list has no more references to an inner than there are. -/
def Holds (r : ReservedBlocks) (inners : List InnerId) : Prop :=
  ∀ i ∈ inners, ∃ inner, r.inners[i]? = some inner ∧ inners.count i ≤ inner.useCount

end ReservedBlocks

namespace KvStorageManager

section dropping

variable {total : UInt64} {m : KvStorageManager} {i j : InnerId} {inner old : ReservedBlockInner}
  {rest : List InnerId}

/-- A block that comes in is one more. -/
theorem release_card {s : AvailableBlocksState} (h : s.Sound total) (block : UniqueBlock) :
    (block.release s).parked.card = s.parked.card + if block.owns = true then 1 else 0 := by
  cases block with
  | empty => rfl
  | moved shell => rfl
  | owning block =>
    have hbalance := (returnBlock_transfer h block).balance
    rw [add_zero] at hbalance
    show (s.returnBlock block).parked.card = _
    rw [← hbalance, Multiset.card_add, Multiset.card_singleton]
    rfl

/-- One of several references goes. -/
theorem inners_drop_more (hinner : m.inflightBlocks.inners[i]? = some inner)
    (hmore : inner.useCount ≠ 1) : (m.drop i).inflightBlocks.inners =
      m.inflightBlocks.inners.set i { inner with useCount := inner.useCount - 1 } := by
  rw [drop_more hinner hmore]
  exact congrArg ReservedBlocks.inners (ReservedBlocks.setUseCount_eq hinner (· - 1))

theorem drop_ne (hinner : m.inflightBlocks.inners[i]? = some inner) (hne : i ≠ j) :
    (m.drop i).inflightBlocks.inners[j]? = m.inflightBlocks.inners[j]? := by
  by_cases hlast : inner.useCount = 1
  · rw [(drop_last hinner hlast).2, List.getElem?_set_ne hne]
  · rw [inners_drop_more hinner hlast, List.getElem?_set_ne hne]

/-- What the first destructor of a list leaves to the others. -/
theorem drop_rest (hinner : m.inflightBlocks.inners[i]? = some inner)
    (hcount : (i :: rest).count i ≤ inner.useCount) (hj : j ∈ rest)
    (hold : m.inflightBlocks.inners[j]? = some old) :
    ∃ new, (m.drop i).inflightBlocks.inners[j]? = some new ∧ new.block = old.block ∧
      new.useCount + (i :: rest).count j = old.useCount + rest.count j := by
  by_cases hij : i = j
  · subst hij
    cases hinner.symm.trans hold
    rw [List.count_cons_self] at hcount ⊢
    have hpos := List.count_pos_iff.mpr hj
    have hlt : i < m.inflightBlocks.inners.length := (List.getElem?_eq_some_iff.mp hinner).1
    refine ⟨{ inner with useCount := inner.useCount - 1 }, ?_, rfl, ?_⟩
    · rw [inners_drop_more hinner (by omega), List.getElem?_set_self hlt]
    · dsimp only
      omega
  · exact ⟨old, (drop_ne hinner hij).trans hold, rfl, by rw [List.count_cons_of_ne hij]⟩

/-- The pool gets the blocks of the inners that have no holder outside of the list. -/
theorem dropAll_card (inners : List InnerId) :
    ∀ {m : KvStorageManager}, m.Sound total → m.inflightBlocks.Holds inners →
      (m.dropAll inners).availableBlocks.parked.card = m.availableBlocks.parked.card +
        (m.inflightBlocks.lastHeld inners).countP m.inflightBlocks.ownsBlock := by
  induction inners with
  | nil => exact fun _ _ => rfl
  | cons i rest ih =>
    intro m hsound hheld
    obtain ⟨inner, hinner, hcount⟩ := hheld i List.mem_cons_self
    have hrest : (m.drop i).inflightBlocks.Holds rest := by
      intro j hj
      obtain ⟨old, hold, hle⟩ := hheld j (List.mem_cons_of_mem i hj)
      obtain ⟨new, hnew, -, huse⟩ := drop_rest hinner hcount hj hold
      exact ⟨new, hnew, by omega⟩
    refine (ih (drop_transfer hsound i).keeps hrest).trans ?_
    unfold ReservedBlocks.lastHeld
    rw [List.countP_filter, List.countP_filter]
    -- the other inners are counted alike before and after
    have hagree : rest.dedup.countP (fun j => (m.drop i).inflightBlocks.ownsBlock j &&
          ((m.drop i).inflightBlocks.inners[j]?).map (·.useCount) == some (rest.count j)) =
        rest.dedup.countP (fun j => m.inflightBlocks.ownsBlock j &&
          (m.inflightBlocks.inners[j]?).map (·.useCount) == some ((i :: rest).count j)) := by
      refine List.countP_congr fun j hj => ?_
      obtain ⟨old, hold, -⟩ := hheld j (List.mem_cons_of_mem i (List.mem_dedup.mp hj))
      obtain ⟨new, hnew, hblock, huse⟩ := drop_rest hinner hcount (List.mem_dedup.mp hj) hold
      simp only [ReservedBlocks.ownsBlock, hnew, hold, hblock, Option.map_some, Option.getD_some,
        Bool.and_eq_true, beq_iff_eq, Option.some.injEq]
      refine and_congr_right fun _ => ?_
      omega
    rw [hagree]
    by_cases hmem : i ∈ rest
    · -- not the last reference of the list, so not the last one at all
      have hpos := List.count_pos_iff.mpr hmem
      rw [List.count_cons_self] at hcount
      rw [List.dedup_cons_of_mem hmem, drop_more hinner (by omega)]
    · -- the last reference of the list: is there another holder?
      have hzero := List.count_eq_zero.mpr hmem
      rw [List.dedup_cons_of_notMem hmem, List.countP_cons, List.count_cons_self, hzero]
      by_cases hlast : inner.useCount = 1
      · rw [(drop_last hinner hlast).1, release_card hsound.pool]
        simp only [ReservedBlocks.ownsBlock, hinner, hlast, Option.map_some, Option.getD_some,
          Nat.zero_add, beq_self_eq_true, Bool.and_true]
        omega
      · rw [drop_more hinner hlast]
        simp [hinner, hlast]

end dropping

/-! ## Hashes stay filed -/

section filed

variable {m : KvStorageManager} {s : AvailableBlocksState} {h : SequenceHash} {b : InsertedBlock}

theorem dropAll_lookup_some (inners : List InnerId) : ∀ {m : KvStorageManager},
    m.availableBlocks.lookupMap[h]? = some b →
      (m.dropAll inners).availableBlocks.lookupMap[h]? = some b := by
  induction inners with
  | nil => exact fun hb => hb
  | cons i inners ih => exact fun hb => ih (drop_lookup_some hb i)

theorem returnAll_lookup_some (blocks : List InsertedBlock) : ∀ {s : AvailableBlocksState},
    s.lookupMap[h]? = some b →
      (blocks.foldl returnBlock s).lookupMap[h]? = some b := by
  induction blocks with
  | nil => exact fun hb => hb
  | cons block blocks ih => exact fun hb => ih (returnBlock_lookup_some hb block)

/-- Of the blocks with one hash, the first that returns is filed. -/
theorem returnAll_lookup (blocks : List InsertedBlock) (hne : h ≠ 0) :
    ∀ {s : AvailableBlocksState}, (∃ b ∈ blocks, b.tokenBlock.sequenceHash = h) →
      ∃ b : InsertedBlock,
        (blocks.foldl returnBlock s).lookupMap[h]? = some b ∧
        (s.lookupMap[h]? = some b ∨
          ∃ c ∈ blocks, c.tokenBlock.sequenceHash = h ∧ b.tokenBlock = c.tokenBlock) := by
  induction blocks with
  | nil =>
    rintro s ⟨b, hb, -⟩
    cases hb
  | cons block blocks ih =>
    rintro s ⟨c, hc, hhash⟩
    cases hfirst : (s.returnBlock block).lookupMap[h]? with
    | some b =>
      refine ⟨b, returnAll_lookup_some blocks hfirst, ?_⟩
      rcases lookup_insertLocked hfirst with hold | ⟨-, hself, rfl⟩
      · exact .inl hold
      · exact .inr ⟨block, List.mem_cons_self, hself.symm, rfl⟩
    | none =>
      -- the first block has another hash, or it would be filed now
      have hlater : c ∈ blocks := by
        refine (List.mem_cons.mp hc).resolve_left ?_
        rintro rfl
        have hfiled := returnBlock_lookup_self s (hhash ▸ hne)
        rw [hhash, hfirst] at hfiled
        cases hfiled
      obtain ⟨b, hb, hfrom⟩ := @ih (s.returnBlock block) ⟨c, hlater, hhash⟩
      rw [hfirst] at hfrom
      obtain ⟨d, hd, heq⟩ := hfrom.resolve_left (by simp)
      exact ⟨b, hb, .inr ⟨d, List.mem_cons_of_mem block hd, heq⟩⟩

theorem releaseAll_eq (blocks : List InsertedBlock) : ∀ m : KvStorageManager,
    m.releaseAll blocks = { m with
      availableBlocks := blocks.foldl returnBlock m.availableBlocks } := by
  induction blocks with
  | nil => exact fun m => rfl
  | cons block blocks ih => exact fun m => ih (m.release (.owning block))

end filed

/-! ## The offload -/

section offload

variable {total : UInt64} {m : KvStorageManager} {matched : PrefillMatched}

theorem toNat_ofNat_succ {n : Nat} (hn : n < 2 ^ 32 - 1) : (UInt32.ofNat n + 1).toNat = n + 1 := by
  have hone : (1 : UInt32).toNat = 1 := rfl
  rw [UInt32.toNat_add, UInt32.toNat_ofNat', hone, Nat.mod_eq_of_lt (by omega),
    Nat.mod_eq_of_lt (by omega)]

/-- With enough blocks there is one for every token block and one for the tail. -/
theorem preparePrefillOffload_enough (hs : m.availableBlocks.Indexed)
    (hremaining : matched.remainingBlocks.length < 2 ^ 32 - 1)
    (henough : matched.remainingBlocks.length + 1 ≤ m.availableBlocks.parkedBlocks.length) :
    ∃ offload, (m.preparePrefillOffload matched).1 = .ok offload := by
  obtain ⟨htake, -, -⟩ := takeBlocks_order hs
    (UInt32.ofNat matched.remainingBlocks.length + 1)
  rw [toNat_ofNat_succ hremaining] at htake
  unfold preparePrefillOffload
  generalize m.availableBlocks.takeBlocks _ = r at htake
  obtain ⟨result, pool⟩ := r
  obtain rfl : result = .ok _ := htake
  have hlength : (m.availableBlocks.evictionOrder.take
      (matched.remainingBlocks.length + 1)).length = matched.remainingBlocks.length + 1 := by
    rw [List.length_take, (evictionOrder_perm hs).length_eq]
    exact Nat.min_eq_left henough
  dsimp only
  rw [if_neg (not_not.mpr hlength)]
  cases htaken : m.availableBlocks.evictionOrder.take (matched.remainingBlocks.length + 1) with
  | nil =>
    rw [htaken] at hlength
    cases hlength
  | cons first taken =>
    rw [htaken] at hlength
    obtain ⟨hrest, -⟩ := assign_spec matched.remainingBlocks [] taken first (by simpa using hlength)
    rw [hrest]
    exact ⟨_, rfl⟩

/-- With too few the pool is emptied, and everything returned. -/
theorem preparePrefillOffload_short (hs : m.availableBlocks.Indexed)
    (hremaining : matched.remainingBlocks.length < 2 ^ 32 - 1)
    (hshort : m.availableBlocks.parkedBlocks.length < matched.remainingBlocks.length + 1) :
    m.preparePrefillOffload matched =
      (.error (shortage (matched.remainingBlocks.length + 1)
          m.availableBlocks.parkedBlocks.length),
        ({ m with availableBlocks := (m.availableBlocks.takeBlocks
            (UInt32.ofNat matched.remainingBlocks.length + 1)).2 }.releaseAll
          m.availableBlocks.evictionOrder).dropAll matched.inflightBlocks) := by
  have hlength := (evictionOrder_perm hs).length_eq
  obtain ⟨htake, -, -⟩ := takeBlocks_order hs
    (UInt32.ofNat matched.remainingBlocks.length + 1)
  rw [toNat_ofNat_succ hremaining, List.take_of_length_le (by omega)] at htake
  unfold preparePrefillOffload
  generalize m.availableBlocks.takeBlocks _ = r at htake
  obtain ⟨result, pool⟩ := r
  obtain rfl : result = .ok _ := htake
  dsimp only
  rw [if_pos (by omega), hlength]

/-- What the exception leaves: the blocks that were taken are back. -/
theorem released_parked (h : m.Sound total) (count : UInt32)
    (hall : m.availableBlocks.parkedBlocks.length ≤ count.toNat) :
    ({ m with availableBlocks := (m.availableBlocks.takeBlocks count).2 }.releaseAll
        m.availableBlocks.evictionOrder).Sound total ∧
      ({ m with availableBlocks := (m.availableBlocks.takeBlocks count).2 }.releaseAll
        m.availableBlocks.evictionOrder).availableBlocks.parked = m.availableBlocks.parked := by
  have hlength := (evictionOrder_perm h.pool.indexed).length_eq
  obtain ⟨taken, hok, htaken⟩ := takeBlocks_transfer h.pool count
  have horder := (takeBlocks_order h.pool.indexed count).1
  rw [List.take_of_length_le (by omega), hok] at horder
  cases horder
  -- taken and returned: the same multiset, though not the same places
  have hout := pool_transfer h htaken
  have hback := hout.returns_all (releaseAll_transfer hout.keeps _)
  refine ⟨hback.keeps, ?_⟩
  have hbalance := hback.balance
  rw [add_zero, add_zero, releaseAll_eq] at hbalance
  rw [releaseAll_eq]
  exact (add_right_cancel hbalance).symm

/-- The hashes of the blocks that were taken are filed again. -/
theorem released_lookup (h : m.Sound total) (count : UInt32) {b : InsertedBlock}
    (hb : b ∈ m.availableBlocks.parkedBlocks) (hne : b.tokenBlock.sequenceHash ≠ 0) :
    ∃ b' c : InsertedBlock,
      ({ m with availableBlocks := (m.availableBlocks.takeBlocks count).2 }.releaseAll
        m.availableBlocks.evictionOrder).availableBlocks.lookupMap[b.tokenBlock.sequenceHash]? =
          some b' ∧
      c ∈ m.availableBlocks.parkedBlocks ∧
      c.tokenBlock.sequenceHash = b.tokenBlock.sequenceHash ∧ b'.tokenBlock = c.tokenBlock := by
  have horder := evictionOrder_perm h.pool.indexed
  rw [releaseAll_eq]
  obtain ⟨b', hb', hfrom⟩ := @returnAll_lookup _ m.availableBlocks.evictionOrder hne
    (m.availableBlocks.takeBlocks count).2 ⟨b, horder.mem_iff.mpr hb, rfl⟩
  rcases hfrom with hleft | ⟨c, hc, hhash, heq⟩
  · -- a block that was not taken was filed under its own hash
    have hold := (takeBlocks_narrows h.pool count).lookup _ b' hleft
    exact ⟨b', b', hb', mem_parkedBlocks.mpr (.inr ⟨_, hold⟩),
      h.pool.indexed.hash _ b' hold, rfl⟩
  · exact ⟨b', c, hb', horder.mem_iff.mp hc, hhash, heq⟩

end offload

end KvStorageManager

namespace World

theorem holds_iff {w : World} {inners : List InnerId} :
    w.holds inners = true ↔ w.manager.inflightBlocks.Holds inners := by
  unfold holds ReservedBlocks.Holds
  rw [List.all_eq_true]
  refine forall_congr' fun i => imp_congr_right fun _ => ?_
  cases w.manager.inflightBlocks.inners[i]? with
  | none => simp
  | some inner => simp

/-- **A failed offload.**  `prepare_prefill_offload` throws if and only if fewer blocks are
    parked than there are remaining token blocks and the tail; the counter has the number of
    parked blocks in 64 bits.  When it throws, the counter grows by the number of inflight
    blocks that only the argument held, those without a block of the pool apart, and every
    hash of a parked block is filed, with the token block of one that had it. -/
theorem failed_offload_returns {setup : Setup} {w : World} (hreach : (storage setup).Reachable w)
    {matched : PrefillMatched} (hholds : w.holds matched.inflightBlocks = true)
    (hremaining : matched.remainingBlocks.length < 2 ^ 32 - 1) :
    ((∃ e, (w.manager.preparePrefillOffload matched).1 = .error e) ↔
      w.pool.parkedBlocks.length < matched.remainingBlocks.length + 1) ∧
    w.pool.availableBlocks = UInt64.ofNat w.pool.parkedBlocks.length ∧
    ∀ e m, w.manager.preparePrefillOffload matched = (.error e, m) →
      m.availableBlocks.availableBlocks = w.pool.availableBlocks +
        UInt64.ofNat ((w.manager.inflightBlocks.lastHeld matched.inflightBlocks).countP
          w.manager.inflightBlocks.ownsBlock) ∧
      ∀ b ∈ w.pool.parkedBlocks, b.tokenBlock.sequenceHash ≠ 0 →
        ∃ b' c : InsertedBlock,
          m.availableBlocks.lookupMap[b.tokenBlock.sequenceHash]? = some b' ∧
          c ∈ w.pool.parkedBlocks ∧ c.tokenBlock.sequenceHash = b.tokenBlock.sequenceHash ∧
          b'.tokenBlock = c.tokenBlock := by
  have hsound := (held_of_reachable hreach).1
  have hindexed := pool_indexed hreach
  have hcard : w.pool.parkedBlocks.length = w.pool.parked.card := by
    rw [← ids_parkedBlocks, card_ids]
  have hthrows : (∃ e, (w.manager.preparePrefillOffload matched).1 = .error e) ↔
      w.pool.parkedBlocks.length < matched.remainingBlocks.length + 1 := by
    constructor
    · rintro ⟨e, he⟩
      by_contra henough
      obtain ⟨offload, hok⟩ := preparePrefillOffload_enough hindexed hremaining
        (Nat.not_lt.mp henough)
      cases he.symm.trans hok
    · intro hshort
      exact ⟨_, congrArg Prod.fst
        (preparePrefillOffload_short hindexed hremaining hshort)⟩
  refine ⟨hthrows, hcard ▸ hsound.pool.availableBlocks, fun e m hthrow => ?_⟩
  -- what the exception leaves is the pool with its own blocks back, and then the argument's
  have hshort := hthrows.mp ⟨e, congrArg Prod.fst hthrow⟩
  rw [preparePrefillOffload_short hindexed hremaining hshort] at hthrow
  cases hthrow
  obtain ⟨hback, hparked⟩ := released_parked hsound
    (UInt32.ofNat matched.remainingBlocks.length + 1)
    (by rw [toNat_ofNat_succ hremaining]; exact hshort.le)
  constructor
  · have hafter := (dropAll_transfer hback matched.inflightBlocks).keeps.pool
    have hcount := dropAll_card matched.inflightBlocks hback
      (by rw [releaseAll_eq]; exact holds_iff.mp hholds)
    rw [hparked] at hcount
    refine hafter.availableBlocks.trans ?_
    rw [hcount, UInt64.ofNat_add, ← hsound.pool.availableBlocks, releaseAll_eq]
    rfl
  · intro b hb hne
    obtain ⟨b', c, hb', hc⟩ := released_lookup hsound
      (UInt32.ofNat matched.remainingBlocks.length + 1) hb hne
    exact ⟨b', c, dropAll_lookup_some matched.inflightBlocks hb', hc⟩

end World

/-- A block with hash 5 is inflight, and one with hash 7 parked. -/
def heldRun : List Op := [.insert fiveBlock, .takeBlocks 1, .registerBlock 0, .insert (hashed 7)]

/-- What a request holds that shares the inflight block and needs as many new ones. -/
def holding (remaining : List TokenBlock) : PrefillMatched := ⟨[0], remaining, ⟨[], 1, none⟩⟩

theorem heldRun_runs : ((storage unitSetup).run heldRun).isSome = true := rfl

/-- Two blocks are needed and one is there; afterwards both are parked. -/
theorem heldRun_returned :
    ∃ w m, (storage unitSetup).run heldRun = some w ∧ w.pool.parkedBlocks.length = 1 ∧
      w.manager.preparePrefillOffload (holding [{}]) =
        (.error (KvStorageManager.shortage 2 1), m) ∧
      w.pool.availableBlocks = 1 ∧ m.availableBlocks.availableBlocks = 2 ∧
      ∃ b c : InsertedBlock, m.availableBlocks.lookupMap[(7 : SequenceHash)]? = some b ∧
        c ∈ w.pool.parkedBlocks ∧ b.tokenBlock = c.tokenBlock := by
  have hrun := (Option.some_get heldRun_runs).symm
  obtain ⟨-, hcounter, hreturned⟩ := World.failed_offload_returns (.of_run hrun)
    (show World.holds _ (holding [{}]).inflightBlocks = true from rfl) (by decide)
  obtain ⟨havailable, hfiled⟩ := hreturned _ _ rfl
  obtain ⟨b, c, hb, hc, -, heq⟩ := hfiled ⟨{ hashed 7 with returnTick := 2 }, 1⟩
    (by decide) (by decide)
  exact ⟨_, _, hrun, rfl, rfl, hcounter, havailable, b, c, hb, hc, heq⟩

/-- A handle is registered that was moved from and written again: it has no block of the pool. -/
def movedRun : List Op :=
  [.insert fiveBlock, .takeBlocks 1, .moveConstruct 0, .write 0 fiveBlock, .registerBlock 0]

/-- The counter can fail to grow by the inflight blocks that only the argument held. -/
theorem offload_miscounts :
    ∃ w m, (storage unitSetup).run movedRun = some w ∧
      w.holds (holding []).inflightBlocks = true ∧
      w.manager.preparePrefillOffload (holding []) =
        (.error (KvStorageManager.shortage 1 0), m) ∧
      w.manager.inflightBlocks.lastHeld (holding []).inflightBlocks = [0] ∧
      w.pool.availableBlocks = 0 ∧ m.availableBlocks.availableBlocks = 0 :=
  ⟨_, _, rfl, rfl, rfl, by decide, by decide, by decide⟩

end DynamoCpp.Llm.Kv
