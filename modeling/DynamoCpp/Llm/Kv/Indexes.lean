import DynamoCpp.Llm.Kv.History

/-! # The indexes of the reuse pool

    A parked block with a hash is filed twice: in the lookup map under its hash
    and in the priority set under its key.  Priority, tick and hash of a block
    are edited while it is out of the pool, so every operation has to find the
    key that was filed.

    The ticks order the returns.  They are drawn from a counter of 64 bits, so
    they tell the parked blocks apart until the counter has gone around.
-/

namespace DynamoCpp.Llm.Kv

open Framework AvailableBlocksState

namespace AvailableBlocksState

/-! ## Resetting everything -/

section resetAll

variable {total available : UInt64} {s : AvailableBlocksState}

/-- `reset_all` leaves nothing in the two indexes. -/
theorem resetAll_empties (h : Counted total available s) :
    s.resetAll.2.prioritySet.first? = none := by
  fun_induction resetAll s with
  | case1 s e s' hpop =>
    obtain ⟨taken, hok, -⟩ := popPriority_transfer h
    rw [hpop] at hok
    cases hok
  | case2 s s' hpop =>
    rcases popPriority_eq h.indexed with ⟨hfirst, hnone⟩ | ⟨hash, block, s'', -, hsome⟩
    · rw [hpop] at hnone
      cases hnone
      exact hfirst
    · rw [hpop] at hsome
      cases hsome
  | case3 s block s' hpop ih =>
    obtain ⟨taken, hok, hstep⟩ := popPriority_transfer h
    rw [hpop] at hstep
    exact ih (insertLocked_transfer hstep.keeps _).keeps

theorem lookup_none_of_first? (h : Indexed s) (hfirst : s.prioritySet.first? = none)
    (hash : SequenceHash) : s.lookupMap[hash]? = none := by
  cases hb : s.lookupMap[hash]? with
  | none => rfl
  | some b =>
    have hentry := (h.priority (keyOf b.toKvBlock) hash).mpr ⟨b, hb, rfl⟩
    have hmem := Std.ExtTreeMap.mem_toList_iff_getElem?_eq_some.mpr hentry
    rw [List.head?_eq_none_iff.mp hfirst] at hmem
    cases hmem

end resetAll

end AvailableBlocksState

namespace World

/-- After any calls of the pool and its handles the priority set and the lookup
    map are in bijection, no filed block has the hash 0, and the counter has the
    number of parked blocks, of which there are fewer than `2 ^ 64`.  The ticks of
    the filed blocks are distinct as long as no more than `2 ^ 64` blocks came in.
    So no priority entry misses its block, and `reset_all` moves every parked block
    to the uninitialized set. -/
theorem indexes_agree {setup : Setup} {ops : List Op} {w : World}
    (hrun : (reusePool setup).run ops = some w) :
    (∀ (key : PriorityKey) (hash : SequenceHash), w.pool.prioritySet[key]? = some hash ↔
      ∃ b : InsertedBlock, w.pool.lookupMap[hash]? = some b ∧ keyOf b.toKvBlock = key) ∧
    (∀ (hash : SequenceHash) (b : InsertedBlock), w.pool.lookupMap[hash]? = some b →
      b.tokenBlock.sequenceHash = hash ∧ hash ≠ 0) ∧
    ((arrivalLog setup ops).length ≤ 2 ^ 64 → ∀ (hash hash' : SequenceHash) (b b' : InsertedBlock),
      w.pool.lookupMap[hash]? = some b → w.pool.lookupMap[hash']? = some b' →
        b.returnTick = b'.returnTick → hash = hash') ∧
    (w.pool.lookupMap.size + w.pool.uninitializedSet.length < 2 ^ 64 →
      w.pool.availableBlocks.toNat = w.pool.lookupMap.size + w.pool.uninitializedSet.length) ∧
    (∀ count, ∃ taken, (w.pool.takeBlocks count).1 = .ok taken) ∧
    w.pool.resetAll.1 = .ok () ∧
    (∀ hash : SequenceHash, w.pool.resetAll.2.lookupMap[hash]? = none) ∧
    (∀ key : PriorityKey, w.pool.resetAll.2.prioritySet[key]? = none) ∧
    ids w.pool.resetAll.2.uninitializedSet = w.pool.parked := by
  have hreach : (storage setup).Reachable w := .of_run (System.run_of_guarded hrun)
  have hpool := (held_of_reachable hreach).1.pool
  have htimed := timed_of_run hrun
  obtain ⟨hreset, hkept⟩ := resetAll_transfer hpool
  have hfirst := resetAll_empties hpool
  have hlookup := AvailableBlocksState.lookup_none_of_first? hkept.keeps.indexed hfirst
  refine ⟨hpool.indexed.priority, ?_, ?_, ?_, ?_, hreset, hlookup, ?_, ?_⟩
  · exact fun hash b hb => ⟨hpool.indexed.hash hash b hb, hpool.indexed.nonzero hash b hb⟩
  · intro hshort hash hash' b b' hb hb' htick
    -- blocks with one tick came in at one time, so they are one block
    have hsame := eq_of_id_eq hreach (mem_parkedBlocks.mpr (.inr ⟨hash, hb⟩))
      (mem_parkedBlocks.mpr (.inr ⟨hash', hb'⟩)) (htimed.id_eq hshort hb hb' htick)
    rw [← hpool.indexed.hash hash b hb, ← hpool.indexed.hash hash' b' hb', hsame]
  · have hcard : w.pool.parked.card =
        w.pool.lookupMap.size + w.pool.uninitializedSet.length := by
      rw [parked, Multiset.card_add, card_ids, card_ids, List.length_map,
        Std.ExtTreeMap.length_toList, Nat.add_comm]
    rw [← hcard]
    exact hpool.available_eq
  · intro count
    obtain ⟨taken, hok, -⟩ := takeBlocks_transfer hpool count
    exact ⟨taken, hok⟩
  · intro key
    cases hentry : w.pool.resetAll.2.prioritySet[key]? with
    | none => rfl
    | some hash =>
      obtain ⟨b, hb, -⟩ := (hkept.keeps.indexed.priority key hash).mp hentry
      cases (hlookup hash).symm.trans hb
  · -- nothing is left in the map, so all that is parked is uninitialized
    have hempty : w.pool.resetAll.2.lookupMap.toList = [] := by
      rw [List.eq_nil_iff_forall_not_mem]
      intro entry hmem
      have hb := Std.ExtTreeMap.mem_toList_iff_getElem?_eq_some.mp hmem
      cases (hlookup entry.1).symm.trans hb
    have hbalance : w.pool.parked + 0 = w.pool.resetAll.2.parked + 0 := hkept.balance
    rw [add_zero, add_zero] at hbalance
    rw [hbalance, parked, hempty, List.map_nil, ids_nil, add_zero]

end World

/-- A block with the hash of its state. -/
def hashed (hash : SequenceHash) : KvBlock := { tokenBlock := { sequenceHash := hash } }

/-- A parked block is taken out, gets another hash and priority, and comes back. -/
def editedRun : List Op :=
  [.insert (hashed 5), .insert (hashed 7), .matchBlocks [5],
    .write 0 { hashed 9 with priority := 3 }, .destroy 0, .updatePriorities [(7, 4)]]

theorem editedRun_runs : ((reusePool unitSetup).run editedRun).isSome = true := rfl

theorem editedRun_agrees :
    ∃ w, (reusePool unitSetup).run editedRun = some w ∧
      w.pool.lookupMap.toList.map (fun e => (e.1, keyOf e.2.toKvBlock)) =
        [(7, ⟨4, 2, 7⟩), (9, ⟨3, 3, 9⟩)] ∧
      (∀ (key : PriorityKey) (hash : SequenceHash), w.pool.prioritySet[key]? = some hash ↔
        ∃ b : InsertedBlock, w.pool.lookupMap[hash]? = some b ∧ keyOf b.toKvBlock = key) :=
  ⟨_, (Option.some_get editedRun_runs).symm, by decide,
    (World.indexes_agree (Option.some_get editedRun_runs).symm).1⟩

/-! ## The ticks after the counter has gone around -/

/-- A filed block is taken out by its hash and returned as it is. -/
theorem AvailableBlocksState.lookup_returned {s : AvailableBlocksState} {hash : SequenceHash}
    {block : InsertedBlock} (hblock : s.lookupMap[hash]? = some block)
    (hhash : block.tokenBlock.sequenceHash = hash) (hne : hash ≠ 0) :
    (s.matchBlocks [hash]).1 = [block] ∧
      ((s.matchBlocks [hash]).2.returnBlock block).returnTick = s.returnTick + 1 ∧
      ((s.matchBlocks [hash]).2.returnBlock block).uninitializedSet = s.uninitializedSet ∧
      ((s.matchBlocks [hash]).2.returnBlock block).lookupMap =
        (s.lookupMap.erase hash).insert hash { block with returnTick := s.returnTick + 1 } := by
  have hmatch : s.matchBlocks [hash] = ([block], handOut
      { s with
        lookupMap := s.lookupMap.erase hash
        prioritySet := s.prioritySet.erase (keyOf block.toKvBlock) } [block]) := by
    simp [matchBlocks, matchLoop, takeWithHashLocked, hblock]
  rw [hmatch]
  refine ⟨rfl, insertLocked_returnTick _ _, ?_, ?_⟩ <;>
    simp [returnBlock, insertLocked, handOut, hhash, hne]

def twoRun : List Op := [.insert (hashed 5), .insert (hashed 7)]

/-- A block with hash 5 that stays in the pool. -/
def staying : InsertedBlock := ⟨{ hashed 5 with returnTick := 1 }, 0⟩

/-- A block with hash 7 that came in as the `n`-th. -/
def returning (n : Nat) : InsertedBlock := ⟨{ hashed 7 with returnTick := UInt64.ofNat n }, 1⟩

/-- Next to a block that stays, another one is taken out and returned over and over. -/
theorem exists_returned (n : Nat) :
    ∃ ops w, (reusePool unitSetup).run ops = some w ∧
      World.arrivalLog unitSetup ops = 0 :: 1 :: List.replicate n 1 ∧
      w.handles = [] ∧ w.pool.uninitializedSet = [] ∧
      w.pool.returnTick = UInt64.ofNat (n + 2) ∧
      ∀ hash : SequenceHash, w.pool.lookupMap[hash]? =
        if hash = 7 then some (returning (n + 2)) else if hash = 5 then some staying else none := by
  induction n with
  | zero =>
    refine ⟨twoRun, _, rfl, rfl, rfl, rfl, rfl, fun hash => ?_⟩
    show (((∅ : OrdMap SequenceHash InsertedBlock).insert 5 staying).insert 7 (returning 2))[hash]?
      = _
    simp only [OrdMap.get_insert, Std.ExtTreeMap.getElem?_empty]
  | succ n ih =>
    obtain ⟨ops, w, hrun, hlog, hhandles, hnone, htick, hlookup⟩ := ih
    have hmoves : w.pool.lookupMap[(7 : SequenceHash)]? = some (returning (n + 2)) := hlookup 7
    obtain ⟨hmatched, hnext, huninit, hmap⟩ :=
      lookup_returned hmoves rfl (by decide)
    have hout : (reusePool unitSetup).exec w (.matchBlocks [7]) =
        some { w.setPool (w.pool.matchBlocks [7]).2 with
          handles := [.owning (returning (n + 2))] } := by
      refine System.guarded_exec.mpr ⟨rfl, congrArg some ?_⟩
      show World.receive _ (w.pool.matchBlocks [7]).1 = _
      rw [hmatched]
      simp [World.receive, World.setPool, hhandles, World.pool]
    have htick' : w.pool.returnTick + 1 = UInt64.ofNat (n + 1 + 2) := by
      rw [htick, ← UInt64.ofNat_one, ← UInt64.ofNat_add]
    refine ⟨ops ++ [.matchBlocks [7], .destroy 0],
      { w.setPool ((w.pool.matchBlocks [7]).2.returnBlock (returning (n + 2))) with handles := [] },
      ?_, ?_, rfl, huninit.trans hnone, hnext.trans htick', fun hash => ?_⟩
    · rw [System.run, System.runFrom_append, show System.runFrom _ _ ops = some w from hrun,
        Option.bind_some, System.runFrom, hout]
      rfl
    · unfold World.arrivalLog at hlog ⊢
      rw [System.collect_append hrun, hlog, System.collect_cons hout]
      show 0 :: 1 :: (List.replicate n 1 ++ [1]) = _
      rw [← List.replicate_succ']
    · refine (congrArg (·[hash]?) hmap).trans ?_
      have hself :
          ({ returning (n + 2) with returnTick := w.pool.returnTick + 1 } : InsertedBlock) =
          returning (n + 1 + 2) := by
        rw [htick']
        rfl
      rw [hself, OrdMap.get_insert, OrdMap.get_erase, hlookup hash]
      by_cases hseven : hash = 7
      · rw [if_pos hseven, if_pos hseven]
      · rw [if_neg hseven, if_neg hseven, if_neg hseven, if_neg hseven]

/-- When `2 ^ 64 + 1` blocks have come in, two parked blocks can have one tick. -/
theorem ticks_wrap :
    ∃ w, (reusePool unitSetup).Reachable w ∧
      ∃ stays moves : InsertedBlock, w.pool.lookupMap[(5 : SequenceHash)]? = some stays ∧
        w.pool.lookupMap[(7 : SequenceHash)]? = some moves ∧
        stays.returnTick = moves.returnTick := by
  obtain ⟨ops, w, hrun, -, -, -, -, hlookup⟩ := exists_returned (2 ^ 64 - 1)
  exact ⟨w, .of_run hrun, staying, returning (2 ^ 64 - 1 + 2), hlookup 5, hlookup 7, rfl⟩

end DynamoCpp.Llm.Kv
