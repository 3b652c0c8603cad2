import DynamoCpp.Llm.Kv.Indexes

/-! # The eviction order

    `take_blocks` empties the uninitialized queue from its front, and then takes the filed
    blocks in the order of the priority set: by priority, then by the tick of their last
    arrival.  Against the history of the pool the queue has the latest entries of the log of
    its entries, oldest first, and the ticks are the times of the last arrivals in 64 bits.
-/

namespace DynamoCpp.Llm.Kv

open Framework AvailableBlocksState

namespace AvailableBlocksState

/-! ## The order of the priority set -/

/-- The parked blocks in the order in which `take_blocks` hands them out. -/
def evictionOrder (s : AvailableBlocksState) : List InsertedBlock := s.uninitializedSet ++ s.filed

section order

variable {s s' : AvailableBlocksState} {block : InsertedBlock}

theorem map_keyOf_filed (hs : Indexed s) :
    s.filed.map (fun b => keyOf b.toKvBlock) = s.prioritySet.toList.map (·.1) := by
  have hall : ∀ l : List (PriorityKey × SequenceHash), (∀ e ∈ l, e ∈ s.prioritySet.toList) →
      (l.filterMap fun e => s.lookupMap[e.2]?).map (fun b => keyOf b.toKvBlock) =
        l.map (·.1) := by
    intro l hl
    induction l with
    | nil => rfl
    | cons e l ih =>
      obtain ⟨b, hb, hkey⟩ := hs.entry (hl e List.mem_cons_self)
      simp only [List.filterMap_cons, hb, List.map_cons, hkey,
        ih fun e he => hl e (List.mem_cons_of_mem _ he)]
  exact hall _ fun _ he => he

theorem mem_filed (hs : Indexed s) :
    block ∈ s.filed ↔ ∃ hash : SequenceHash, s.lookupMap[hash]? = some block := by
  unfold filed
  rw [List.mem_filterMap]
  constructor
  · rintro ⟨entry, -, hb⟩
    exact ⟨entry.2, hb⟩
  · rintro ⟨hash, hb⟩
    have hentry := (hs.priority (keyOf block.toKvBlock) hash).mpr ⟨block, hb, rfl⟩
    exact ⟨_, Std.ExtTreeMap.mem_toList_iff_getElem?_eq_some.mpr hentry, hb⟩

theorem filed_sorted (hs : Indexed s) :
    s.filed.Pairwise fun a b => compare (keyOf a.toKvBlock) (keyOf b.toKvBlock) = .lt := by
  have hkeys : (s.prioritySet.toList.map (·.1)).Pairwise fun a b => compare a b = .lt :=
    List.pairwise_map.mpr Std.ExtTreeMap.ordered_keys_toList
  rw [← map_keyOf_filed hs] at hkeys
  exact List.pairwise_map.mp hkeys

theorem filed_perm (hs : Indexed s) : s.filed.Perm (s.lookupMap.toList.map (·.2)) := by
  have hfiled : s.filed.Nodup := (filed_sorted hs).imp fun {a b} hlt heq => by
    have hself : compare (keyOf b.toKvBlock) (keyOf b.toKvBlock) = .eq := Std.ReflCmp.compare_self
    rw [heq, hself] at hlt
    cases hlt
  have hmap : (s.lookupMap.toList.map (·.2)).Nodup := by
    refine List.Nodup.map_on (fun a ha b hb heq => ?_) (OrdMap.nodup_toList _)
    -- a block is filed under its own hash
    have hfst := hs.hash a.1 a.2 (Std.ExtTreeMap.mem_toList_iff_getElem?_eq_some.mp ha)
    have hfst' := hs.hash b.1 b.2 (Std.ExtTreeMap.mem_toList_iff_getElem?_eq_some.mp hb)
    exact Prod.ext (by rw [← hfst, ← hfst', heq]) heq
  refine (List.perm_ext_iff_of_nodup hfiled hmap).mpr fun b => ?_
  simp only [mem_filed hs, List.mem_map, Prod.exists,
    Std.ExtTreeMap.mem_toList_iff_getElem?_eq_some, exists_eq_right]

theorem evictionOrder_perm (hs : Indexed s) : s.evictionOrder.Perm s.parkedBlocks :=
  (filed_perm hs).append_left s.uninitializedSet

/-! ## Taking -/

/-- `take_any_locked` takes the first block of the order. -/
theorem takeAnyLocked_order (hs : Indexed s) :
    (s.evictionOrder = [] ∧ s.takeAnyLocked = (.ok none, s)) ∨
      ∃ block s', s.takeAnyLocked = (.ok (some block), s') ∧ Indexed s' ∧
        s.evictionOrder = block :: s'.evictionOrder := by
  unfold evictionOrder takeAnyLocked
  cases huninit : s.uninitializedSet with
  | cons block rest => exact .inr ⟨block, _, rfl, hs.congr rfl rfl, rfl⟩
  | nil =>
    rcases popPriority_filed hs with ⟨hnone, hpop⟩ | ⟨block, s', hpop, hs', hsame, hfiled⟩
    · exact .inl ⟨hnone, hpop⟩
    · refine .inr ⟨block, s', hpop, hs', ?_⟩
      rw [hsame, huninit, hfiled]
      rfl

theorem takeLoop_order (n : Nat) : ∀ {s : AvailableBlocksState}, Indexed s →
    ∃ s', takeLoop n s = (s.evictionOrder.take n, none, s') ∧ Indexed s' ∧
      s'.evictionOrder = s.evictionOrder.drop n := by
  induction n with
  | zero => exact fun {s} hs => ⟨s, rfl, hs, rfl⟩
  | succ n ih =>
    intro s hs
    unfold takeLoop
    rcases takeAnyLocked_order hs with ⟨hnone, htake⟩ | ⟨block, s', htake, hs', horder⟩
    · rw [htake, hnone]
      exact ⟨s, rfl, hs, hnone⟩
    · obtain ⟨s'', hloop, hs'', hrest⟩ := ih hs'
      rw [htake, horder]
      refine ⟨s'', ?_, hs'', hrest⟩
      simp only [hloop, List.take_succ_cons]

/-- What `take_blocks` returns and leaves. -/
theorem takeBlocks_order (hs : Indexed s) (count : UInt32) :
    (s.takeBlocks count).1 = .ok (s.evictionOrder.take count.toNat) ∧
      Indexed (s.takeBlocks count).2 ∧
      (s.takeBlocks count).2.evictionOrder = s.evictionOrder.drop count.toNat := by
  obtain ⟨s', hloop, hs', horder⟩ := takeLoop_order count.toNat hs
  unfold takeBlocks
  rw [hloop]
  exact ⟨rfl, hs'.congr rfl rfl, horder⟩

/-- Taking in two steps. -/
theorem takeBlocks_add (hs : Indexed s) {m n : UInt32} (hsum : m.toNat + n.toNat < 2 ^ 32) :
    ∃ a b, (s.takeBlocks m).1 = .ok a ∧ ((s.takeBlocks m).2.takeBlocks n).1 = .ok b ∧
      (s.takeBlocks (m + n)).1 = .ok (a ++ b) := by
  obtain ⟨hfirst, hs', horder⟩ := takeBlocks_order hs m
  obtain ⟨hsecond, -, -⟩ := takeBlocks_order hs' n
  refine ⟨_, _, hfirst, hsecond, ?_⟩
  rw [(takeBlocks_order hs (m + n)).1, UInt32.toNat_add, Nat.mod_eq_of_lt hsum, horder,
    List.take_add]

end order

end AvailableBlocksState

/-! ## Runs -/

namespace World

/-- `a` is taken before `b`: by priority, then by the time of the last arrival. -/
def Precedes (log : List Nat) (a b : InsertedBlock) : Prop :=
  a.priority < b.priority ∨
    a.priority = b.priority ∧ lastOccurrence log a.id < lastOccurrence log b.id

/-- Until the counter has gone around, keys compare as priorities and times. -/
theorem precedes_of_key_lt {log : List Nat} {s : AvailableBlocksState} (htimed : s.Timed log)
    (hshort : log.length < 2 ^ 64) {hash hash' : SequenceHash} {a b : InsertedBlock}
    (ha : s.lookupMap[hash]? = some a) (hb : s.lookupMap[hash']? = some b)
    (hid : a.id = b.id → a = b) (hlt : compare (keyOf a.toKvBlock) (keyOf b.toKvBlock) = .lt) :
    Precedes log a b := by
  have hle : ∀ id, lastOccurrence log id < 2 ^ 64 := fun id => by
    have := @lastOccurrence_le _ _ log id
    omega
  rcases Ordering.then_eq_lt.mp hlt with hpriority | ⟨hpriority, hrest⟩
  · exact .inl (Std.compare_eq_lt.mp hpriority)
  refine .inr ⟨Std.LawfulEqCmp.eq_of_compare hpriority, ?_⟩
  rcases Ordering.then_eq_lt.mp hrest with htick | ⟨htick, hhash⟩
  · have htick : a.returnTick < b.returnTick := Std.compare_eq_lt.mp htick
    rwa [(htimed.filed hash a ha).2, (htimed.filed hash' b hb).2, UInt64.lt_iff_toNat_lt,
      UInt64.toNat_ofNat', UInt64.toNat_ofNat', Nat.mod_eq_of_lt (hle _),
      Nat.mod_eq_of_lt (hle _)] at htick
  · -- blocks with one tick are the same block
    rw [hid (htimed.id_eq hshort.le ha hb (Std.LawfulEqCmp.eq_of_compare htick))] at hlt
    have hself : compare (keyOf b.toKvBlock) (keyOf b.toKvBlock) = .eq := Std.ReflCmp.compare_self
    rw [hself] at hlt
    cases hlt

/-- **Eviction order.**  After any calls of the pool and its handles `take_blocks` returns the
    first elements of the uninitialized queue followed by the filed blocks.  The queue has
    the latest of all entries into it, oldest first.  As long as fewer than `2 ^ 64` blocks
    came in, the filed blocks are sorted by priority and the time of their last arrival.
    `update_priorities` changes the priorities of filed blocks and nothing else, and taking in
    two steps is taking at once. -/
theorem take_in_eviction_order {setup : Setup} {ops : List Op} {w : World}
    (hrun : (reusePool setup).run ops = some w) :
    (∀ count, (w.pool.takeBlocks count).1 =
      .ok ((w.pool.uninitializedSet ++ w.pool.filed).take count.toNat)) ∧
    w.pool.uninitializedSet.map (·.id) <:+ queueLog setup ops ∧
    w.pool.filed.Perm (w.pool.lookupMap.toList.map (·.2)) ∧
    ((arrivalLog setup ops).length < 2 ^ 64 →
      w.pool.filed.Pairwise (Precedes (arrivalLog setup ops))) ∧
    (∀ updates : List (SequenceHash × UInt32),
      (w.pool.updatePriorities updates).uninitializedSet = w.pool.uninitializedSet ∧
      ∀ hash : SequenceHash, (w.pool.updatePriorities updates).lookupMap[hash]? =
        (w.pool.lookupMap[hash]?).map fun b =>
          { b with priority := AvailableBlocksState.newPriority updates hash b.priority }) ∧
    ∀ m n : UInt32, m.toNat + n.toNat < 2 ^ 32 →
      ∃ a b, (w.pool.takeBlocks m).1 = .ok a ∧ ((w.pool.takeBlocks m).2.takeBlocks n).1 = .ok b ∧
        (w.pool.takeBlocks (m + n)).1 = .ok (a ++ b) := by
  have hreach : (storage setup).Reachable w := .of_run (System.run_of_guarded hrun)
  have hindexed := pool_indexed hreach
  refine ⟨fun count => (takeBlocks_order hindexed count).1, queue_of_run hrun,
    filed_perm hindexed, fun hshort => ?_,
    fun updates => (updatePriorities_spec updates hindexed).2,
    fun m n => takeBlocks_add hindexed⟩
  refine (filed_sorted hindexed).imp_of_mem fun {a b} ha hb hlt => ?_
  obtain ⟨hash, ha⟩ := (mem_filed hindexed).mp ha
  obtain ⟨hash', hb⟩ := (mem_filed hindexed).mp hb
  exact precedes_of_key_lt (timed_of_run hrun) hshort ha hb
    (eq_of_id_eq hreach (mem_parkedBlocks.mpr (.inr ⟨hash, ha⟩))
      (mem_parkedBlocks.mpr (.inr ⟨hash', hb⟩))) hlt

end World

/-- A blank block comes in, and a second one with the hash 5; the blank one is taken out and
    comes back, and the block with hash 7 is reset.  Two blocks with hashes stay filed. -/
def queuedRun : List Op :=
  [.insert (hashed 5), .insert {}, .insert (hashed 5), .takeBlocks 1, .insert (hashed 7),
    .destroy 0, .insert { hashed 9 with priority := 3 }, .reset [7, 7], .updatePriorities [(5, 4)]]

theorem queuedRun_runs : ((reusePool unitSetup).run queuedRun).isSome = true := rfl

/-- The block with hash 9 came in last, but has the lower priority. -/
theorem queuedRun_order :
    ∃ w, (reusePool unitSetup).run queuedRun = some w ∧
      World.queueLog unitSetup queuedRun = [1, 2, 1, 3] ∧
      w.pool.uninitializedSet.map (·.id) = [2, 1, 3] ∧
      w.pool.uninitializedSet.map (·.id) <:+ World.queueLog unitSetup queuedRun ∧
      World.arrivalLog unitSetup queuedRun = [0, 1, 2, 3, 1, 4] ∧
      w.pool.filed.map (·.id) = [4, 0] ∧
      w.pool.filed.Pairwise (World.Precedes (World.arrivalLog unitSetup queuedRun)) := by
  obtain ⟨-, hqueue, -, hsorted, -⟩ :=
    World.take_in_eviction_order (Option.some_get queuedRun_runs).symm
  exact ⟨_, (Option.some_get queuedRun_runs).symm, rfl, by decide, hqueue, rfl, by decide,
    hsorted (by decide)⟩

/-- The tick of the `2 ^ 64`-th arrival is 0: the block that came in last goes first. -/
theorem order_wraps :
    ∃ ops w, (reusePool unitSetup).run ops = some w ∧ w.pool.uninitializedSet = [] ∧
      ∃ moves : InsertedBlock, w.pool.lookupMap[(5 : SequenceHash)]? = some staying ∧
        w.pool.lookupMap[(7 : SequenceHash)]? = some moves ∧
        World.Precedes (World.arrivalLog unitSetup ops) staying moves ∧
        (w.pool.takeBlocks 1).1 = .ok [moves] := by
  obtain ⟨ops, w, hrun, hlog, -, hnone, -, hlookup⟩ := exists_returned (2 ^ 64 - 2)
  have hindexed := World.pool_indexed (.of_run (System.run_of_guarded hrun))
  refine ⟨ops, w, hrun, hnone, returning (2 ^ 64 - 2 + 2), hlookup 5, hlookup 7, .inr ⟨rfl, ?_⟩, ?_⟩
  · have hfirst : ∀ n, lastOccurrence (0 :: List.replicate n 1) 0 = 1 := by
      intro n
      induction n with
      | zero => rfl
      | succ n ih =>
        rw [List.replicate_succ', ← List.cons_append, lastOccurrence_concat_ne (by decide), ih]
    have hlast : ∀ n, lastOccurrence (0 :: List.replicate (n + 1) 1) 1 = n + 2 := by
      intro n
      rw [List.replicate_succ', ← List.cons_append, lastOccurrence_concat_self, List.length_cons,
        List.length_replicate]
    rw [hlog, ← List.replicate_succ]
    show lastOccurrence _ 0 < lastOccurrence _ 1
    rw [hfirst, hlast]
    omega
  · rw [(takeBlocks_order hindexed 1).1]
    unfold evictionOrder
    rw [hnone, List.nil_append]
    have hmem := (mem_filed hindexed).mpr ⟨7, hlookup 7⟩
    have hsorted := filed_sorted hindexed
    have hfiled := fun b => (@mem_filed w.pool b hindexed).mp
    cases horder : w.pool.filed with
    | nil =>
      rw [horder] at hmem
      cases hmem
    | cons b rest =>
      rw [horder] at hmem hsorted hfiled
      obtain ⟨hash, hb⟩ := hfiled b List.mem_cons_self
      rcases List.mem_cons.mp hmem with rfl | hrest
      · rfl
      · -- only the staying block is left, and its key is greater
        have hlt := (List.pairwise_cons.mp hsorted).1 _ hrest
        rw [hlookup] at hb
        split at hb
        · cases hb
          rfl
        · split at hb
          · cases hb
            exact absurd hlt (by decide)
          · cases hb

end DynamoCpp.Llm.Kv
