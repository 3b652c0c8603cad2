import DynamoCpp.Llm.KvRouter.Indexer

/-! # What a radix tree says about each worker

    Of a tree, a query sees the edges between blocks and the workers each block
    carries.  A worker *holds* a sequence of token hashes if the sequence leads
    from the root to a block that carries it, and its score for a query is the
    number of prefixes of the query that it holds.

    * **Views**: edges, carried workers and jump tables, with what each
      operation of the source does to them.
    * **Scores**: `find_matches` counts held prefixes and changes nothing that
      a query sees.
    * **Bounds**: addresses in use lie below the next fresh one.
-/

namespace DynamoCpp.Llm.KvRouter

open Framework OverlapScores EdgeGraph

namespace RadixTree

/-! ## Views -/

/-- The edges between the blocks. -/
def edges (t : RadixTree) : EdgeGraph BlockId LocalBlockHash := fun b h => (t.heap b).children[h]?

/-- Block `b` is attributed to worker `w`. -/
def carries (t : RadixTree) (w : WorkerId) (b : BlockId) : Bool := decide (w ∈ (t.heap b).workers)

/-- The sequence leads from the root to a block attributed to `w`. -/
def held (t : RadixTree) (w : WorkerId) (p : List LocalBlockHash) : Bool :=
  t.edges.marked (t.carries w) root p

/-- The two trees differ at most in what queries recorded. -/
structure SameIndex (t t' : RadixTree) : Prop where
  edges   : t'.edges = t.edges
  carries : t'.carries = t.carries
  lookup  : t'.lookup = t.lookup
  next    : t'.next = t.next

theorem SameIndex.refl (t : RadixTree) : SameIndex t t := ⟨rfl, rfl, rfl, rfl⟩

theorem SameIndex.trans {t₁ t₂ t₃ : RadixTree} (h₁ : SameIndex t₁ t₂) (h₂ : SameIndex t₂ t₃) :
    SameIndex t₁ t₃ where
  edges   := h₂.edges.trans h₁.edges
  carries := h₂.carries.trans h₁.carries
  lookup  := h₂.lookup.trans h₁.lookup
  next    := h₂.next.trans h₁.next

variable {t t' : RadixTree} {w : WorkerId} {current block next : BlockId}
  {d : KvCacheStoredBlockData} {E : EdgeGraph BlockId LocalBlockHash}
  {hash : ExternalSequenceBlockHash}

theorem SameIndex.table (h : SameIndex t t') (w : WorkerId) :
    t'.table w = t.table w := by
  unfold RadixTree.table
  rw [h.lookup]

/-! ## Single updates -/

section updates

variable (t : RadixTree) (b : BlockId) (f : Block → Block)

theorem edges_modify (c : BlockId) (h : LocalBlockHash) :
    (t.modify b f).edges c h = if c = b then (f (t.heap b)).children[h]? else t.edges c h := by
  by_cases hc : c = b
  · subst hc
    simp [edges, modify]
  · simp [edges, modify, hc]

theorem carries_modify (v : WorkerId) (c : BlockId) :
    (t.modify b f).carries v c =
      if c = b then decide (v ∈ (f (t.heap b)).workers) else t.carries v c := by
  by_cases hc : c = b
  · subst hc
    simp [carries, modify]
  · simp [carries, modify, hc]

@[simp] theorem edges_setTable (w : WorkerId) (m : OrdMap ExternalSequenceBlockHash BlockId) :
    (t.setTable w m).edges = t.edges := rfl

@[simp] theorem carries_setTable (w : WorkerId) (m : OrdMap ExternalSequenceBlockHash BlockId) :
    (t.setTable w m).carries = t.carries := rfl

@[simp] theorem table_modify (w : WorkerId) : (t.modify b f).table w = t.table w := rfl

theorem table_setTable (w v : WorkerId) (m : OrdMap ExternalSequenceBlockHash BlockId) :
    (t.setTable w m).table v = if v = w then m else t.table v := by
  rw [table, setTable, OrdMap.get_insert, apply_ite (Option.getD · ∅)]
  rfl

/-- Inserting a missing edge. -/
theorem edges_link (current block : BlockId) (h : LocalBlockHash) :
    (t.modify current fun b => { b with children := b.children.insert h block }).edges =
      t.edges.addEdge current h block := by
  funext c g
  rw [edges_modify, addEdge]
  by_cases hc : c = current
  · subst hc
    by_cases hg : g = h
    · subst hg
      simp
    · simp [edges, OrdMap.get_insert, hg]
  · simp [hc]

theorem carries_link (current block : BlockId) (h : LocalBlockHash) :
    (t.modify current fun b => { b with children := b.children.insert h block }).carries =
      t.carries := by
  funext v c
  rw [carries_modify]
  split
  · next hc => rw [hc, carries]
  · rfl

end updates

theorem touch_sameTables (t : RadixTree) (w v : WorkerId) : (t.touch w).table v = t.table v := by
  unfold touch
  rw [table_setTable]
  split
  · next h => rw [h]
  · rfl

/-! ## The stored loop -/

/-- What `attach` found: the block, the edges and the next address afterwards. -/
inductive Attached (w : WorkerId) (t : RadixTree) (current : BlockId)
    (d : KvCacheStoredBlockData) : BlockId → EdgeGraph BlockId LocalBlockHash → BlockId → Prop
  | existing (b : BlockId) (hedge : t.edges current d.tokensHash = some b) :
      Attached w t current d b t.edges t.next
  | reparent (b : BlockId) (hedge : t.edges current d.tokensHash = none)
      (htable : (t.table w)[d.blockHash]? = some b) :
      Attached w t current d b (t.edges.addEdge current d.tokensHash b) t.next
  | fresh (hedge : t.edges current d.tokensHash = none)
      (htable : (t.table w)[d.blockHash]? = none) :
      Attached w t current d t.next (t.edges.addEdge current d.tokensHash t.next) (t.next + 1)

/-- The three ways to attach: along an edge, or by a new edge to the block that
    the jump table has or to a fresh one. -/
theorem Attached.ways
    (ha : Attached w t current d block E next) :
    (t.edges current d.tokensHash = some block ∧ E = t.edges) ∨
      (t.edges current d.tokensHash = none ∧ E = t.edges.addEdge current d.tokensHash block ∧
        ((t.table w)[d.blockHash]? = some block ∨
          ((t.table w)[d.blockHash]? = none ∧ block = t.next))) := by
  cases ha with
  | existing _ hedge => exact .inl ⟨hedge, rfl⟩
  | reparent _ hedge htable => exact .inr ⟨hedge, rfl, .inl htable⟩
  | fresh hedge htable => exact .inr ⟨hedge, rfl, .inr ⟨htable, rfl⟩⟩

/-- The only new edge leads from the current block to the attached one. -/
theorem Attached.edges_le
    (ha : Attached w t current d block E next) {n m : BlockId} {x : LocalBlockHash}
    (he : E n x = some m) : t.edges n x = some m ∨ (n = current ∧ m = block) := by
  rcases ha.ways with ⟨-, hE⟩ | ⟨-, hE, -⟩
  · exact .inl (hE ▸ he)
  · rw [hE] at he
    unfold addEdge at he
    split at he
    · next heq =>
      cases he
      exact .inr ⟨heq.1, rfl⟩
    · exact .inl he

theorem attach_attached (w : WorkerId) (t : RadixTree) (current : BlockId)
    (d : KvCacheStoredBlockData) :
    Attached w t current d (attach w t current d).2 (attach w t current d).1.edges
      (attach w t current d).1.next := by
  unfold attach
  split
  · next block hedge => exact .existing block hedge
  · next hedge =>
    split
    · next block htable =>
      rw [edges_link]
      exact .reparent block hedge htable
    · next htable =>
      rw [edges_link]
      exact .fresh hedge htable

theorem attach_frame (w : WorkerId) (t : RadixTree) (current : BlockId)
    (d : KvCacheStoredBlockData) :
    (attach w t current d).1.carries = t.carries ∧ (attach w t current d).1.lookup = t.lookup := by
  unfold attach
  split
  · exact ⟨rfl, rfl⟩
  · split <;> exact ⟨carries_link _ _ _ _, rfl⟩

/-- One turn of the stored loop on the views. -/
structure Stores (w : WorkerId) (t : RadixTree) (current : BlockId) (d : KvCacheStoredBlockData)
    (t' : RadixTree) (block : BlockId) : Prop where
  attached : Attached w t current d block t'.edges t'.next
  carries  : ∀ v b, t'.carries v b = true ↔ (v = w ∧ b = block) ∨ t.carries v b = true
  table    : ∀ v, t'.table v = if v = w then (t.table w).insert d.blockHash block else t.table v

theorem storeBlock_stores (w : WorkerId) (t : RadixTree) (current : BlockId)
    (d : KvCacheStoredBlockData) :
    Stores w t current d (storeBlock w (t, current) d).1 (storeBlock w (t, current) d).2 := by
  obtain ⟨hcarries, hlookup⟩ := attach_frame w t current d
  have htable : ∀ v, (attach w t current d).1.table v = t.table v := by
    intro v
    unfold table
    rw [hlookup]
  constructor
  · have hedges : (storeBlock w (t, current) d).1.edges = (attach w t current d).1.edges := by
      funext c h
      simp only [storeBlock, edges_setTable, edges_modify]
      split
      · next hc => rw [hc, edges]
      · rfl
    rw [hedges]
    exact attach_attached w t current d
  · intro v b
    rw [← hcarries]
    simp only [storeBlock, carries_setTable, carries_modify]
    split
    · next hb =>
      rw [hb]
      simp only [carries, decide_eq_true_eq, OrdSet.mem_insert]
      tauto
    · tauto
  · intro v
    simp only [storeBlock, table_setTable, table_modify, htable]

/-- Invariant rule for the stored branch: `I` is kept by the loop together with
    its current block. -/
theorem applyStored_invariant {I : RadixTree → BlockId → Prop} (w : WorkerId)
    (op : KvCacheStoreData)
    (hstart : ∀ current, t.parentBlock w op = some current → I t current)
    (hstep : ∀ t current d t' block, d ∈ op.blocks → I t current →
      Stores w t current d t' block → I t' block) :
    applyStored w t op = t ∨ ∃ current, I (applyStored w t op) current := by
  unfold applyStored
  split
  · exact .inl rfl
  · next current hparent =>
    have hloop : ∀ ds : List KvCacheStoredBlockData, (∀ d ∈ ds, d ∈ op.blocks) →
        ∀ t current, I t current →
        I (ds.foldl (storeBlock w) (t, current)).1 (ds.foldl (storeBlock w) (t, current)).2 := by
      intro ds
      induction ds with
      | nil => exact fun _ _ _ h => h
      | cons d ds ih =>
        intro hds t current h
        refine ih (fun d' hd' => hds d' (List.mem_cons_of_mem _ hd')) _ _ ?_
        exact hstep t current d _ _ (hds d List.mem_cons_self) h (storeBlock_stores w t current d)
    exact .inr ⟨_, hloop op.blocks (fun _ h => h) t current (hstart current hparent)⟩

/-! ## The removed loop -/

/-- No other worker is on the block. -/
def onlyCarries (t : RadixTree) (w : WorkerId) (b : BlockId) : Prop :=
  ∀ v, t.carries v b = true → v = w

/-- One turn of the removed loop on the views, for a known hash. -/
structure Removes (w : WorkerId) (t : RadixTree) (hash : ExternalSequenceBlockHash)
    (block : BlockId) (t' : RadixTree) : Prop where
  kept    : ¬ t.onlyCarries w block → t'.edges = t.edges
  cleared : t.onlyCarries w block → t'.edges = t.edges.clear block
  carries : ∀ v b, t'.carries v b = true ↔ t.carries v b = true ∧ ¬ (v = w ∧ b = block)
  table   : ∀ v, t'.table v = if v = w then (t.table w).erase hash else t.table v
  next    : t'.next = t.next

theorem isEmpty_erase_iff (t : RadixTree) (w : WorkerId) (b : BlockId) :
    ((t.heap b).workers.erase w).isEmpty = true ↔ t.onlyCarries w b := by
  rw [Std.ExtTreeSet.isEmpty_iff, Std.ExtTreeSet.eq_empty_iff_forall_not_mem]
  simp only [OrdSet.mem_erase, onlyCarries, carries, decide_eq_true_eq, not_and]
  exact forall_congr' fun v => not_imp_not

theorem removeHash_unknown
    (h : (t.table w)[hash]? = none) : removeHash w t hash = t := by
  simp [removeHash, h]

theorem removeHash_removes (h : (t.table w)[hash]? = some block) :
    Removes w t hash block (removeHash w t hash) := by
  have hempty := t.isEmpty_erase_iff w block
  constructor
  · intro hother
    have hne : ((t.heap block).workers.erase w).isEmpty = false := by
      rw [← Bool.not_eq_true]
      exact fun e => hother (hempty.mp e)
    funext c g
    simp only [removeHash, h, edges_setTable, edges_modify, hne]
    split
    · next hc => simp [hc, edges]
    · rfl
  · intro honly
    have hyes := hempty.mpr honly
    funext c g
    simp only [removeHash, h, edges_setTable, edges_modify, clear]
    split
    · simp
    · rfl
  · intro v b
    simp only [removeHash, h, carries_setTable, carries_modify]
    split
    · next hb =>
      rw [hb]
      simp only [carries, decide_eq_true_eq, OrdSet.mem_erase, and_true]
      exact and_comm
    · next hb => simp [hb]
  · intro v
    simp only [removeHash, h, table_setTable, table_modify]
  · simp only [removeHash, h]
    rfl

/-- Invariant rule for the removed branch. -/
theorem removeHashes_invariant {I : RadixTree → Prop}
    (hstep : ∀ t hash block t', I t → (t.table w)[hash]? = some block →
      Removes w t hash block t' → I t') (hashes : List ExternalSequenceBlockHash)
    (h : I t) : I (hashes.foldl (removeHash w) t) := by
  induction hashes generalizing t with
  | nil => exact h
  | cons hash hashes ih =>
    cases hhash : (t.table w)[hash]? with
    | none =>
      rw [List.foldl_cons, removeHash_unknown hhash]
      exact ih h
    | some block => exact ih (hstep t hash block _ h hhash (removeHash_removes hhash))

/-! ## Removing a worker -/

theorem eraseAll_views (w : WorkerId) (entries : List (ExternalSequenceBlockHash × BlockId)) :
    ∀ t : RadixTree,
      let t' := entries.foldl
        (fun t entry => t.modify entry.2 fun b => { b with workers := b.workers.erase w }) t
      t'.edges = t.edges ∧ t'.lookup = t.lookup ∧ t'.next = t.next ∧
        ∀ v b, t'.carries v b = true ↔
          t.carries v b = true ∧ ¬ (v = w ∧ ∃ hash, (hash, b) ∈ entries) := by
  induction entries with
  | nil =>
    intro t
    simp
  | cons entry entries ih =>
    intro t
    obtain ⟨hedges, hlookup, hnext, hcarries⟩ := ih
      (t.modify entry.2 fun b => { b with workers := b.workers.erase w })
    refine ⟨?_, hlookup, hnext, ?_⟩
    · refine hedges.trans ?_
      funext c g
      rw [edges_modify]
      split
      · next hc => rw [hc, edges]
      · rfl
    · intro v b
      refine (hcarries v b).trans ?_
      rw [carries_modify]
      by_cases hb : b = entry.2
      · subst hb
        simp only [carries, decide_eq_true_eq, if_true, OrdSet.mem_erase, List.mem_cons]
        constructor
        · rintro ⟨⟨hne, hv⟩, -⟩
          exact ⟨hv, fun e => hne e.1⟩
        · rintro ⟨hv, hnot⟩
          refine ⟨⟨fun e => hnot ⟨e, entry.1, .inl rfl⟩, hv⟩, ?_⟩
          rintro ⟨hvw, hash, hmem⟩
          exact hnot ⟨hvw, hash, .inr hmem⟩
      · have hcons : ∀ hash, (hash, b) ∈ entry :: entries ↔ (hash, b) ∈ entries := by
          intro hash
          rw [List.mem_cons]
          constructor
          · rintro (heq | hmem)
            · exact absurd (congrArg Prod.snd heq) hb
            · exact hmem
          · exact .inr
        simp only [hb, if_false, hcons]

/-- What `remove_worker` does on the views. -/
structure Evicts (w : WorkerId) (t t' : RadixTree) : Prop where
  edges   : t'.edges = t.edges
  carries : ∀ v b, t'.carries v b = true ↔
    t.carries v b = true ∧
      ¬ (v = w ∧ ∃ hash : ExternalSequenceBlockHash, (t.table w)[hash]? = some b)
  table   : ∀ v, t'.table v = if v = w then ∅ else t.table v
  next    : t'.next = t.next

theorem removeWorker_evicts (t : RadixTree) (w : WorkerId) : Evicts w t (t.removeWorker w) := by
  unfold removeWorker
  split
  · next hnone =>
    have htable : t.table w = ∅ := by simp [table, hnone]
    constructor
    · rfl
    · intro v b
      simp [htable]
    · intro v
      split
      · next hv => rw [hv, htable]
      · rfl
    · rfl
  · next blocks hsome =>
    have htable : t.table w = blocks := by simp [table, hsome]
    obtain ⟨hedges, hlookup, hnext, hcarries⟩ := eraseAll_views w blocks.toList t
    constructor
    · exact hedges
    · intro v b
      simp only [Std.ExtTreeMap.mem_toList_iff_getElem?_eq_some] at hcarries
      rw [htable]
      exact hcarries v b
    · intro v
      simp only [table, hlookup, OrdMap.get_erase]
      split <;> rfl
    · exact hnext

/-! ## Scores -/

theorem score_increment (s : OverlapScores) (w v : WorkerId) :
    (s.increment w).score v = s.score v + if v = w then 1 else 0 := by
  by_cases hv : v = w
  · subst hv
    simp [increment, score]
  · simp [increment, score, OrdMap.get_insert, hv]

theorem score_incrementAll (ws : List WorkerId) (hnodup : ws.Nodup) (v : WorkerId) :
    ∀ s : OverlapScores,
      (ws.foldl increment s).score v = s.score v + if v ∈ ws then 1 else 0 := by
  induction ws with
  | nil => simp
  | cons w ws ih =>
    intro s
    obtain ⟨hnot, hrest⟩ := List.nodup_cons.mp hnodup
    rw [List.foldl_cons, ih hrest, score_increment]
    by_cases hv : v = w
    · subst hv
      simp [hnot]
    · simp [hv]

theorem trackUse_sameIndex (t : RadixTree) (now : Int) (b : BlockId) (s : OverlapScores) :
    SameIndex t (t.trackUse now b s).2 ∧ ∀ w, (t.trackUse now b s).1.score w = s.score w := by
  unfold trackUse
  split
  · exact ⟨.refl t, fun _ => rfl⟩
  · refine ⟨⟨?_, ?_, rfl, rfl⟩, fun _ => rfl⟩
    · funext c h
      rw [edges_modify]
      split
      · next hc => rw [hc, edges]
      · rfl
    · funext v c
      rw [carries_modify]
      split
      · next hc => rw [hc, carries]
      · rfl

/-- Queries leave the index as it is. -/
theorem findMatchesFrom_sameIndex (now : Int) (earlyExit : Bool) (p : List LocalBlockHash) :
    ∀ (t : RadixTree) (current : BlockId) (s : OverlapScores),
      SameIndex t (findMatchesFrom now earlyExit t current p s).2 := by
  induction p with
  | nil =>
    intro t current s
    exact .refl t
  | cons h p ih =>
    intro t current s
    simp only [findMatchesFrom]
    split
    · exact .refl t
    · next block _ =>
      have hsame := (t.trackUse_sameIndex now block
        ((t.heap block).workers.toList.foldl increment s)).1
      split
      · exact hsame
      · exact hsame.trans (ih _ _ _)

/-- The loop adds one for every block it matches that carries the worker. -/
theorem score_findMatchesFrom (now : Int) (w : WorkerId) (p : List LocalBlockHash) :
    ∀ (t : RadixTree) (current : BlockId) (s : OverlapScores),
      (findMatchesFrom now false t current p s).1.score w =
        s.score w + UInt32.ofNat (t.edges.visits (t.carries w) current p) := by
  induction p with
  | nil =>
    intro t current s
    simp [findMatchesFrom, visits]
  | cons h p ih =>
    intro t current s
    cases hedge : t.edges current h with
    | none =>
      have hchild : (t.heap current).children[h]? = none := hedge
      simp [findMatchesFrom, visits, hedge, hchild]
    | some block =>
      have hchild : (t.heap current).children[h]? = some block := hedge
      have hnodup : (t.heap block).workers.toList.Nodup := by
        refine (Std.ExtTreeSet.distinct_toList (t := (t.heap block).workers)).imp ?_
        intro a b hab heq
        exact hab (by rw [heq]; exact Std.ReflCmp.compare_self)
      obtain ⟨hsame, hscore⟩ := t.trackUse_sameIndex now block
        ((t.heap block).workers.toList.foldl increment s)
      simp only [findMatchesFrom, hchild, Bool.false_and, Bool.false_eq_true, if_false, ih,
        hsame.edges, hsame.carries, hscore, score_incrementAll _ hnodup, visits, hedge,
        UInt32.ofNat_add, Std.ExtTreeSet.mem_toList, carries]
      by_cases hw : w ∈ (t.heap block).workers <;> simp [hw, UInt32.add_assoc]

/-- The score is the number of held prefixes, as a 32-bit number. -/
theorem score_findMatches (t : RadixTree) (now : Int) (p : List LocalBlockHash) (w : WorkerId) :
    (t.findMatches now p false).1.score w =
      UInt32.ofNat (t.edges.visits (t.carries w) root p) := by
  have hzero : score {} w = 0 := by simp [score]
  unfold findMatches
  rw [score_findMatchesFrom, hzero, UInt32.zero_add]

/-- A query that may stop early is one of a part of the sequence. -/
theorem findMatchesFrom_earlyExit (now : Int) (earlyExit : Bool) (p : List LocalBlockHash) :
    ∀ (t : RadixTree) (current : BlockId) (s : OverlapScores), ∃ k,
      findMatchesFrom now earlyExit t current p s =
        findMatchesFrom now false t current (p.take k) s := by
  induction p with
  | nil => exact fun _ _ _ => ⟨0, rfl⟩
  | cons h p ih =>
    intro t current s
    simp only [findMatchesFrom]
    split
    · next hchild => exact ⟨0, rfl⟩
    · next block hchild =>
      split
      · -- the loop stops at this block
        exact ⟨1, by simp [findMatchesFrom, hchild]⟩
      · obtain ⟨k, hk⟩ := ih (t.trackUse now block _).2 block (t.trackUse now block
          ((t.heap block).workers.toList.foldl increment s)).1
        rw [hk]
        exact ⟨k + 1, by simp [findMatchesFrom, hchild]⟩

/-- All scores of `w` agree in two trees iff it holds the same sequences in both. -/
theorem scores_eq_iff (t t' : RadixTree) (w : WorkerId) :
    (∀ now p, (t'.findMatches now p false).1.score w = (t.findMatches now p false).1.score w) ↔
      ∀ p, p ≠ [] → t'.held w p = t.held w p := by
  simp only [score_findMatches]
  exact ⟨fun h => visits_eq_iff.mp (h 0), fun h _ => visits_eq_iff.mpr h⟩

/-! ## Bounds -/

/-- Every address in use lies below the next fresh one. -/
structure Bounded (t : RadixTree) : Prop where
  start   : root < t.next
  edge    : ∀ {b h c}, t.edges b h = some c → b < t.next ∧ c < t.next
  carried : ∀ {w b}, t.carries w b = true → b < t.next
  table   : ∀ {w} {hash : ExternalSequenceBlockHash} {b : BlockId},
    (t.table w)[hash]? = some b → b < t.next

theorem bounded_init (expirationDuration : Option Int) :
    Bounded { expirationDuration := expirationDuration } where
  start   := Nat.zero_lt_one
  edge    := by simp [edges]
  carried := by simp [carries]
  table   := by simp [RadixTree.table]

theorem Bounded.sameIndex (h : Bounded t) (hs : SameIndex t t') :
    Bounded t' where
  start   := hs.next ▸ h.start
  edge    := by
    rw [hs.edges, hs.next]
    exact h.edge
  carried := by
    rw [hs.carries, hs.next]
    exact h.carried
  table   := by
    intro w
    rw [hs.table w, hs.next]
    exact h.table

/-- What the root leads to is in use. -/
theorem Bounded.walk_lt (h : Bounded t) {p : List LocalBlockHash} {b : BlockId}
    (hp : t.edges.walk root p = some b) : b < t.next :=
  EdgeGraph.Reaches.mem_of_closed (C := {b | b < t.next}) (fun _ _ _ _ he => (h.edge he).2)
    h.start ⟨p, hp⟩

/-- New edges lead between addresses in use. -/
theorem Attached.bounds
    (ha : Attached w t current d block E next) (h : Bounded t) (hcurrent : current < t.next) :
    t.next ≤ next ∧ block < next ∧ ∀ b g c, E b g = some c → b < next ∧ c < next := by
  have hblock : t.next ≤ next ∧ block < next := by
    cases ha with
    | existing _ hedge => exact ⟨Nat.le_refl _, (h.edge hedge).2⟩
    | reparent _ _ htable => exact ⟨Nat.le_refl _, h.table htable⟩
    | fresh _ _ => exact ⟨Nat.le_succ _, Nat.lt_succ_self _⟩
  refine ⟨hblock.1, hblock.2, ?_⟩
  intro b g c hedge
  rcases ha.edges_le hedge with hold | ⟨rfl, rfl⟩
  · obtain ⟨hb, hc⟩ := h.edge hold
    exact ⟨Nat.lt_of_lt_of_le hb hblock.1, Nat.lt_of_lt_of_le hc hblock.1⟩
  · exact ⟨Nat.lt_of_lt_of_le hcurrent hblock.1, hblock.2⟩

theorem Stores.bounded (hs : Stores w t current d t' block) (h : Bounded t)
    (hcurrent : current < t.next) : Bounded t' ∧ block < t'.next := by
  obtain ⟨hle, hblock, hedges⟩ := hs.attached.bounds h hcurrent
  refine ⟨⟨Nat.lt_of_lt_of_le h.start hle, fun hedge => hedges _ _ _ hedge, ?_, ?_⟩, hblock⟩
  · intro v b hv
    rcases (hs.carries v b).mp hv with ⟨-, rfl⟩ | hv
    · exact hblock
    · exact Nat.lt_of_lt_of_le (h.carried hv) hle
  · intro v hash b hb
    rw [hs.table] at hb
    split at hb
    · rcases OrdMap.get_of_insert hb with ⟨-, rfl⟩ | hb
      · exact hblock
      · exact Nat.lt_of_lt_of_le (h.table hb) hle
    · exact Nat.lt_of_lt_of_le (h.table hb) hle

theorem Removes.bounded (hr : Removes w t hash block t') (h : Bounded t) : Bounded t' := by
  constructor
  · rw [hr.next]
    exact h.start
  · intro b g c hedge
    rw [hr.next]
    by_cases honly : t.onlyCarries w block
    · rw [hr.cleared honly] at hedge
      exact h.edge (clear_le b g c hedge)
    · rw [hr.kept honly] at hedge
      exact h.edge hedge
  · intro v b hv
    rw [hr.next]
    exact h.carried ((hr.carries v b).mp hv).1
  · intro v g b hb
    rw [hr.next]
    rw [hr.table] at hb
    split at hb
    · exact h.table (OrdMap.get_of_erase hb).2
    · exact h.table hb

theorem Evicts.bounded (he : Evicts w t t') (h : Bounded t) :
    Bounded t' := by
  constructor
  · rw [he.next]
    exact h.start
  · rw [he.edges, he.next]
    exact h.edge
  · intro v b hv
    rw [he.next]
    exact h.carried ((he.carries v b).mp hv).1
  · intro v g b hb
    rw [he.next]
    rw [he.table] at hb
    split at hb
    · simp at hb
    · exact h.table hb

theorem Bounded.touch (h : Bounded t) (w : WorkerId) : Bounded (t.touch w) where
  start   := h.start
  edge    := h.edge
  carried := h.carried
  table   := by
    intro v
    rw [touch_sameTables]
    exact h.table

theorem Bounded.parentBlock (h : Bounded t)
    {op : KvCacheStoreData} (hp : t.parentBlock w op = some current) :
    current < t.next := by
  unfold RadixTree.parentBlock at hp
  split at hp
  · cases hp
    exact h.start
  · exact h.table hp

theorem Bounded.applyEvent (h : Bounded t) (e : RouterEvent) :
    Bounded (t.applyEvent e) := by
  have htouch := h.touch e.workerId
  unfold RadixTree.applyEvent
  split
  · next op _ =>
    -- the loop keeps its current block among the addresses in use
    have hloop := applyStored_invariant (I := fun t current => Bounded t ∧ current < t.next)
      e.workerId op (fun current hparent => ⟨htouch, htouch.parentBlock hparent⟩)
      (fun t current d t' block _ hr hs => hs.bounded hr.1 hr.2)
    rcases hloop with hskip | ⟨-, hbounded, -⟩
    · rwa [hskip]
    · exact hbounded
  · exact removeHashes_invariant (fun t hash block t' ht _ hr => hr.bounded ht) _ htouch

theorem Bounded.apply (h : Bounded t) (op : Op) : Bounded (t.apply op) := by
  cases op with
  | applyEvent e => exact h.applyEvent e
  | removeWorker w => exact (t.removeWorker_evicts w).bounded h
  | findMatches now p earlyExit =>
    exact h.sameIndex (findMatchesFrom_sameIndex now earlyExit p t _ _)

/-- In every tree an indexer reaches, the addresses in use are bounded. -/
theorem bounded_of_reachable {expirationDuration : Option Int}
    (h : (indexer expirationDuration).Reachable t) : Bounded t :=
  h.invariant (bounded_init expirationDuration)
    fun _ op _ ht hexec => Option.some.inj hexec ▸ ht.apply op

end RadixTree

end DynamoCpp.Llm.KvRouter
