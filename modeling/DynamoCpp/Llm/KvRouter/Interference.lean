import DynamoCpp.Llm.KvRouter.Held

/-! # When an event of one worker changes another worker's scores

    Blocks and edges are shared, so an event of one worker can change what
    another one holds.  There are two ways.  A stored block that takes the
    re-parent branch hangs a block, with everything below it, under a second
    path.  A removal that empties a block drops the edges below it.  Either
    matters only if the place is reachable from the root and some block of
    another worker lies below.

    Within one event these effects never cancel: a stored event only adds to
    what the others hold, a removed event only takes away.  So an event leaves
    the scores of all other workers alone exactly when none of its turns
    leaks, and `remove_worker` always does.
-/

namespace DynamoCpp.Llm.KvRouter

open Framework EdgeGraph

namespace RadixTree

/-- A block of a worker other than `w` lies at or below `b`. -/
def reachesOther (t : RadixTree) (w : WorkerId) (b : BlockId) : Prop :=
  ∃ v, v ≠ w ∧ ∃ n, t.edges.Reaches b n ∧ t.carries v n = true

/-- The turn of the stored loop takes the re-parent branch, below the root, for a
    block with another worker's block at or below it. -/
def storeLeak (w : WorkerId) (t : RadixTree) (current : BlockId) (d : KvCacheStoredBlockData) :
    Prop :=
  t.edges current d.tokensHash = none ∧ t.edges.Reaches root current ∧
    ∃ b, (t.table w)[d.blockHash]? = some b ∧ t.reachesOther w b

/-- The turn of the removed loop empties a block below the root with another
    worker's block below it. -/
def removeLeak (w : WorkerId) (t : RadixTree) (hash : ExternalSequenceBlockHash) : Prop :=
  ∃ b, (t.table w)[hash]? = some b ∧ t.onlyCarries w b ∧ t.edges.Reaches root b ∧
    t.reachesOther w b

/-- Some turn of the stored loop leaks. -/
def storeLeaks (w : WorkerId) : RadixTree → BlockId → List KvCacheStoredBlockData → Prop
  | _, _, [] => False
  | t, current, d :: ds =>
    storeLeak w t current d ∨
      storeLeaks w (storeBlock w (t, current) d).1 (storeBlock w (t, current) d).2 ds

/-- Some turn of the removed loop leaks. -/
def removeLeaks (w : WorkerId) : RadixTree → List ExternalSequenceBlockHash → Prop
  | _, [] => False
  | t, hash :: hashes => removeLeak w t hash ∨ removeLeaks w (removeHash w t hash) hashes

/-- Some turn of the event's loop leaks. -/
def leaks (t : RadixTree) (e : RouterEvent) : Prop :=
  match e.data with
  | .stored op =>
    ∃ current, (t.touch e.workerId).parentBlock e.workerId op = some current ∧
      storeLeaks e.workerId (t.touch e.workerId) current op.blocks
  | .removed op => removeLeaks e.workerId (t.touch e.workerId) op.blockHashes

/-! ## What the others hold -/

/-- In `t'` the workers other than `w` hold at least what they hold in `t`. -/
def GrowsFor (w : WorkerId) (t t' : RadixTree) : Prop :=
  ∀ v, v ≠ w → ∀ p, t.held v p = true → t'.held v p = true

/-- The workers other than `w` hold the same in both trees. -/
def SameFor (w : WorkerId) (t t' : RadixTree) : Prop :=
  ∀ v, v ≠ w → ∀ p, t'.held v p = t.held v p

section relations

variable {w : WorkerId} {t t' t₁ t₂ t₃ : RadixTree}

theorem sameFor_iff : SameFor w t t' ↔ GrowsFor w t t' ∧ GrowsFor w t' t := by
  constructor
  · intro h
    refine ⟨?_, ?_⟩
    · intro v hv p hp
      rw [h v hv p]
      exact hp
    · intro v hv p hp
      rw [← h v hv p]
      exact hp
  · intro h v hv p
    rw [Bool.eq_iff_iff]
    exact ⟨h.2 v hv p, h.1 v hv p⟩

theorem GrowsFor.refl (w : WorkerId) (t : RadixTree) : GrowsFor w t t := fun _ _ _ h => h

theorem GrowsFor.trans (h₁ : GrowsFor w t₁ t₂) (h₂ : GrowsFor w t₂ t₃) : GrowsFor w t₁ t₃ :=
  fun v hv p h => h₂ v hv p (h₁ v hv p h)

/-- Growth in two steps is none at all iff each step is. -/
theorem GrowsFor.sameFor_trans_iff (h₁ : GrowsFor w t₁ t₂) (h₂ : GrowsFor w t₂ t₃) :
    SameFor w t₁ t₃ ↔ SameFor w t₁ t₂ ∧ SameFor w t₂ t₃ := by
  simp only [sameFor_iff]
  constructor
  · intro h
    exact ⟨⟨h₁, h₂.trans h.2⟩, h₂, h.2.trans h₁⟩
  · intro h
    exact ⟨h₁.trans h₂, h.2.2.trans h.1.2⟩

theorem sameFor_comm : SameFor w t t' ↔ SameFor w t' t := by
  rw [sameFor_iff, sameFor_iff, and_comm]

/-- The empty sequence is held by the workers on the root. -/
theorem held_nil (t : RadixTree) (v : WorkerId) : t.held v [] = t.carries v root := rfl

theorem held_iff {v : WorkerId} {p : List LocalBlockHash} :
    t.held v p = true ↔ ∃ n, t.edges.walk root p = some n ∧ t.carries v n = true :=
  marked_iff

/-- More edges mean more held sequences. -/
theorem growsFor_of_le (hle : ∀ n x m, t.edges n x = some m → t'.edges n x = some m)
    (hcarries : ∀ v, v ≠ w → t'.carries v = t.carries v) : GrowsFor w t t' := by
  intro v hv p hp
  obtain ⟨n, hwalk, hn⟩ := held_iff.mp hp
  refine held_iff.mpr ⟨n, walk_mono hle hwalk, ?_⟩
  rw [hcarries v hv]
  exact hn

/-- What is held with one more edge was held, or lies beyond the edge. -/
theorem held_addEdge {a b : BlockId} {x : LocalBlockHash} {v : WorkerId} {p : List LocalBlockHash}
    (hE : t'.edges = t.edges.addEdge a x b) (hcarries : t'.carries v = t.carries v)
    (hp : t'.held v p = true) :
    t.held v p = true ∨
      (t.edges.Reaches root a ∧ ∃ n, t.edges.Reaches b n ∧ t.carries v n = true) := by
  obtain ⟨n, hwalk, hn⟩ := held_iff.mp hp
  rw [hcarries] at hn
  rw [hE] at hwalk
  rcases walk_addEdge hwalk with hold | ⟨hroot, hreach⟩
  · exact .inl (held_iff.mpr ⟨n, hold, hn⟩)
  · exact .inr ⟨hroot, n, hreach, hn⟩

/-- Scores see exactly what the others hold, if no other worker gains the root. -/
theorem sameFor_iff_scores (hcarries : ∀ v, v ≠ w → t'.carries v = t.carries v) :
    SameFor w t t' ↔ ∀ v, v ≠ w → ∀ now p,
      (t'.findMatches now p false).1.score v = (t.findMatches now p false).1.score v := by
  constructor
  · intro h v hv
    exact (scores_eq_iff t t' v).mpr fun p _ => h v hv p
  · intro h v hv p
    by_cases hp : p = []
    · rw [hp, held_nil, held_nil, hcarries v hv]
    · exact (scores_eq_iff t t' v).mp (h v hv) p hp

end relations

/-! ## One turn of a loop -/

section turns

variable {w : WorkerId} {t t' : RadixTree}

theorem Stores.carries_other {current block : BlockId} {d : KvCacheStoredBlockData}
    (hs : Stores w t current d t' block) {v : WorkerId} (hv : v ≠ w) :
    t'.carries v = t.carries v := by
  funext b
  rw [Bool.eq_iff_iff, hs.carries]
  simp [hv]

/-- A turn of the stored loop adds to what the others hold, and adds something
    exactly when it leaks. -/
theorem Stores.grows {current block : BlockId} {d : KvCacheStoredBlockData}
    (hs : Stores w t current d t' block) (hb : Bounded t) :
    GrowsFor w t t' ∧ (SameFor w t t' ↔ ¬ storeLeak w t current d) := by
  have hcarries : ∀ v, v ≠ w → t'.carries v = t.carries v := fun v hv => hs.carries_other hv
  rcases hs.attached.ways with ⟨hedge, hE⟩ | ⟨hedge, hE, htable | ⟨htable, rfl⟩⟩
  · have hsame : SameFor w t t' := by
      intro v hv p
      unfold held
      rw [hE, hcarries v hv]
    refine ⟨(sameFor_iff.mp hsame).1, iff_of_true hsame ?_⟩
    intro hleak
    rw [hleak.1] at hedge
    cases hedge
  · have hgrows : GrowsFor w t t' :=
      growsFor_of_le (by rw [hE]; exact le_addEdge hedge) hcarries
    refine ⟨hgrows, ?_, ?_⟩
    · -- a leak opens a path to a block of another worker
      intro hsame hleak
      obtain ⟨-, hroot, b, hb', v, hv, n, hreach, hcarry⟩ := hleak
      rw [htable] at hb'
      cases hb'
      obtain ⟨p, -, hnone, hsome⟩ := exists_walk_addEdge hedge hroot hreach
      have hheld : t'.held v p = true :=
        held_iff.mpr ⟨n, hE ▸ hsome, by rw [hcarries v hv]; exact hcarry⟩
      rw [hsame v hv p, held_iff] at hheld
      obtain ⟨m, hm, -⟩ := hheld
      rw [hnone] at hm
      cases hm
    · intro hleak
      refine sameFor_iff.mpr ⟨hgrows, ?_⟩
      intro v hv p hp
      rcases held_addEdge hE (hcarries v hv) hp with hold | ⟨hroot, n, hreach, hn⟩
      · exact hold
      · exact absurd ⟨hedge, hroot, _, htable, v, hv, n, hreach, hn⟩ hleak
  · have hgrows : GrowsFor w t t' :=
      growsFor_of_le (by rw [hE]; exact le_addEdge hedge) hcarries
    have hsame : SameFor w t t' := by
      refine sameFor_iff.mpr ⟨hgrows, ?_⟩
      intro v hv p hp
      rcases held_addEdge hE (hcarries v hv) hp with hold | ⟨-, n, hreach, hn⟩
      · exact hold
      · -- nothing but the fresh block lies below it, and it is on nobody yet
        have hfresh : n = t.next :=
          EdgeGraph.Reaches.mem_of_closed (C := {n | n = t.next})
            (fun m hm y c hc => absurd (hb.edge (hm ▸ hc)).1 (Nat.lt_irrefl _)) rfl hreach
        exact absurd (hb.carried (hfresh ▸ hn)) (Nat.lt_irrefl _)
    refine ⟨hgrows, iff_of_true hsame ?_⟩
    intro hleak
    obtain ⟨-, -, b, hb', -⟩ := hleak
    rw [htable] at hb'
    cases hb'

theorem Removes.carries_other {hash : ExternalSequenceBlockHash} {block : BlockId}
    (hr : Removes w t hash block t') {v : WorkerId} (hv : v ≠ w) :
    t'.carries v = t.carries v := by
  funext b
  rw [Bool.eq_iff_iff, hr.carries]
  simp [hv]

/-- A turn of the removed loop takes from what the others hold, and takes
    something exactly when it leaks. -/
theorem Removes.shrinks {hash : ExternalSequenceBlockHash} {block : BlockId}
    (hr : Removes w t hash block t') (htable : (t.table w)[hash]? = some block) :
    GrowsFor w t' t ∧ (SameFor w t' t ↔ ¬ removeLeak w t hash) := by
  have hcarries : ∀ v, v ≠ w → t'.carries v = t.carries v := fun v hv => hr.carries_other hv
  by_cases honly : t.onlyCarries w block
  · have hE := hr.cleared honly
    have hshrinks : GrowsFor w t' t :=
      growsFor_of_le (by rw [hE]; exact clear_le) fun v hv => (hcarries v hv).symm
    refine ⟨hshrinks, ?_, ?_⟩
    · intro hsame hleak
      obtain ⟨b, hb, -, hroot, v, hv, n, ⟨q, hq⟩, hcarry⟩ := hleak
      rw [htable] at hb
      cases hb
      -- the block itself carries only `w`, so the other one lies strictly below
      cases q with
      | nil =>
        cases hq
        exact hv (honly v hcarry)
      | cons y q =>
        obtain ⟨m, hm, hrest⟩ := Option.bind_eq_some_iff.mp hq
        obtain ⟨p, -, hsome, hnone⟩ := exists_walk_clear hroot hm ⟨q, hrest⟩
        have hheld : t.held v p = true := held_iff.mpr ⟨n, hsome, hcarry⟩
        rw [hsame v hv p, held_iff] at hheld
        obtain ⟨c, hc, -⟩ := hheld
        rw [hE, hnone] at hc
        cases hc
    · intro hleak
      refine sameFor_iff.mpr ⟨hshrinks, ?_⟩
      intro v hv p hp
      obtain ⟨n, hwalk, hn⟩ := held_iff.mp hp
      rcases walk_clear (a := block) hwalk with hstay | ⟨hroot, y, m, hm, hreach⟩
      · exact held_iff.mpr ⟨n, hE ▸ hstay, by rw [hcarries v hv]; exact hn⟩
      · exact absurd ⟨block, htable, honly, hroot, v, hv, n, .cons hm hreach, hn⟩ hleak
  · have hsame : SameFor w t' t := by
      intro v hv p
      unfold held
      rw [hr.kept honly, hcarries v hv]
    refine ⟨(sameFor_iff.mp hsame).1, iff_of_true hsame ?_⟩
    intro hleak
    obtain ⟨b, hb, hb', -⟩ := hleak
    rw [htable] at hb
    cases hb
    exact honly hb'

end turns

/-! ## Whole events -/

section events

variable {w : WorkerId}

/-- The stored loop: growth, and none at all iff no turn leaks. -/
theorem storeBlocks_grows (ds : List KvCacheStoredBlockData) :
    ∀ (t : RadixTree) (current : BlockId), Bounded t → current < t.next →
      GrowsFor w t (ds.foldl (storeBlock w) (t, current)).1 ∧
        (SameFor w t (ds.foldl (storeBlock w) (t, current)).1 ↔ ¬ storeLeaks w t current ds) := by
  induction ds with
  | nil =>
    intro t current _ _
    refine ⟨.refl w t, iff_of_true (fun _ _ _ => rfl) ?_⟩
    exact fun h => h
  | cons d ds ih =>
    intro t current hb hcurrent
    have hs := storeBlock_stores w t current d
    obtain ⟨hgrows, hsame⟩ := hs.grows hb
    obtain ⟨hb', hcurrent'⟩ := hs.bounded hb hcurrent
    obtain ⟨hrest, hsame'⟩ := ih _ _ hb' hcurrent'
    refine ⟨hgrows.trans hrest, ?_⟩
    rw [storeLeaks, not_or, ← hsame, ← hsame']
    exact hgrows.sameFor_trans_iff hrest

/-- The removed loop: the others lose something iff some turn leaks. -/
theorem removeHashes_shrinks (hashes : List ExternalSequenceBlockHash) :
    ∀ t : RadixTree, GrowsFor w (hashes.foldl (removeHash w) t) t ∧
      (SameFor w (hashes.foldl (removeHash w) t) t ↔ ¬ removeLeaks w t hashes) := by
  induction hashes with
  | nil =>
    intro t
    refine ⟨.refl w t, iff_of_true (fun _ _ _ => rfl) ?_⟩
    exact fun h => h
  | cons hash hashes ih =>
    intro t
    obtain ⟨hrest, hsame'⟩ := ih (removeHash w t hash)
    have hturn : GrowsFor w (removeHash w t hash) t ∧
        (SameFor w (removeHash w t hash) t ↔ ¬ removeLeak w t hash) := by
      cases htable : (t.table w)[hash]? with
      | none =>
        rw [removeHash_unknown htable]
        refine ⟨.refl w t, iff_of_true (fun _ _ _ => rfl) ?_⟩
        intro hleak
        obtain ⟨b, hb, -⟩ := hleak
        rw [htable] at hb
        cases hb
      | some block => exact (removeHash_removes htable).shrinks htable
    refine ⟨hrest.trans hturn.1, ?_⟩
    rw [removeLeaks, not_or, ← hturn.2, ← hsame', and_comm]
    exact hrest.sameFor_trans_iff hturn.1

end events

/-! ## Scores of the others -/

theorem applyEvent_carries_other (t : RadixTree) (e : RouterEvent) {v : WorkerId}
    (hv : v ≠ e.workerId) : (t.applyEvent e).carries v = t.carries v := by
  unfold applyEvent
  split
  · next op _ =>
    rcases applyStored_invariant (I := fun t' _ => t'.carries v = t.carries v) e.workerId op
      (t := t.touch e.workerId) (fun _ _ => rfl)
      (fun _ _ _ _ _ _ h hs => (hs.carries_other hv).trans h) with hskip | ⟨-, h⟩
    · rw [hskip]
      rfl
    · exact h
  · exact removeHashes_invariant (I := fun t' => t'.carries v = t.carries v)
      (fun _ _ _ _ h _ hr => (hr.carries_other hv).trans h) _ rfl

/-- An event leaves what the others hold alone iff it does not leak. -/
theorem applyEvent_sameFor_iff {t : RadixTree} (h : Bounded t) (e : RouterEvent) :
    SameFor e.workerId t (t.applyEvent e) ↔ ¬ t.leaks e := by
  obtain ⟨w, data⟩ := e
  have htouch := h.touch w
  cases data with
  | stored op =>
    show SameFor w (t.touch w) (applyStored w (t.touch w) op) ↔
      ¬ ∃ current, (t.touch w).parentBlock w op = some current ∧
        storeLeaks w (t.touch w) current op.blocks
    unfold applyStored
    cases hparent : (t.touch w).parentBlock w op with
    | none => exact iff_of_true (fun _ _ _ => rfl) (by simp)
    | some current =>
      have hloop := (storeBlocks_grows (w := w) op.blocks _ current htouch
        (htouch.parentBlock hparent)).2
      simpa using hloop
  | removed op =>
    show SameFor w (t.touch w) (op.blockHashes.foldl (removeHash w) (t.touch w)) ↔
      ¬ removeLeaks w (t.touch w) op.blockHashes
    rw [sameFor_comm]
    exact (removeHashes_shrinks op.blockHashes _).2

/-- Eviction takes nothing from the others. -/
theorem removeWorker_sameFor (t : RadixTree) (w : WorkerId) :
    (∀ v, v ≠ w → (t.removeWorker w).carries v = t.carries v) ∧
      SameFor w t (t.removeWorker w) := by
  have he := t.removeWorker_evicts w
  have hcarries : ∀ v, v ≠ w → (t.removeWorker w).carries v = t.carries v := by
    intro v hv
    funext b
    rw [Bool.eq_iff_iff, he.carries]
    simp [hv]
  refine ⟨hcarries, ?_⟩
  intro v hv p
  unfold held
  rw [he.edges, hcarries v hv]

/-- In every reachable tree, an event of `w` leaves the scores of all other
    workers on all queries unchanged iff none of its turns leaks; evicting `w`
    always leaves them unchanged. -/
theorem scores_of_others_iff {expirationDuration : Option Int} {t : RadixTree}
    (hreach : (indexer expirationDuration).Reachable t) (w : WorkerId) :
    (∀ data, (∀ v, v ≠ w → ∀ now p,
        ((t.applyEvent ⟨w, data⟩).findMatches now p false).1.score v =
          (t.findMatches now p false).1.score v) ↔ ¬ t.leaks ⟨w, data⟩) ∧
      ∀ v, v ≠ w → ∀ now p,
        ((t.removeWorker w).findMatches now p false).1.score v =
          (t.findMatches now p false).1.score v := by
  have hb := bounded_of_reachable hreach
  refine ⟨?_, ?_⟩
  · intro data
    have hcarries : ∀ v, v ≠ w → (t.applyEvent ⟨w, data⟩).carries v = t.carries v :=
      fun v hv => t.applyEvent_carries_other ⟨w, data⟩ hv
    rw [← sameFor_iff_scores hcarries]
    exact applyEvent_sameFor_iff hb ⟨w, data⟩
  · obtain ⟨hcarries, hsame⟩ := t.removeWorker_sameFor w
    exact (sameFor_iff_scores hcarries).mp hsame

end RadixTree

/-! ## Two leaks -/

/-- Worker 2 stores the path 1, 2; worker 1 stores the path 1. -/
def sharedTree : List Op :=
  [.applyEvent ⟨2, .stored ⟨none, [⟨10, 1⟩, ⟨11, 2⟩]⟩⟩, .applyEvent ⟨1, .stored ⟨none, [⟨20, 1⟩]⟩⟩]

/-- Worker 2 then removes the path 1 and keeps the path 1, 2. -/
def orphanTree : List Op := sharedTree ++ [.applyEvent ⟨2, .removed ⟨[10]⟩⟩]

theorem sharedTree_runs : ((indexer none).run sharedTree).isSome = true := rfl

theorem orphanTree_runs : ((indexer none).run orphanTree).isSome = true := rfl

/-- An event of worker 1 that leaks nothing: a block under a new engine hash. -/
theorem sharedTree_store_keeps_score :
    (((((indexer none).run sharedTree).get sharedTree_runs).applyEvent
      ⟨1, .stored ⟨some 20, [⟨21, 5⟩]⟩⟩).findMatches 0 [1, 2] false).1.score 2 =
      ((((indexer none).run sharedTree).get
        sharedTree_runs).findMatches 0 [1, 2] false).1.score 2 :=
  ((RadixTree.scores_of_others_iff (System.Reachable.of_run_isSome sharedTree_runs) 1).1
    (.stored ⟨some 20, [⟨21, 5⟩]⟩)).mpr (by
      rintro ⟨current, -, ⟨-, -, b, hb, -⟩ | hnil⟩
      · have hnew : ((((indexer none).run sharedTree).get sharedTree_runs).touch 1 |>.table 1)[
            (21 : ExternalSequenceBlockHash)]? = none := by decide
        rw [hnew] at hb
        cases hb
      · exact hnil) 2 (by decide) 0 [1, 2]

/-- Worker 1 stores its block again under the path 3, and worker 2 scores on the
    path 3, 2 that it never stored.  Worker 1 removes its block, and worker 2
    loses the path 1, 2. -/
theorem events_change_other_scores :
    (∃ t, (indexer none).Reachable t ∧
      (t.findMatches 0 [3, 2] false).1.score 2 = 0 ∧
      ((t.applyEvent ⟨1, .stored ⟨none, [⟨20, 3⟩]⟩⟩).findMatches 0 [3, 2] false).1.score 2 = 2) ∧
    ∃ t, (indexer none).Reachable t ∧
      (t.findMatches 0 [1, 2] false).1.score 2 = 1 ∧
      ((t.applyEvent ⟨1, .removed ⟨[20]⟩⟩).findMatches 0 [1, 2] false).1.score 2 = 0 :=
  ⟨⟨_, System.Reachable.of_run_isSome sharedTree_runs, by decide, by decide⟩,
    ⟨_, System.Reachable.of_run_isSome orphanTree_runs, by decide, by decide⟩⟩

end DynamoCpp.Llm.KvRouter
