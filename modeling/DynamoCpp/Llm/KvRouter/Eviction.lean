import DynamoCpp.Llm.KvRouter.Held
import Mathlib.Data.Set.Insert

/-! # When an evicted worker is gone

    `remove_worker` clears the blocks that the worker's jump table lists.  A
    stored block whose engine hash is already listed for another block replaces
    the entry, and the old block keeps the worker without being listed.  Such a
    block stays after the eviction, and queries that reach it still score.

    A block that nothing leads to does no harm until something leads to it
    again, and that can only come from the root or from another worker's jump
    table.  So what has to be listed is every block that carries the worker and
    lies below the root or below an entry of another worker.
-/

namespace DynamoCpp.Llm.KvRouter

open Framework EdgeGraph

/-- The operation stores at least one block for `w`. -/
def Op.storesBlock (t : RadixTree) (w : WorkerId) : Op → Prop
  | .applyEvent ⟨v, .stored op⟩ => v = w ∧ t.parentBlock w op ≠ none ∧ op.blocks ≠ []
  | _ => False

/-- `t'` is reached from `t` without storing a block for `w`. -/
inductive Quiet (w : WorkerId) (t : RadixTree) : RadixTree → Prop where
  | refl : Quiet w t t
  | step {t' : RadixTree} (op : Op) : Quiet w t t' → ¬ op.storesBlock t' w →
      Quiet w t (t'.apply op)

namespace RadixTree

/-- The block lies below the root, or at or below an entry of another worker. -/
def exposed (t : RadixTree) (w : WorkerId) (b : BlockId) : Prop :=
  (∃ p, p ≠ [] ∧ t.edges.walk root p = some b) ∨
    ∃ v, v ≠ w ∧ ∃ (hash : ExternalSequenceBlockHash) (c : BlockId),
      (t.table v)[hash]? = some c ∧ t.edges.Reaches c b

/-- Every exposed block that carries `w` is listed in its jump table. -/
def listed (t : RadixTree) (w : WorkerId) : Prop :=
  ∀ b, t.exposed w b → t.carries w b = true →
    ∃ hash : ExternalSequenceBlockHash, (t.table w)[hash]? = some b

/-- Some block the root reaches lacks an edge: it has fewer than `2 ^ 64` children. -/
def hasRoom (t : RadixTree) : Prop := ∃ c x, t.edges.Reaches root c ∧ t.edges c x = none

/-- No query scores for `w` after its eviction until it stores a block again. -/
def gone (t : RadixTree) (w : WorkerId) : Prop :=
  ∀ t', Quiet w (t.removeWorker w) t' →
    ∀ now p earlyExit, (t'.findMatches now p earlyExit).1.score w = 0

/-- The scores of `w` are all 0 iff it holds nothing. -/
theorem scores_zero_iff (t : RadixTree) (w : WorkerId) :
    (∀ now p earlyExit, (t.findMatches now p earlyExit).1.score w = 0) ↔
      ∀ p, p ≠ [] → t.held w p = false := by
  constructor
  · intro h
    refine visits_eq_zero_iff.mp fun p => ?_
    rw [← score_findMatches t 0]
    exact h 0 p false
  · intro h now p earlyExit
    obtain ⟨k, hk⟩ := findMatchesFrom_earlyExit now earlyExit p t root {}
    have hpart : (t.findMatches now p earlyExit).1 = (t.findMatches now (p.take k) false).1 :=
      congrArg Prod.fst hk
    rw [hpart, score_findMatches]
    exact visits_eq_zero_iff.mpr h _

/-! ## Enough: what is listed is cleared -/

/-- `C` holds everything that can come to lie below the root without a store of
    `w`, and no block of it carries `w`. -/
structure Clean (w : WorkerId) (t : RadixTree) (C : Set BlockId) : Prop where
  children : ∀ x m, t.edges root x = some m → m ∈ C
  closed   : ∀ n ∈ C, ∀ x m, t.edges n x = some m → m ∈ C
  tables   : ∀ v (hash : ExternalSequenceBlockHash) (b : BlockId),
    (t.table v)[hash]? = some b → b ∈ C
  free     : ∀ b ∈ C, t.carries w b = false

section clean

variable {w v : WorkerId} {t t' : RadixTree} {C : Set BlockId}

theorem Clean.held (h : Clean w t C) {p : List LocalBlockHash} (hp : p ≠ []) :
    t.held w p = false := by
  rw [← Bool.not_eq_true, RadixTree.held, marked_iff]
  intro hheld
  obtain ⟨n, hwalk, hn⟩ := hheld
  cases p with
  | nil => exact hp rfl
  | cons x p =>
    obtain ⟨m, hm, hrest⟩ := Option.bind_eq_some_iff.mp hwalk
    have hmem : n ∈ C :=
      EdgeGraph.Reaches.mem_of_closed h.closed (h.children x m hm) ⟨p, hrest⟩
    rw [h.free n hmem] at hn
    cases hn

/-- Fewer edges, fewer entries and fewer blocks of `w` keep the set clean. -/
theorem Clean.shrink (h : Clean w t C)
    (hedges : ∀ n x m, t'.edges n x = some m → t.edges n x = some m)
    (htables : ∀ v (hash : ExternalSequenceBlockHash) (b : BlockId),
      (t'.table v)[hash]? = some b → (t.table v)[hash]? = some b)
    (hcarries : ∀ b, t'.carries w b = true → t.carries w b = true) : Clean w t' C where
  children := fun x m hm => h.children x m (hedges _ x m hm)
  closed   := fun n hn x m hm => h.closed n hn x m (hedges n x m hm)
  tables   := fun v hash b hb => h.tables v hash b (htables v hash b hb)
  free     := by
    intro b hb
    rw [← Bool.not_eq_true]
    intro hcarry
    have hfree := h.free b hb
    rw [hcarries b hcarry] at hfree
    cases hfree

theorem Clean.removes (h : Clean w t C) {hash : ExternalSequenceBlockHash} {block : BlockId}
    (hr : Removes v t hash block t') : Clean w t' C := by
  refine h.shrink ?_ ?_ ?_
  · intro n x m hm
    by_cases honly : t.onlyCarries v block
    · rw [hr.cleared honly] at hm
      exact clear_le n x m hm
    · rw [hr.kept honly] at hm
      exact hm
  · intro u g b hb
    rw [hr.table] at hb
    split at hb
    · next hu => exact hu ▸ (OrdMap.get_of_erase hb).2
    · exact hb
  · intro b hb
    exact ((hr.carries w b).mp hb).1

theorem Clean.evicts (h : Clean w t C) (he : Evicts v t t') : Clean w t' C := by
  refine h.shrink ?_ ?_ ?_
  · intro n x m hm
    rw [he.edges] at hm
    exact hm
  · intro u g b hb
    rw [he.table] at hb
    split at hb
    · simp at hb
    · exact hb
  · intro b hb
    exact ((he.carries w b).mp hb).1

/-- A turn of another worker's stored loop moves blocks of `C` around, and adds a
    fresh one at most. -/
theorem Clean.stores (h : Clean w t C) (hb : Bounded t) (hv : v ≠ w) {current block : BlockId}
    {d : KvCacheStoredBlockData} (hcurrent : current = root ∨ current ∈ C)
    (hs : Stores v t current d t' block) : Clean w t' (insert block C) := by
  have hcarries : ∀ b, t'.carries w b = t.carries w b := by
    intro b
    rw [Bool.eq_iff_iff, hs.carries]
    simp [hv.symm]
  have hblock : block ∈ C ∨ block = t.next := by
    rcases hs.attached.ways with ⟨hedge, -⟩ | ⟨-, -, htable | ⟨-, hfresh⟩⟩
    · rcases hcurrent with rfl | hmem
      · exact .inl (h.children _ _ hedge)
      · exact .inl (h.closed current hmem _ _ hedge)
    · exact .inl (h.tables v _ _ htable)
    · exact .inr hfresh
  constructor
  · intro x m hm
    rcases hs.attached.edges_le hm with hold | ⟨-, rfl⟩
    · exact Set.mem_insert_of_mem _ (h.children x m hold)
    · exact Set.mem_insert _ _
  · intro n hn x m hm
    rcases hs.attached.edges_le hm with hold | ⟨-, rfl⟩
    · -- a fresh block has no edges to leave by
      have hmem : n ∈ C := by
        rcases Set.mem_insert_iff.mp hn with rfl | hmem
        · exact hblock.resolve_right fun e => Nat.lt_irrefl _ (e ▸ (hb.edge hold).1)
        · exact hmem
      exact Set.mem_insert_of_mem _ (h.closed n hmem x m hold)
    · exact Set.mem_insert _ _
  · intro u g b hb'
    rw [hs.table] at hb'
    split at hb'
    · rcases OrdMap.get_of_insert hb' with ⟨-, rfl⟩ | hb'
      · exact Set.mem_insert _ _
      · exact Set.mem_insert_of_mem _ (h.tables v g b hb')
    · exact Set.mem_insert_of_mem _ (h.tables u g b hb')
  · intro b hmem
    rw [hcarries]
    rcases Set.mem_insert_iff.mp hmem with rfl | hmem
    · rcases hblock with hmem | hfresh
      · exact h.free b hmem
      · rw [← Bool.not_eq_true]
        exact fun hcarry => Nat.lt_irrefl _ (hfresh ▸ hb.carried hcarry)
    · exact h.free b hmem

theorem Clean.touch (h : Clean w t C) (v : WorkerId) : Clean w (t.touch v) C :=
  h.shrink (fun _ _ _ hm => hm) (fun u g b hg => by rwa [touch_sameTables] at hg)
    (fun _ hc => hc)

/-- The stored loop of another worker stays clean. -/
theorem Clean.applyStored (h : Clean w t C) (hb : Bounded t) (hv : v ≠ w) (op : KvCacheStoreData) :
    ∃ C', Clean w (applyStored v t op) C' := by
  have hstart : ∀ current, t.parentBlock v op = some current → current = root ∨ current ∈ C := by
    intro current hparent
    unfold parentBlock at hparent
    split at hparent
    · cases hparent
      exact .inl rfl
    · exact .inr (h.tables v _ _ hparent)
  have hloop := applyStored_invariant (t := t)
    (I := fun t current => Bounded t ∧ current < t.next ∧
      ∃ C, Clean w t C ∧ (current = root ∨ current ∈ C)) v op
    (fun current hparent => ⟨hb, hb.parentBlock hparent, C, h, hstart current hparent⟩)
    (fun t current d t' block _ hI hs => by
      obtain ⟨hbt, hcur, C, hC, hcurrent⟩ := hI
      obtain ⟨hb', hblock⟩ := hs.bounded hbt hcur
      exact ⟨hb', hblock, _, hC.stores hbt hv hcurrent hs, .inr (Set.mem_insert _ _)⟩)
  rcases hloop with hskip | ⟨-, -, -, C', hC', -⟩
  · rw [hskip]
    exact ⟨C, h⟩
  · exact ⟨C', hC'⟩

/-- A stored event of `w` that stores no block changes nothing. -/
theorem applyStored_of_not_storesBlock {op : KvCacheStoreData}
    (hop : ¬ Op.storesBlock t w (.applyEvent ⟨w, .stored op⟩)) :
    RadixTree.applyStored w (t.touch w) op = t.touch w := by
  have hparent : (t.touch w).parentBlock w op = t.parentBlock w op := by
    unfold parentBlock
    rw [touch_sameTables]
  unfold applyStored
  rw [hparent]
  cases hpb : t.parentBlock w op with
  | none => rfl
  | some current =>
    have hnil : op.blocks = [] := by
      by_contra hne
      exact hop ⟨rfl, by rw [hpb]; simp, hne⟩
    rw [hnil]
    rfl

/-- No operation brings `w` back but a store of its own. -/
theorem Clean.apply (h : Clean w t C) (hb : Bounded t) (op : Op) (hop : ¬ op.storesBlock t w) :
    ∃ C', Clean w (t.apply op) C' := by
  cases op with
  | applyEvent e =>
    obtain ⟨v, data⟩ := e
    cases data with
    | stored op =>
      show ∃ C', Clean w (RadixTree.applyStored v (t.touch v) op) C'
      by_cases hv : v = w
      · subst hv
        rw [applyStored_of_not_storesBlock hop]
        exact ⟨C, h.touch v⟩
      · exact (h.touch v).applyStored (hb.touch v) hv op
    | removed op =>
      exact ⟨C, removeHashes_invariant (I := fun t => Clean w t C)
        (fun _ _ _ _ hC _ hr => hC.removes hr) op.blockHashes (h.touch v)⟩
  | removeWorker v => exact ⟨C, h.evicts (t.removeWorker_evicts v)⟩
  | findMatches now p earlyExit =>
    have hsame := findMatchesFrom_sameIndex now earlyExit p t root {}
    refine ⟨C, h.shrink ?_ ?_ ?_⟩
    · intro n x m hm
      rwa [← hsame.edges]
    · intro u g b hg
      rwa [← hsame.table u]
    · intro b hc
      rwa [← hsame.carries]

/-- Evicting a worker whose exposed blocks are listed leaves a clean tree. -/
theorem clean_removeWorker (hlisted : t.listed w) :
    Clean w (t.removeWorker w) {b | t.exposed w b} := by
  have he := t.removeWorker_evicts w
  constructor
  · intro x m hm
    rw [he.edges] at hm
    exact .inl ⟨[x], by simp, by simp [hm]⟩
  · intro n hn x m hm
    rw [he.edges] at hm
    rcases hn with ⟨p, hp, hwalk⟩ | ⟨v, hv, hash, c, hc, hreach⟩
    · exact .inl ⟨p ++ [x], by simp, by simp [walk_concat, hwalk, hm]⟩
    · exact .inr ⟨v, hv, hash, c, hc, hreach.concat hm⟩
  · intro v hash b hb
    rw [he.table] at hb
    split at hb
    · simp at hb
    · next hv => exact .inr ⟨v, hv, hash, b, hb, .refl _ _⟩
  · intro b hb
    rw [← Bool.not_eq_true, he.carries]
    intro hcarry
    exact hcarry.2 ⟨rfl, hlisted b hb hcarry.1⟩

theorem gone_of_listed (hb : Bounded t) (hlisted : t.listed w) : t.gone w := by
  intro t' hquiet
  rw [scores_zero_iff]
  have hclean : Bounded t' ∧ ∃ C, Clean w t' C := by
    induction hquiet with
    | refl => exact ⟨(t.removeWorker_evicts w).bounded hb, _, clean_removeWorker hlisted⟩
    | step op _ hop ih =>
      obtain ⟨hb', C, hC⟩ := ih
      exact ⟨hb'.apply op, hC.apply hb' op hop⟩
  obtain ⟨-, C, hC⟩ := hclean
  exact fun p hp => hC.held hp

end clean

/-! ## Needed: what is not listed can be found again -/

section needed

variable {t t' : RadixTree} {v w : WorkerId}

/-- Storing along blocks that exist, under an engine hash other than `hash`,
    changes nothing that matters here. -/
structure Follows (v : WorkerId) (hash : ExternalSequenceBlockHash) (t t' : RadixTree) : Prop where
  edges   : t'.edges = t.edges
  carries : ∀ w, w ≠ v → t'.carries w = t.carries w
  entry   : (t'.table v)[hash]? = (t.table v)[hash]?

theorem Stores.follows {hash other : ExternalSequenceBlockHash} (hne : other ≠ hash)
    {x : LocalBlockHash} {current block b : BlockId} (hedge : t.edges current x = some b)
    (hs : Stores v t current ⟨other, x⟩ t' block) : Follows v hash t t' ∧ block = b := by
  have hedges : t'.edges = t.edges ∧ block = b := by
    rcases hs.attached.ways with ⟨h, hE⟩ | ⟨h, -⟩
    · exact ⟨hE, Option.some.inj (h.symm.trans hedge)⟩
    · exact absurd (h.symm.trans hedge) (by simp)
  refine ⟨⟨hedges.1, ?_, ?_⟩, hedges.2⟩
  · intro u hu
    funext c
    rw [Bool.eq_iff_iff, hs.carries]
    simp [hu]
  · rw [hs.table, if_pos rfl, OrdMap.get_insert, if_neg hne.symm]

/-- The blocks along a path, all under one engine hash. -/
def alongPath (hash : ExternalSequenceBlockHash) (q : List LocalBlockHash) :
    List KvCacheStoredBlockData :=
  q.map (⟨hash, ·⟩)

theorem alongPath_follows {hash other : ExternalSequenceBlockHash} (hne : other ≠ hash)
    (q : List LocalBlockHash) : ∀ (t : RadixTree) (current b : BlockId),
      t.edges.walk current q = some b →
      Follows v hash t ((alongPath other q).foldl (storeBlock v) (t, current)).1 ∧
        ((alongPath other q).foldl (storeBlock v) (t, current)).2 = b := by
  induction q with
  | nil =>
    intro t current b hwalk
    exact ⟨⟨rfl, fun _ _ => rfl, rfl⟩, Option.some.inj hwalk⟩
  | cons x q ih =>
    intro t current b hwalk
    rw [walk_cons, Option.bind_eq_some_iff] at hwalk
    obtain ⟨c, hedge, hrest⟩ := hwalk
    obtain ⟨hfirst, hc⟩ := (storeBlock_stores v t current ⟨other, x⟩).follows hne hedge
    have hr : storeBlock v (t, current) ⟨other, x⟩ =
        ((storeBlock v (t, current) ⟨other, x⟩).1, c) := by
      rw [← hc]
    obtain ⟨hlater, hb⟩ := ih (storeBlock v (t, current) ⟨other, x⟩).1 c b
      (by rw [hfirst.edges]; exact hrest)
    show Follows v hash t ((alongPath other q).foldl (storeBlock v) (storeBlock v (t, current) _)).1
      ∧ ((alongPath other q).foldl (storeBlock v) (storeBlock v (t, current) _)).2 = b
    rw [hr]
    exact ⟨⟨hlater.edges.trans hfirst.edges,
      fun u hu => (hlater.carries u hu).trans (hfirst.carries u hu),
      hlater.entry.trans hfirst.entry⟩, hb⟩

/-- The event of `v` that leads a free edge of the tree, at the end of `q` along
    `x`, to the block that `v` has under `hash`. -/
def regraft (v : WorkerId) (q : List LocalBlockHash) (x : LocalBlockHash)
    (hash : ExternalSequenceBlockHash) : RouterEvent :=
  ⟨v, .stored ⟨none, alongPath (hash + 1) q ++ [⟨hash, x⟩]⟩⟩

theorem held_regraft (hv : v ≠ w) {hash : ExternalSequenceBlockHash} {a b c : BlockId}
    {q r : List LocalBlockHash} {x : LocalBlockHash} (hentry : (t.table v)[hash]? = some b)
    (hq : t.edges.walk root q = some a) (hx : t.edges a x = none)
    (hr : t.edges.walk b r = some c) (hc : t.carries w c = true) :
    (t.applyEvent (regraft v q x hash)).held w (q ++ x :: r) = true := by
  have hne : hash + 1 ≠ hash := by simp
  obtain ⟨hf, ha⟩ := alongPath_follows (v := v) hne q (t.touch v) root a hq
  -- the tree in front of the last turn
  generalize hm : (alongPath (hash + 1) q).foldl (storeBlock v) (t.touch v, root) = m at hf ha
  have happly : t.applyEvent (regraft v q x hash) = (storeBlock v m ⟨hash, x⟩).1 := by
    show (List.foldl (storeBlock v) (t.touch v, root) (alongPath (hash + 1) q ++ [⟨hash, x⟩])).1 = _
    rw [List.foldl_append, hm]
    rfl
  obtain ⟨t₁, a'⟩ := m
  obtain rfl : a' = a := ha
  have hedges : t₁.edges = t.edges := hf.edges
  have hs := storeBlock_stores v t₁ a' ⟨hash, x⟩
  rw [happly]
  generalize (storeBlock v (t₁, a') ⟨hash, x⟩).1 = t₂, (storeBlock v (t₁, a') ⟨hash, x⟩).2 = block
    at hs
  have hlink : t₂.edges = t.edges.addEdge a' x b := by
    have hfree : t₁.edges a' x = none := by rw [hedges]; exact hx
    have htable : (t₁.table v)[hash]? = some b := by
      rw [hf.entry, touch_sameTables]
      exact hentry
    rcases hs.attached.ways with ⟨h, -⟩ | ⟨-, hE, h | ⟨h, -⟩⟩
    · exact absurd (hfree.symm.trans h) (by simp)
    · rw [hE, hedges, Option.some.inj (htable.symm.trans h)]
    · exact absurd (htable.symm.trans h) (by simp)
  have hmono := le_addEdge (b := b) hx
  refine marked_iff.mpr ⟨c, ?_, ?_⟩
  · rw [hlink, walk_append, walk_mono hmono hq]
    simp [addEdge, walk_mono hmono hr]
  · have hother : t₁.carries w = t.carries w := hf.carries w hv.symm
    rw [hs.carries, hother]
    exact .inr hc

/-- A worker that is gone had every exposed block of it listed. -/
theorem listed_of_gone (hroom : t.hasRoom) (hgone : t.gone w) : t.listed w := by
  have he := t.removeWorker_evicts w
  intro b hb hcarry
  by_contra hunlisted
  have hstays : (t.removeWorker w).carries w b = true :=
    (he.carries w b).mpr ⟨hcarry, fun h => hunlisted h.2⟩
  have hnone : ∀ t', Quiet w (t.removeWorker w) t' → ∀ p, p ≠ [] → t'.held w p = false :=
    fun t' hq => (t'.scores_zero_iff w).mp (hgone t' hq)
  rcases hb with ⟨p, hp, hwalk⟩ | ⟨v, hv, hash, c, hc, r, hr⟩
  · have hheld : (t.removeWorker w).held w p = true :=
      marked_iff.mpr ⟨b, by rw [he.edges]; exact hwalk, hstays⟩
    rw [hnone _ .refl p hp] at hheld
    cases hheld
  · obtain ⟨a, x, ⟨q, hq⟩, hx⟩ := hroom
    have hentry : ((t.removeWorker w).table v)[hash]? = some c := by
      rw [he.table, if_neg hv]
      exact hc
    rw [← he.edges] at hq hx hr
    have hheld := held_regraft hv hentry hq hx hr hstays
    have hquiet : Quiet w (t.removeWorker w)
        ((t.removeWorker w).apply (.applyEvent (regraft v q x hash))) :=
      .step _ .refl fun h => hv h.1
    have hfalse : ((t.removeWorker w).applyEvent (regraft v q x hash)).held w (q ++ x :: r) =
        false := hnone _ hquiet (q ++ x :: r) (by simp)
    rw [hfalse] at hheld
    cases hheld

end needed

/-- After any calls of the indexer, an evicted worker is gone if every exposed
    block of it was listed, and, as long as some block can take a further
    child, only then. -/
theorem gone_iff_listed {expirationDuration : Option Int} {t : RadixTree}
    (hreach : (indexer expirationDuration).Reachable t) (w : WorkerId) :
    (t.listed w → t.gone w) ∧ (t.hasRoom → t.gone w → t.listed w) :=
  ⟨gone_of_listed (bounded_of_reachable hreach), listed_of_gone⟩

end RadixTree

/-! ## A clean eviction and one that leaves a block behind -/

/-- Worker 1 stores the path 10, 20, and worker 2 the path 10, 30. -/
def forkedPath : List Op :=
  [.applyEvent ⟨1, .stored ⟨none, [⟨1, 10⟩, ⟨2, 20⟩]⟩⟩,
    .applyEvent ⟨2, .stored ⟨none, [⟨1, 10⟩, ⟨3, 30⟩]⟩⟩]

/-- Worker 1 stores the paths 10 and 30 under the hashes 1 and 3, and then 30
    again under the hash 1. -/
def overwrittenEntry : List Op :=
  [.applyEvent ⟨1, .stored ⟨none, [⟨1, 10⟩]⟩⟩, .applyEvent ⟨1, .stored ⟨none, [⟨3, 30⟩]⟩⟩,
    .applyEvent ⟨1, .stored ⟨none, [⟨1, 30⟩]⟩⟩]

theorem forkedPath_runs : ((indexer none).run forkedPath).isSome = true := rfl

theorem overwrittenEntry_runs : ((indexer none).run overwrittenEntry).isSome = true := rfl

theorem forkedPath_gone : (((indexer none).run forkedPath).get forkedPath_runs).gone 1 := by
  have hreach := System.Reachable.of_run_isSome forkedPath_runs
  refine (RadixTree.gone_iff_listed hreach 1).1 fun b _ hcarry => ?_
  have hb : b < 4 := (RadixTree.bounded_of_reachable hreach).carried hcarry
  -- the root carries nobody, and the block of 30 only worker 2
  match b, hb with
  | 0, _ => exact absurd hcarry (by decide)
  | 1, _ => exact ⟨1, by decide⟩
  | 2, _ => exact ⟨2, by decide⟩
  | 3, _ => exact absurd hcarry (by decide)

/-- The block of the path 10 is no longer listed, and scores after the eviction. -/
theorem overwrittenEntry_still_scores :
    ∃ t, (indexer none).Reachable t ∧
      ((t.removeWorker 1).findMatches 0 [10] false).1.score 1 = 1 ∧ ¬ t.gone 1 :=
  ⟨_, System.Reachable.of_run_isSome overwrittenEntry_runs, by decide,
    fun h => absurd (h _ .refl 0 [10] false) (by decide)⟩

end DynamoCpp.Llm.KvRouter
