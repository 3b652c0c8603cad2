import DynamoCpp.Llm.KvRouter.Held
import Mathlib.Algebra.Ring.Nat
import Mathlib.Data.Set.Insert

/-! # The indexer refines per-worker prefix sets

    What the indexer is for: it knows, for every worker, the set of token hash
    sequences whose blocks the worker has cached.  The abstract state is that
    family of sets, and the abstract operations add, delete and clear.

    Engine hashes are sequence-aware: for each worker a hash denotes one path
    of token hashes from the root, and different hashes denote different
    paths.  `path` is that denotation.  Events with an unknown parent are
    skipped, whatever they contain.

    * **Abstract sets** and the events they admit.
    * **Simulation**: the tree and the sets agree, through the stored loop,
      the removed loop and eviction.
    * **Scores**: the score of a worker is the length of the longest prefix
      whose blocks it has.
-/

namespace DynamoCpp.Llm.KvRouter

open Framework RadixTree EdgeGraph

/-! ## Abstract sets -/

/-- The paths every worker has stored. -/
abbrev PrefixSets : Type := WorkerId → Set (List LocalBlockHash)

/-- The path of token hashes that a worker's engine hash stands for. -/
abbrev Denotation : Type := WorkerId → ExternalSequenceBlockHash → List LocalBlockHash

/-- The paths of a chain of blocks that starts below `base`. -/
def chain (base : List LocalBlockHash) : List KvCacheStoredBlockData → List (List LocalBlockHash)
  | [] => []
  | d :: ds => (base ++ [d.tokensHash]) :: chain (base ++ [d.tokensHash]) ds

/-- Every block hash of the chain denotes its path. -/
def Consistent (path : ExternalSequenceBlockHash → List LocalBlockHash)
    (base : List LocalBlockHash) : List KvCacheStoredBlockData → Prop
  | [] => True
  | d :: ds =>
    path d.blockHash = base ++ [d.tokensHash] ∧ Consistent path (base ++ [d.tokensHash]) ds

/-- The path below which a stored event adds its chain, if its parent is known. -/
def Base (path : Denotation) (S : PrefixSets) (w : WorkerId) (op : KvCacheStoreData)
    (base : List LocalBlockHash) : Prop :=
  match op.parentHash with
  | none => base = []
  | some hash => base = path w hash ∧ base ∈ S w

/-- Every path of the set comes with its non-empty prefixes. -/
def PrefixClosed (S : Set (List LocalBlockHash)) : Prop := ∀ p x, p ≠ [] → p ++ [x] ∈ S → p ∈ S

namespace PrefixSets

def stored (path : Denotation) (S : PrefixSets) (w : WorkerId) (op : KvCacheStoreData) :
    PrefixSets :=
  Function.update S w (S w ∪ {p | ∃ base, Base path S w op base ∧ p ∈ chain base op.blocks})

def removed (path : Denotation) (S : PrefixSets) (w : WorkerId) (op : KvCacheRemoveData) :
    PrefixSets :=
  Function.update S w (S w \ {p | ∃ hash ∈ op.blockHashes, path w hash = p})

def apply (path : Denotation) (S : PrefixSets) : Op → PrefixSets
  | .applyEvent ⟨w, .stored op⟩ => S.stored path w op
  | .applyEvent ⟨w, .removed op⟩ => S.removed path w op
  | .removeWorker w => Function.update S w ∅
  | .findMatches .. => S

end PrefixSets

/-- What a worker's engine may report: chains of blocks whose hashes denote
    their paths, and removals that leave its paths prefix-closed. -/
def Admissible (path : Denotation) (S : PrefixSets) : Op → Prop
  | .applyEvent ⟨w, .stored op⟩ =>
    ∀ base, Base path S w op base → Consistent (path w) base op.blocks
  | .applyEvent ⟨w, .removed op⟩ => PrefixClosed (S.removed path w op w)
  | .removeWorker _ => True
  | .findMatches .. => True

/-- A run of the indexer, with the abstract sets along it. -/
inductive Tracks (path : Denotation) (expirationDuration : Option Int) :
    RadixTree → PrefixSets → Prop where
  | init : Tracks path expirationDuration { expirationDuration := expirationDuration } fun _ => ∅
  | step {t : RadixTree} {S : PrefixSets} (op : Op) :
      Tracks path expirationDuration t S → Admissible path S op →
      Tracks path expirationDuration (t.apply op) (S.apply path op)

/-! ## Simulation -/

/-- The tree represents the sets: every stored path leads to a block of its own,
    which carries exactly the workers that have the path, and which the jump
    tables list under the hash that denotes the path. -/
structure Represents (path : Denotation) (t : RadixTree) (S : PrefixSets) : Prop where
  bounded  : t.Bounded
  table    : ∀ w (hash : ExternalSequenceBlockHash) (b : BlockId), (t.table w)[hash]? = some b ↔
    path w hash ∈ S w ∧ t.edges.walk root (path w hash) = some b
  carries  : ∀ w p b, p ≠ [] → t.edges.walk root p = some b →
    (t.carries w b = true ↔ p ∈ S w)
  stored   : ∀ w p, p ∈ S w → ∃ b, t.edges.walk root p = some b
  unique   : ∀ p q b, t.edges.walk root p = some b → t.edges.walk root q = some b → p = q
  closed   : ∀ w, PrefixClosed (S w)
  nonempty : ∀ w, [] ∉ S w
  denoted  : ∀ w p, p ∈ S w → ∃ hash, path w hash = p

section simulation

variable {path : Denotation} {t t' : RadixTree} {S : PrefixSets} {w : WorkerId}

theorem represents_init (path : Denotation) (expirationDuration : Option Int) :
    Represents path { expirationDuration := expirationDuration } fun _ => ∅ := by
  -- without edges only the empty word leads anywhere
  have hwalk : ∀ p b,
      (edges { expirationDuration := expirationDuration }).walk root p = some b →
        p = [] := by
    intro p b h
    cases p with
    | nil => rfl
    | cons x p => simp [edges] at h
  constructor
  · exact bounded_init expirationDuration
  · intro w hash b
    simp [table]
  · intro w p b hp h
    exact absurd (hwalk p b h) hp
  · intro w p hp
    cases hp
  · intro p q b hp hq
    rw [hwalk p b hp, hwalk q b hq]
  · intro w p x _ hp
    cases hp
  · intro w hp
    cases hp
  · intro w p hp
    cases hp

/-- Trees with the same views represent the same sets. -/
theorem Represents.congr (h : Represents path t S) (hbounded : t'.Bounded)
    (hedges : t'.edges = t.edges) (hcarries : t'.carries = t.carries)
    (htable : ∀ w, t'.table w = t.table w) : Represents path t' S where
  bounded  := hbounded
  table    := by
    intro w hash b
    rw [htable, hedges]
    exact h.table w hash b
  carries  := by
    rw [hcarries, hedges]
    exact h.carries
  stored   := by
    rw [hedges]
    exact h.stored
  unique   := by
    rw [hedges]
    exact h.unique
  closed   := h.closed
  nonempty := h.nonempty
  denoted  := h.denoted

theorem Represents.touch (h : Represents path t S) (w : WorkerId) :
    Represents path (t.touch w) S :=
  h.congr (h.bounded.touch w) rfl rfl (t.touch_sameTables w)

/-! ### The stored loop -/

/-- One more path for one worker. -/
def PrefixSets.insert (S : PrefixSets) (w : WorkerId) (p : List LocalBlockHash) : PrefixSets :=
  Function.update S w (Insert.insert p (S w))

variable {v : WorkerId} {p q base : List LocalBlockHash} {block b current : BlockId}
  {d : KvCacheStoredBlockData} {t₀ : RadixTree} {D : Set (List LocalBlockHash)}

theorem PrefixSets.mem_insert :
    q ∈ S.insert w p v ↔ (v = w ∧ q = p) ∨ q ∈ S v := by
  unfold insert
  by_cases hv : v = w
  · subst hv
    simp
  · simp [hv]

/-- From `t` to `t'` the path `p` is the only new walk, and the only one to `block`. -/
structure OnePath (t t' : RadixTree) (p : List LocalBlockHash) (block : BlockId) : Prop where
  walks : ∀ q n, t'.edges.walk root q = some n ↔
    t.edges.walk root q = some n ∨ (q = p ∧ n = block)
  only  : ∀ q, t'.edges.walk root q = some block → q = p

theorem OnePath.leads (h : OnePath t t' p block) :
    t'.edges.walk root p = some block :=
  (h.walks _ _).mpr (.inr ⟨rfl, rfl⟩)

/-- Walks to other blocks are old. -/
theorem OnePath.old (h : OnePath t t' p block)
    (hb : b ≠ block) (hwalk : t'.edges.walk root q = some b) : t.edges.walk root q = some b := by
  rcases (h.walks q b).mp hwalk with hold | ⟨-, hb'⟩
  · exact hold
  · exact absurd hb' hb

/-- A fresh block below `current` adds one path. -/
theorem Represents.walk_fresh (h : Represents path t S) {x : LocalBlockHash}
    (hbase : t.edges.walk root base = some current) (hedge : t.edges current x = none)
    (q : List LocalBlockHash) (n : BlockId) :
    (t.edges.addEdge current x t.next).walk root q = some n ↔
      t.edges.walk root q = some n ∨ (q = base ++ [x] ∧ n = t.next) := by
  have hleaf : ∀ y, t.edges t.next y = none := by
    intro y
    cases hy : t.edges t.next y with
    | none => rfl
    | some c => exact absurd (h.bounded.edge hy).1 (Nat.lt_irrefl _)
  have hne : t.next ≠ current := (Nat.ne_of_lt (h.bounded.walk_lt hbase)).symm
  rw [walk_addEdge_fresh hedge hleaf hne]
  constructor
  · intro hq
    rcases hq with hq | ⟨r, rfl, hr, rfl⟩
    · exact .inl hq
    · exact .inr ⟨by rw [h.unique r base current hr hbase], rfl⟩
  · intro hq
    rcases hq with hq | ⟨rfl, rfl⟩
    · exact .inl hq
    · exact .inr ⟨base, rfl, hbase, rfl⟩

/-- Where the stored loop puts a block whose hash denotes `base ++ [tokensHash]`:
    on that path alone.  The block carries the workers that have the path. -/
theorem Represents.walk_stores (h : Represents path t S)
    (hbase : t.edges.walk root base = some current)
    (hd : path w d.blockHash = base ++ [d.tokensHash])
    (hs : RadixTree.Stores w t current d t' block) :
    OnePath t t' (base ++ [d.tokensHash]) block ∧
      ∀ v, t.carries v block = true ↔ base ++ [d.tokensHash] ∈ S v := by
  have hstep : t.edges.walk root (base ++ [d.tokensHash]) = t.edges current d.tokensHash := by
    simp [walk_concat, hbase]
  rcases hs.attached.ways with ⟨hedge, hE⟩ | ⟨hedge, hE, htable | ⟨htable, rfl⟩⟩
  · rw [hedge] at hstep
    refine ⟨⟨?_, fun q hq => h.unique q _ _ (hE ▸ hq) hstep⟩,
      fun v => h.carries v _ _ (by simp) hstep⟩
    intro q n
    rw [hE]
    constructor
    · exact .inl
    · intro hq
      rcases hq with hq | ⟨rfl, rfl⟩
      · exact hq
      · exact hstep
  · -- a listed hash has its path in the tree, so its edge is not missing
    obtain ⟨-, hwalk⟩ := (h.table w _ _).mp htable
    rw [hd, hstep, hedge] at hwalk
    cases hwalk
  · rw [hedge] at hstep
    have hwalks := h.walk_fresh hbase hedge
    rw [← hE] at hwalks
    refine ⟨⟨hwalks, ?_⟩, ?_⟩
    · intro q hq
      rcases (hwalks q _).mp hq with hq | ⟨hq, -⟩
      · exact absurd (h.bounded.walk_lt hq) (Nat.lt_irrefl _)
      · exact hq
    · intro v
      constructor
      · intro hv
        exact absurd (h.bounded.carried hv) (Nat.lt_irrefl _)
      · intro hv
        obtain ⟨b, hb⟩ := h.stored v _ hv
        rw [hstep] at hb
        cases hb

/-- Stored paths lead where they led. -/
theorem Represents.walk_onePath (h : Represents path t S) (hone : OnePath t t' p block)
    (hq : q ∈ S v) : t'.edges.walk root q = t.edges.walk root q := by
  obtain ⟨b, hb⟩ := h.stored v q hq
  rw [hb]
  exact (hone.walks q b).mpr (.inl hb)

/-- The new entry of the jump table is the one of the new path. -/
theorem Represents.table_stores (hpath : Function.Injective (path w)) (h : Represents path t S)
    (hd : path w d.blockHash = p) (hs : RadixTree.Stores w t current d t' block)
    (hone : OnePath t t' p block) (v : WorkerId) (hash : ExternalSequenceBlockHash) (b : BlockId) :
    (t'.table v)[hash]? = some b ↔
      path v hash ∈ S.insert w p v ∧ t'.edges.walk root (path v hash) = some b := by
  have hsame : (path v hash ∈ S v ∧ t.edges.walk root (path v hash) = some b) ↔
      (path v hash ∈ S v ∧ t'.edges.walk root (path v hash) = some b) :=
    and_congr_right fun hmem => by rw [h.walk_onePath hone hmem]
  rw [hs.table, PrefixSets.mem_insert]
  by_cases hv : v = w
  · subst hv
    rw [if_pos rfl, OrdMap.get_insert]
    by_cases hhash : hash = d.blockHash
    · subst hhash
      simp [hd, hone.leads]
    · -- another hash denotes another path
      have hne : path v hash ≠ p := fun heq => hhash (hpath (heq.trans hd.symm))
      simp only [hhash, if_false, h.table, hne, and_false, false_or]
      exact hsame
  · rw [if_neg hv, h.table]
    simp only [hv, false_and, false_or]
    exact hsame

/-- The block of the new path carries the worker now; the others are as they were. -/
theorem Represents.carries_stores (h : Represents path t S)
    (hs : RadixTree.Stores w t current d t' block) (hone : OnePath t t' p block)
    (hcarried : ∀ v, t.carries v block = true ↔ p ∈ S v) (hq : q ≠ [])
    (hwalk : t'.edges.walk root q = some b) :
    t'.carries v b = true ↔ q ∈ S.insert w p v := by
  rw [hs.carries, PrefixSets.mem_insert]
  by_cases hb : b = block
  · subst hb
    rw [hone.only q hwalk, hcarried]
    simp
  · have hne : q ≠ p := by
      intro heq
      rw [heq, hone.leads] at hwalk
      exact hb (Option.some.inj hwalk).symm
    simp [hb, hne, h.carries v q b hq (hone.old hb hwalk)]

/-- One turn of the stored loop adds one path. -/
theorem Represents.stores (hpath : Function.Injective (path w)) (h : Represents path t S)
    (hbase : t.edges.walk root base = some current) (hin : base = [] ∨ base ∈ S w)
    (hd : path w d.blockHash = base ++ [d.tokensHash])
    (hs : RadixTree.Stores w t current d t' block) :
    Represents path t' (S.insert w (base ++ [d.tokensHash])) ∧
      t'.edges.walk root (base ++ [d.tokensHash]) = some block := by
  obtain ⟨hone, hcarried⟩ := h.walk_stores hbase hd hs
  refine ⟨⟨?_, ?_, ?_, ?_, ?_, ?_, ?_, ?_⟩, hone.leads⟩
  · exact (hs.bounded h.bounded (h.bounded.walk_lt hbase)).1
  · exact h.table_stores hpath hd hs hone
  · intro v q b hq hwalk
    exact h.carries_stores hs hone hcarried hq hwalk
  · intro v q hq
    rcases PrefixSets.mem_insert.mp hq with ⟨-, rfl⟩ | hq
    · exact ⟨block, hone.leads⟩
    · obtain ⟨b, hb⟩ := h.stored v q hq
      exact ⟨b, (hone.walks q b).mpr (.inl hb)⟩
  · intro p q b hp hq
    by_cases hb : b = block
    · subst hb
      rw [hone.only p hp, hone.only q hq]
    · exact h.unique p q b (hone.old hb hp) (hone.old hb hq)
  · intro v q x hq hmem
    rcases PrefixSets.mem_insert.mp hmem with ⟨hv, heq⟩ | hmem
    · obtain ⟨rfl, -⟩ := List.append_inj' heq rfl
      subst hv
      exact PrefixSets.mem_insert.mpr (.inr (hin.resolve_left hq))
    · exact PrefixSets.mem_insert.mpr (.inr (h.closed v q x hq hmem))
  · intro v hmem
    rcases PrefixSets.mem_insert.mp hmem with ⟨-, heq⟩ | hmem
    · simp at heq
    · exact h.nonempty v hmem
  · intro v q hmem
    rcases PrefixSets.mem_insert.mp hmem with ⟨hv, heq⟩ | hmem
    · subst hv
      exact ⟨d.blockHash, hd.trans heq.symm⟩
    · exact h.denoted v q hmem

/-- The stored loop adds the paths of its chain, one after the other. -/
theorem Represents.storeChain (hpath : Function.Injective (path w))
    (ds : List KvCacheStoredBlockData) :
    ∀ (t : RadixTree) (S : PrefixSets) (current : BlockId) (base : List LocalBlockHash),
      Represents path t S → t.edges.walk root base = some current → (base = [] ∨ base ∈ S w) →
      Consistent (path w) base ds →
      Represents path (ds.foldl (storeBlock w) (t, current)).1
        (Function.update S w (S w ∪ {p | p ∈ chain base ds})) := by
  induction ds with
  | nil =>
    intro t S current base h _ _ _
    simpa [chain] using h
  | cons d ds ih =>
    intro t S current base h hbase hin hcons
    obtain ⟨hd, hrest⟩ := hcons
    have hs := storeBlock_stores w t current d
    obtain ⟨h', hwalk⟩ := h.stores hpath hbase hin hd hs
    have hin' : base ++ [d.tokensHash] ∈ S.insert w (base ++ [d.tokensHash]) w :=
      PrefixSets.mem_insert.mpr (.inl ⟨rfl, rfl⟩)
    have hloop := ih _ _ _ _ h' hwalk (.inr hin') hrest
    -- adding one path and then the others adds them all
    have hsets : Function.update (S.insert w (base ++ [d.tokensHash])) w
        (S.insert w (base ++ [d.tokensHash]) w ∪ {p | p ∈ chain (base ++ [d.tokensHash]) ds}) =
        Function.update S w (S w ∪ {p | p ∈ chain base (d :: ds)}) := by
      funext v
      by_cases hv : v = w
      · subst hv
        ext p
        simp only [Function.update_self, Set.mem_union, PrefixSets.mem_insert, true_and,
          Set.mem_ofPred_eq, chain, List.mem_cons]
        tauto
      · simp [PrefixSets.insert, hv]
    rw [hsets] at hloop
    exact hloop

/-- The parent of a stored event is found exactly when its path is stored. -/
theorem Represents.parentBlock (h : Represents path t S) (op : KvCacheStoreData)
    (current : BlockId) :
    t.parentBlock w op = some current ↔
      ∃ base, Base path S w op base ∧ t.edges.walk root base = some current := by
  unfold RadixTree.parentBlock Base
  cases op.parentHash with
  | none =>
    show some root = some current ↔ ∃ base, base = [] ∧ t.edges.walk root base = some current
    simp
  | some hash =>
    show (t.table w)[hash]? = some current ↔
      ∃ base, (base = path w hash ∧ base ∈ S w) ∧ t.edges.walk root base = some current
    rw [h.table]
    constructor
    · intro hcur
      exact ⟨path w hash, ⟨rfl, hcur.1⟩, hcur.2⟩
    · intro hcur
      obtain ⟨base, ⟨rfl, hmem⟩, hwalk⟩ := hcur
      exact ⟨hmem, hwalk⟩

theorem Base.stored_or_nil {op : KvCacheStoreData}
    (hb : Base path S w op base) : base = [] ∨ base ∈ S w := by
  unfold Base at hb
  split at hb
  · exact .inl hb
  · exact .inr hb.2

theorem Base.unique {op : KvCacheStoreData} {base' : List LocalBlockHash}
    (hb : Base path S w op base) (hb' : Base path S w op base') : base = base' := by
  unfold Base at hb hb'
  split at hb
  · next hnone =>
    rw [hnone] at hb'
    exact hb.trans hb'.symm
  · next hash hsome =>
    rw [hsome] at hb'
    exact hb.1.trans hb'.1.symm

/-- A stored event adds the paths of its chain, or is skipped. -/
theorem Represents.applyStored (hpath : Function.Injective (path w)) (h : Represents path t S)
    (op : KvCacheStoreData)
    (hok : ∀ base, Base path S w op base → Consistent (path w) base op.blocks) :
    Represents path (RadixTree.applyStored w t op) (S.stored path w op) := by
  unfold RadixTree.applyStored
  cases hparent : t.parentBlock w op with
  | none =>
    -- no base: a stored parent path would have led to a block
    have hnone : ∀ base, ¬ Base path S w op base := by
      intro base hbase
      have hwalk : ∃ b, t.edges.walk root base = some b := by
        rcases hbase.stored_or_nil with rfl | hmem
        · exact ⟨root, rfl⟩
        · exact h.stored w base hmem
      obtain ⟨b, hb⟩ := hwalk
      have hsome := (h.parentBlock op b).mpr ⟨base, hbase, hb⟩
      rw [hparent] at hsome
      cases hsome
    have hsets : S.stored path w op = S := by
      unfold PrefixSets.stored
      simp [hnone]
    rw [hsets]
    exact h
  | some current =>
    obtain ⟨base, hbase, hwalk⟩ := (h.parentBlock op current).mp hparent
    have hloop := h.storeChain hpath op.blocks t S current base hwalk hbase.stored_or_nil
      (hok base hbase)
    have hsets : S.stored path w op =
        Function.update S w (S w ∪ {p | p ∈ chain base op.blocks}) := by
      unfold PrefixSets.stored
      congr 2
      ext p
      constructor
      · intro hp
        obtain ⟨base', hbase', hp⟩ := hp
        rwa [hbase'.unique hbase] at hp
      · intro hp
        exact ⟨base, hbase, hp⟩
    rw [hsets]
    exact hloop

/-! ### The removed loop

    Within one removed event the sets need not be prefix-closed: a parent may
    go before its children, and then the children are cut off before they are
    removed.  So the loop is described relative to the tree `t₀` it started
    from, by the set `D` of the paths removed so far. -/

structure Pruned (path : Denotation) (S : PrefixSets) (w : WorkerId) (t₀ : RadixTree)
    (D : Set (List LocalBlockHash)) (t : RadixTree) : Prop where
  bounded : t.Bounded
  kept    : ∀ b x c, t.edges b x = some c → t₀.edges b x = some c
  lost    : ∀ b x c, t₀.edges b x = some c → t.edges b x = some c ∨
    ∃ p ∈ S w, p ∈ D ∧ t₀.edges.walk root p = some b ∧ t₀.onlyCarries w b
  carries : ∀ v b, t.carries v b = true ↔
    t₀.carries v b = true ∧ ¬ (v = w ∧ ∃ p ∈ S w, p ∈ D ∧ t₀.edges.walk root p = some b)
  table   : ∀ (hash : ExternalSequenceBlockHash) (b : BlockId), (t.table w)[hash]? = some b ↔
    (path w hash ∈ S w ∧ path w hash ∉ D) ∧ t₀.edges.walk root (path w hash) = some b
  others  : ∀ v, v ≠ w → t.table v = t₀.table v

theorem Represents.pruned_empty (h : Represents path t S) : Pruned path S w t ∅ t where
  bounded := h.bounded
  kept    := fun _ _ _ he => he
  lost    := fun _ _ _ he => .inl he
  carries := by simp
  table   := by simp [h.table]
  others  := fun _ _ => rfl

/-- Only the stored paths among the removed ones matter. -/
theorem Pruned.congr {D' : Set (List LocalBlockHash)}
    (h : Pruned path S w t₀ D t) (hD : ∀ p ∈ S w, p ∈ D' ↔ p ∈ D) : Pruned path S w t₀ D' t := by
  have hex : ∀ P : List LocalBlockHash → Prop,
      (∃ p ∈ S w, p ∈ D' ∧ P p) ↔ ∃ p ∈ S w, p ∈ D ∧ P p := by
    intro P
    constructor
    · intro hp
      obtain ⟨p, hS, hmem, hP⟩ := hp
      exact ⟨p, hS, (hD p hS).mp hmem, hP⟩
    · intro hp
      obtain ⟨p, hS, hmem, hP⟩ := hp
      exact ⟨p, hS, (hD p hS).mpr hmem, hP⟩
  constructor
  · exact h.bounded
  · exact h.kept
  · intro b x c he
    rw [hex]
    exact h.lost b x c he
  · intro v b
    rw [hex]
    exact h.carries v b
  · intro hash b
    rw [h.table]
    constructor
    · intro hb
      exact ⟨⟨hb.1.1, fun hmem => hb.1.2 ((hD _ hb.1.1).mp hmem)⟩, hb.2⟩
    · intro hb
      exact ⟨⟨hb.1.1, fun hmem => hb.1.2 ((hD _ hb.1.1).mpr hmem)⟩, hb.2⟩
  · exact h.others

/-- A hash that is not listed denotes a path that is not stored, or removed already. -/
theorem Pruned.removeHash_unknown
    (h₀ : Represents path t₀ S) (h : Pruned path S w t₀ D t) {hash : ExternalSequenceBlockHash}
    (htable : (t.table w)[hash]? = none) : Pruned path S w t₀ (insert (path w hash) D) t := by
  refine h.congr ?_
  intro p hp
  refine ⟨?_, fun hmem => Set.mem_insert_of_mem _ hmem⟩
  intro hmem
  rcases Set.mem_insert_iff.mp hmem with rfl | hmem
  · by_contra hnot
    obtain ⟨b, hb⟩ := h₀.stored w _ hp
    rw [(h.table hash b).mpr ⟨⟨hp, hnot⟩, hb⟩] at htable
    cases htable
  · exact hmem

/-- The blocks of the other workers are as they were. -/
theorem Pruned.onlyCarries_iff
    (h : Pruned path S w t₀ D t) (b : BlockId) :
    t.onlyCarries w b ↔ t₀.onlyCarries w b := by
  constructor
  · intro hold v hv
    by_contra hne
    exact hne (hold v ((h.carries v b).mpr ⟨hv, fun e => hne e.1⟩))
  · intro hold v hv
    exact hold v ((h.carries v b).mp hv).1

/-- One turn of the removed loop removes the path its hash denotes. -/
theorem Pruned.removeHash (hpath : Function.Injective (path w)) (h₀ : Represents path t₀ S)
    (h : Pruned path S w t₀ D t) (hash : ExternalSequenceBlockHash) :
    Pruned path S w t₀ (insert (path w hash) D) (removeHash w t hash) := by
  cases htable : (t.table w)[hash]? with
  | none =>
    rw [RadixTree.removeHash_unknown htable]
    exact h.removeHash_unknown h₀ htable
  | some block =>
    have hr := removeHash_removes htable
    obtain ⟨⟨hS, hD⟩, hwalk⟩ := (h.table hash block).mp htable
    constructor
    · exact hr.bounded h.bounded
    · intro b x c he
      by_cases hclear : t.onlyCarries w block
      · rw [hr.cleared hclear] at he
        exact h.kept b x c (clear_le b x c he)
      · rw [hr.kept hclear] at he
        exact h.kept b x c he
    · intro b x c he
      rcases h.lost b x c he with hstay | ⟨p, hp, hmem, hb, hown⟩
      · by_cases hclear : t.onlyCarries w block
        · rw [hr.cleared hclear]
          by_cases hb : b = block
          · subst hb
            exact .inr ⟨path w hash, hS, Set.mem_insert _ _, hwalk,
              (h.onlyCarries_iff b).mp hclear⟩
          · exact .inl (by simpa [clear, hb] using hstay)
        · rw [hr.kept hclear]
          exact .inl hstay
      · exact .inr ⟨p, hp, Set.mem_insert_of_mem _ hmem, hb, hown⟩
    · intro v b
      rw [hr.carries, h.carries]
      constructor
      · intro hv
        obtain ⟨⟨hv, hold⟩, hnew⟩ := hv
        refine ⟨hv, ?_⟩
        rintro ⟨hvw, p, hp, hmem, hb⟩
        rcases Set.mem_insert_iff.mp hmem with rfl | hmem
        · rw [hwalk] at hb
          exact hnew ⟨hvw, (Option.some.inj hb).symm⟩
        · exact hold ⟨hvw, p, hp, hmem, hb⟩
      · intro hv
        obtain ⟨hv, hnot⟩ := hv
        refine ⟨⟨hv, ?_⟩, ?_⟩
        · rintro ⟨hvw, p, hp, hmem, hb⟩
          exact hnot ⟨hvw, p, hp, Set.mem_insert_of_mem _ hmem, hb⟩
        · rintro ⟨hvw, rfl⟩
          exact hnot ⟨hvw, path w hash, hS, Set.mem_insert _ _, hwalk⟩
    · intro g b
      rw [hr.table, if_pos rfl, OrdMap.get_erase]
      by_cases hg : g = hash
      · subst hg
        simp
      · have hne : path w g ≠ path w hash := fun heq => hg (hpath heq)
        simp only [hg, if_false, h.table, Set.mem_insert_iff, hne, false_or]
    · intro v hv
      rw [hr.table, if_neg hv]
      exact h.others v hv

theorem PrefixSets.mem_removed {op : KvCacheRemoveData} :
    q ∈ S.removed path w op v ↔ q ∈ S v ∧ ¬ (v = w ∧ ∃ hash ∈ op.blockHashes, path w hash = q) := by
  unfold removed
  by_cases hv : v = w
  · subst hv
    simp
  · simp [hv]

/-- Along a path of a prefix-closed set that is still stored, every block carries
    its worker, so none was cleared. -/
theorem Pruned.walk_stays {P : Set (List LocalBlockHash)}
    (h₀ : Represents path t₀ S) (h : Pruned path S w t₀ D t) (hclosed : PrefixClosed P)
    (hP : ∀ q ∈ P, q ∈ S v ∧ ¬ (v = w ∧ q ∈ D)) (q : List LocalBlockHash) :
    (q = [] ∨ q ∈ P) → ∀ b, t₀.edges.walk root q = some b → t.edges.walk root q = some b := by
  induction q using List.reverseRecOn with
  | nil => exact fun _ _ hb => hb
  | append_singleton q x ih =>
    intro hq c hc
    have hmem : q ++ [x] ∈ P := hq.resolve_left (by simp)
    rw [walk_concat] at hc
    obtain ⟨m, hm, hedge⟩ := Option.bind_eq_some_iff.mp hc
    have hprev : q = [] ∨ q ∈ P := by
      by_cases hnil : q = []
      · exact .inl hnil
      · exact .inr (hclosed q x hnil hmem)
    rw [walk_concat, ih hprev m hm]
    rcases h.lost m x c hedge with hstay | ⟨p, hp, hD, hwalk, hown⟩
    · exact hstay
    · -- the edge was lost with the path `q`, which is still stored
      exfalso
      rw [h₀.unique p q m hwalk hm] at hp hD
      rcases hprev with rfl | hprev
      · exact h₀.nonempty w hp
      · obtain ⟨hqv, hnot⟩ := hP q hprev
        have hq0 : q ≠ [] := fun e => h₀.nonempty v (e ▸ hqv)
        have hvw : v = w := hown v ((h₀.carries v q m hq0 hm).mpr hqv)
        exact hnot ⟨hvw, hD⟩

/-- The block of a path carries the workers that still have the path. -/
theorem Pruned.carries_iff
    (h₀ : Represents path t₀ S) (h : Pruned path S w t₀ D t) (hq : q ≠ [])
    (hwalk : t₀.edges.walk root q = some b) :
    t.carries v b = true ↔ q ∈ S v ∧ ¬ (v = w ∧ q ∈ D) := by
  rw [h.carries, h₀.carries v q b hq hwalk]
  -- the block of `q` lies on no other path
  have hgone : (∃ p ∈ S w, p ∈ D ∧ t₀.edges.walk root p = some b) ↔ q ∈ S w ∧ q ∈ D := by
    constructor
    · intro hp
      obtain ⟨p, hp, hD, hb⟩ := hp
      rw [h₀.unique p q b hb hwalk] at hp hD
      exact ⟨hp, hD⟩
    · intro hq
      exact ⟨q, hq.1, hq.2, hwalk⟩
  rw [hgone]
  constructor
  · intro hv
    exact ⟨hv.1, fun e => hv.2 ⟨e.1, e.1 ▸ hv.1, e.2⟩⟩
  · intro hv
    exact ⟨hv.1, fun e => hv.2 ⟨e.1, e.2.2⟩⟩

/-- Once the remaining paths are prefix-closed again, nothing that is still stored
    was cut off. -/
theorem Represents.pruned {S' : PrefixSets}
    (h₀ : Represents path t₀ S) (h : Pruned path S w t₀ D t)
    (hS' : ∀ v q, q ∈ S' v ↔ q ∈ S v ∧ ¬ (v = w ∧ q ∈ D)) (hclosed : PrefixClosed (S' w)) :
    Represents path t S' := by
  have hclosed' : ∀ v, PrefixClosed (S' v) := by
    intro v
    by_cases hv : v = w
    · exact hv ▸ hclosed
    · intro q x hq hmem
      have hold := ((hS' v _).mp hmem).1
      exact (hS' v q).mpr ⟨h₀.closed v q x hq hold, fun e => hv e.1⟩
  have hback : ∀ q b, t.edges.walk root q = some b → t₀.edges.walk root q = some b :=
    fun q b hq => walk_mono h.kept hq
  have hsame : ∀ v q, q ∈ S' v → t.edges.walk root q = t₀.edges.walk root q := by
    intro v q hq
    obtain ⟨b, hb⟩ := h₀.stored v q ((hS' v q).mp hq).1
    rw [hb]
    exact h.walk_stays h₀ (hclosed' v) (fun q hq => (hS' v q).mp hq) q (.inr hq) b hb
  constructor
  · exact h.bounded
  · intro v hash b
    have hlisted : (t.table v)[hash]? = some b ↔
        path v hash ∈ S' v ∧ t₀.edges.walk root (path v hash) = some b := by
      by_cases hv : v = w
      · subst hv
        rw [h.table, hS' v]
        simp
      · rw [h.others v hv, h₀.table, hS' v]
        simp [hv]
    rw [hlisted]
    exact and_congr_right fun hmem => by rw [hsame v _ hmem]
  · intro v q b hq hwalk
    rw [hS' v q]
    exact h.carries_iff h₀ hq (hback q b hwalk)
  · intro v q hq
    obtain ⟨b, hb⟩ := h₀.stored v q ((hS' v q).mp hq).1
    exact ⟨b, (hsame v q hq).trans hb⟩
  · intro p q b hp hq
    exact h₀.unique p q b (hback p b hp) (hback q b hq)
  · exact hclosed'
  · intro v hmem
    exact h₀.nonempty v ((hS' v _).mp hmem).1
  · intro v q hq
    exact h₀.denoted v q ((hS' v q).mp hq).1

/-- A removed event that leaves the sets prefix-closed removes its paths. -/
theorem Represents.applyRemoved (hpath : Function.Injective (path w)) (h : Represents path t S)
    (op : KvCacheRemoveData) (hclosed : PrefixClosed (S.removed path w op w)) :
    Represents path (op.blockHashes.foldl (removeHash w) t) (S.removed path w op) := by
  have hloop : ∀ (hashes : List ExternalSequenceBlockHash) (D : Set (List LocalBlockHash))
      (t' : RadixTree), Pruned path S w t D t' →
      Pruned path S w t (D ∪ {p | ∃ hash ∈ hashes, path w hash = p})
        (hashes.foldl (removeHash w) t') := by
    intro hashes
    induction hashes with
    | nil =>
      intro D t' hpruned
      simpa using hpruned
    | cons hash hashes ih =>
      intro D t' hpruned
      refine (ih _ _ (hpruned.removeHash hpath h hash)).congr ?_
      intro p _
      simp only [Set.mem_union, Set.mem_ofPred_eq, Set.mem_insert_iff, List.mem_cons,
        exists_eq_or_imp]
      tauto
  refine h.pruned (hloop op.blockHashes ∅ t h.pruned_empty) ?_ hclosed
  intro v q
  rw [PrefixSets.mem_removed]
  simp

/-- Evicting a worker clears its set. -/
theorem Represents.removeWorker (h : Represents path t S) (w : WorkerId) :
    Represents path (t.removeWorker w) (Function.update S w ∅) := by
  have he := t.removeWorker_evicts w
  have hmem : ∀ v q, q ∈ Function.update S w ∅ v ↔ q ∈ S v ∧ v ≠ w := by
    intro v q
    by_cases hv : v = w
    · subst hv
      simp
    · simp [hv]
  constructor
  · exact he.bounded h.bounded
  · intro v hash b
    rw [he.table, he.edges, hmem]
    by_cases hv : v = w
    · simp [hv]
    · simp [hv, h.table]
  · intro v q b hq hwalk
    rw [he.edges] at hwalk
    rw [he.carries, hmem, h.carries v q b hq hwalk]
    constructor
    · intro hv
      refine ⟨hv.1, ?_⟩
      intro hvw
      subst hvw
      -- a stored path is denoted by a hash, and the table lists it
      obtain ⟨hash, hhash⟩ := h.denoted v q hv.1
      exact hv.2 ⟨rfl, hash, (h.table v hash b).mpr ⟨hhash ▸ hv.1, hhash ▸ hwalk⟩⟩
    · intro hv
      exact ⟨hv.1, fun e => hv.2 e.1⟩
  · intro v q hq
    rw [he.edges]
    exact h.stored v q ((hmem v q).mp hq).1
  · rw [he.edges]
    exact h.unique
  · intro v q x hq hq'
    obtain ⟨hold, hv⟩ := (hmem v _).mp hq'
    exact (hmem v q).mpr ⟨h.closed v q x hq hold, hv⟩
  · intro v hq
    exact h.nonempty v ((hmem v _).mp hq).1
  · intro v q hq
    exact h.denoted v q ((hmem v q).mp hq).1

/-- Every admissible operation keeps the tree and the sets together. -/
theorem Represents.apply (hpath : ∀ w, Function.Injective (path w)) (h : Represents path t S)
    (op : Op) (hok : Admissible path S op) : Represents path (t.apply op) (S.apply path op) := by
  cases op with
  | applyEvent e =>
    obtain ⟨w, data⟩ := e
    cases data with
    | stored op => exact (h.touch w).applyStored (hpath w) op hok
    | removed op => exact (h.touch w).applyRemoved (hpath w) op hok
  | removeWorker w => exact h.removeWorker w
  | findMatches now p earlyExit =>
    have hsame := findMatchesFrom_sameIndex now earlyExit p t root {}
    exact h.congr (h.bounded.sameIndex hsame) hsame.edges hsame.carries hsame.table

/-- Along every run the tree represents the sets. -/
theorem Tracks.represents (hpath : ∀ w, Function.Injective (path w))
    {expirationDuration : Option Int} (h : Tracks path expirationDuration t S) :
    Represents path t S := by
  induction h with
  | init => exact represents_init path expirationDuration
  | step op _ hok ih => exact ih.apply hpath op hok

/-! ### Scores -/

theorem Represents.held (h : Represents path t S) (hp : p ≠ []) :
    t.held w p = true ↔ p ∈ S w := by
  rw [RadixTree.held, marked_iff]
  constructor
  · intro hb
    obtain ⟨b, hwalk, hcarries⟩ := hb
    exact (h.carries w p b hp hwalk).mp hcarries
  · intro hmem
    obtain ⟨b, hb⟩ := h.stored w p hmem
    exact ⟨b, hb, (h.carries w p b hp hb).mpr hmem⟩

theorem Represents.score (h : Represents path t S) (now : Int) (p : List LocalBlockHash)
    (w : WorkerId) :
    (t.findMatches now p false).1.score w =
      UInt32.ofNat (longestPrefix (S w) p) := by
  rw [score_findMatches,
    visits_eq_longestPrefix (fun q hq => h.held hq) (h.closed w)]

end simulation

/-- The score of a worker is the length of the longest prefix of the sequence
    whose non-empty prefixes it has all stored, as a 32-bit number: it is that
    length exactly when fewer than `2 ^ 32` leading blocks match. -/
theorem score_eq_longestPrefix {path : Denotation} (hpath : ∀ w, Function.Injective (path w))
    {expirationDuration : Option Int} {t : RadixTree} {S : PrefixSets}
    (hrun : Tracks path expirationDuration t S) (now : Int) (p : List LocalBlockHash)
    (w : WorkerId) :
    (t.findMatches now p false).1.score w = UInt32.ofNat (EdgeGraph.longestPrefix (S w) p) ∧
      (((t.findMatches now p false).1.score w).toNat = EdgeGraph.longestPrefix (S w) p ↔
        EdgeGraph.longestPrefix (S w) p < 2 ^ 32) := by
  have hscore := (hrun.represents hpath).score now p w
  refine ⟨hscore, ?_⟩
  rw [hscore, UInt32.toNat_ofNat']
  constructor
  · intro heq
    rw [← heq]
    exact Nat.mod_lt _ (by decide)
  · exact Nat.mod_eq_of_lt

/-! ## A chain of equal blocks

    One worker stores a chain of `n` blocks whose token hashes are all 0, under
    the engine hashes 0, 1, 2 and so on. -/

/-- The engine hash `k` stands for the first `k + 1` blocks. -/
def countPath : Denotation := fun _ hash => List.replicate (hash.toNat + 1) 0

/-- The blocks from the `k`-th on. -/
def countBlocks : Nat → Nat → List KvCacheStoredBlockData
  | _, 0 => []
  | k, n + 1 => ⟨UInt64.ofNat k, 0⟩ :: countBlocks (k + 1) n

def countStore (n : Nat) : Op := .applyEvent ⟨1, .stored ⟨none, countBlocks 0 n⟩⟩

def countTree (n : Nat) : RadixTree := RadixTree.apply { expirationDuration := none } (countStore n)

def countSets (n : Nat) : PrefixSets := PrefixSets.apply countPath (fun _ => ∅) (countStore n)

theorem countPath_injective (w : WorkerId) : Function.Injective (countPath w) := by
  intro a b h
  have hlen := congrArg List.length h
  simp only [countPath, List.length_replicate, Nat.add_right_cancel_iff] at hlen
  exact UInt64.toNat_inj.mp hlen

theorem countBlocks_consistent (w : WorkerId) (n : Nat) :
    ∀ k, k + n ≤ 2 ^ 64 → Consistent (countPath w) (List.replicate k 0) (countBlocks k n) := by
  induction n with
  | zero => exact fun _ _ => trivial
  | succ n ih =>
    intro k hk
    have hmod : k % 2 ^ 64 = k := Nat.mod_eq_of_lt (by omega)
    refine ⟨?_, ?_⟩
    · simp only [countPath, UInt64.toNat_ofNat', hmod, List.replicate_succ']
    · have hrest := ih (k + 1) (by omega)
      rwa [List.replicate_succ'] at hrest

theorem mem_chain_countBlocks (n : Nat) (p : List LocalBlockHash) :
    ∀ k, p ∈ chain (List.replicate k 0) (countBlocks k n) ↔
      ∃ j, k < j ∧ j ≤ k + n ∧ p = List.replicate j 0 := by
  induction n with
  | zero =>
    intro k
    simp only [countBlocks, chain, List.not_mem_nil, false_iff]
    rintro ⟨j, hj, hj', -⟩
    omega
  | succ n ih =>
    intro k
    have hrest := ih (k + 1)
    rw [List.replicate_succ'] at hrest
    simp only [countBlocks, chain, List.mem_cons, hrest]
    constructor
    · intro hp
      rcases hp with rfl | ⟨j, hj, hj', rfl⟩
      · exact ⟨k + 1, by omega, by omega, List.replicate_succ'.symm⟩
      · exact ⟨j, by omega, by omega, rfl⟩
    · intro hp
      obtain ⟨j, hj, hj', rfl⟩ := hp
      rcases Nat.lt_or_ge (k + 1) j with hlt | hge
      · exact .inr ⟨j, hlt, by omega, rfl⟩
      · have heq : j = k + 1 := by omega
        exact .inl (by rw [heq, List.replicate_succ'])

theorem countTracks {n : Nat} (hn : n ≤ 2 ^ 64) :
    Tracks countPath none (countTree n) (countSets n) := by
  refine .step (countStore n) .init ?_
  intro base hbase
  have hnil : base = [] := hbase
  rw [hnil]
  exact countBlocks_consistent 1 n 0 (by omega)

theorem mem_countSets (n : Nat) (p : List LocalBlockHash) :
    p ∈ countSets n 1 ↔ ∃ j, 0 < j ∧ j ≤ n ∧ p = List.replicate j 0 := by
  have hchain := mem_chain_countBlocks n p 0
  rw [Nat.zero_add] at hchain
  rw [← hchain]
  simp [countSets, countStore, PrefixSets.apply, PrefixSets.stored, Base]

theorem longestPrefix_countSets (n : Nat) :
    longestPrefix (countSets n 1) (List.replicate n 0) = n := by
  rw [longestPrefix_eq_iff, List.length_replicate]
  refine ⟨Nat.le_refl n, ?_, fun h => absurd h (Nat.lt_irrefl n)⟩
  intro j hj hjn
  rw [List.take_replicate, Nat.min_eq_left hjn]
  exact (mem_countSets n _).mpr ⟨j, hj, hjn, rfl⟩

/-- Three blocks stored, a query of four. -/
theorem countScore_three :
    ((countTree 3).findMatches 0 [0, 0, 0, 0] false).1.score 1 = 3 ∧
      ((countTree 3).findMatches 0 [0, 0, 0, 0] false).1.score 1 =
        UInt32.ofNat (EdgeGraph.longestPrefix (countSets 3 1) [0, 0, 0, 0]) :=
  ⟨by decide,
    (score_eq_longestPrefix countPath_injective (countTracks (by decide)) 0 [0, 0, 0, 0] 1).1⟩

/-- After a chain of `2 ^ 32` blocks, the query for all of them scores 0. -/
theorem countScore_wraps :
    (∀ w, Function.Injective (countPath w)) ∧
      Tracks countPath none (countTree (2 ^ 32)) (countSets (2 ^ 32)) ∧
      EdgeGraph.longestPrefix (countSets (2 ^ 32) 1) (List.replicate (2 ^ 32) 0) = 2 ^ 32 ∧
      ((countTree (2 ^ 32)).findMatches 0 (List.replicate (2 ^ 32) 0) false).1.score 1 = 0 := by
  have htracks : Tracks countPath none (countTree (2 ^ 32)) (countSets (2 ^ 32)) :=
    countTracks (by decide)
  refine ⟨countPath_injective, htracks, longestPrefix_countSets _, ?_⟩
  rw [(htracks.represents countPath_injective).score, longestPrefix_countSets]
  decide

end DynamoCpp.Llm.KvRouter
