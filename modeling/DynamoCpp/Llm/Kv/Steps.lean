import DynamoCpp.Llm.Kv.History
import DynamoCpp.Llm.Kv.Registration
import Mathlib.Logic.Relation

/-! # The steps of the manager

    Whatever clients call, the pool and the registry change in few ways: a step of the
    pool, a further reference to a live inner, the destruction of a reference, and a new
    registration.  What each of these keeps holds in every reachable world.
-/

namespace DynamoCpp.Llm.Kv

open Framework ReservedBlocks Registry.Sound

namespace KvStorageManager

/-- One change of the pool or of the registry. -/
inductive Step (m : KvStorageManager) : KvStorageManager → Prop where
  | pool {into : Option InsertedBlock} {queued : List Nat} {pool : AvailableBlocksState} :
      AvailableBlocksState.Step m.availableBlocks into queued pool →
      Step m { m with availableBlocks := pool }
  | acquire {i : InnerId} : m.inflightBlocks.expired i = false →
      Step m { m with inflightBlocks := m.inflightBlocks.acquire i }
  | drop (i : InnerId) : Step m (m.drop i)
  | register {block : UniqueBlock} {b : KvBlock} : block.block? = some b →
      m.inflightBlocks.find b.tokenBlock.sequenceHash = none →
      Step m
        { m with
          inflightBlocks :=
            { inners := m.inflightBlocks.inners ++ [⟨block, b.tokenBlock.sequenceHash, 1⟩]
              map := m.inflightBlocks.map.insert b.tokenBlock.sequenceHash
                m.inflightBlocks.inners.length } }

def Steps : KvStorageManager → KvStorageManager → Prop := Relation.ReflTransGen Step

section steps

variable {total : UInt64} {m m' : KvStorageManager}

theorem release_steps (m : KvStorageManager) (block : UniqueBlock) : Steps m (m.release block) := by
  cases block with
  | empty => exact .refl
  | moved shell => exact .refl
  | owning block => exact .single (.pool (.returns block))

theorem releaseAll_steps (blocks : List InsertedBlock) : ∀ m, Steps m (m.releaseAll blocks) := by
  induction blocks with
  | nil => exact fun m => .refl
  | cons block blocks ih => exact fun m => (release_steps m (.owning block)).trans (ih _)

theorem dropAll_steps (inners : List InnerId) : ∀ m, Steps m (m.dropAll inners) := by
  induction inners with
  | nil => exact fun m => .refl
  | cons i inners ih => exact fun m => (Relation.ReflTransGen.single (.drop i)).trans (ih _)

theorem matchSequenceHashes_steps (hashes : List SequenceHash) :
    ∀ m : KvStorageManager, Steps m
      { m with inflightBlocks := (m.inflightBlocks.matchSequenceHashes hashes).2 } := by
  induction hashes with
  | nil => exact fun m => .refl
  | cons hash hashes ih =>
    intro m
    unfold matchSequenceHashes
    split
    · exact .refl
    · next i hfind =>
      have hlive := (find_eq_some.mp hfind).2
      exact (Relation.ReflTransGen.single (.acquire hlive)).trans
        (ih { m with inflightBlocks := m.inflightBlocks.acquire i })

theorem registerBlock_steps (m : KvStorageManager) (blockSize : Nat) (block : UniqueBlock) :
    Steps m (m.registerBlock blockSize block).2 := by
  unfold registerBlock
  split
  · exact release_steps m block
  · next b hb =>
    split
    · exact release_steps m block
    · dsimp only
      split
      · next i hfind =>
        have hlive := (find_eq_some.mp hfind).2
        exact (Relation.ReflTransGen.single (.acquire hlive)).trans (release_steps _ block)
      · next hfind => exact .single (.register hb hfind)

theorem promote_steps (blockSize : Nat) (reusable : List InsertedBlock) :
    ∀ inflight m, Steps m (promote blockSize reusable inflight m).2 := by
  induction reusable with
  | nil => exact fun _ m => .refl
  | cons block reusable ih =>
    intro inflight m
    have hfirst := m.registerBlock_steps blockSize (.owning block)
    unfold promote
    generalize m.registerBlock blockSize (.owning block) = r at hfirst
    obtain ⟨result, m'⟩ := r
    cases result with
    | error e =>
      exact (hfirst.trans (releaseAll_steps reusable m')).trans (dropAll_steps inflight _)
    | ok i => exact hfirst.trans (ih _ m')

theorem matchPrefill_steps (m : KvStorageManager) (blockSize : Nat) (blocks : List TokenBlock) :
    Steps m (m.matchPrefill blockSize blocks).2 := by
  have hinflight := matchSequenceHashes_steps (blocks.map (·.sequenceHash)) m
  -- the registry, then the pool, then the registration of what the pool gave
  exact (hinflight.tail (.pool (AvailableBlocksState.matchBlocks_step m.availableBlocks _))).trans
    (promote_steps blockSize _ _ _)

theorem preparePrefillSequence_steps (m : KvStorageManager) (setup : Setup) (tokens : List Token) :
    Steps m (m.preparePrefillSequence setup tokens).2 := by
  rw [preparePrefillSequence_snd]
  exact m.matchPrefill_steps setup.blockSize _

theorem preparePrefillOffload_steps (h : Sound total m) (matched : PrefillMatched) :
    Steps m (m.preparePrefillOffload matched).2 := by
  have htake : Steps m { m with availableBlocks := (m.availableBlocks.takeBlocks
      (UInt32.ofNat matched.remainingBlocks.length + 1)).2 } :=
    .single (.pool (.narrows (AvailableBlocksState.takeBlocks_narrows h.pool _)))
  unfold preparePrefillOffload
  generalize m.availableBlocks.takeBlocks _ = r at htake
  obtain ⟨result, pool⟩ := r
  cases result with
  | error e => exact htake.trans (dropAll_steps _ _)
  | ok blocksToReuse =>
    dsimp only
    split
    · -- too few: what was taken returns, and the argument goes
      exact (htake.trans (releaseAll_steps _ _)).trans (dropAll_steps _ _)
    · split <;> exact htake.trans (releaseAll_steps _ _)

end steps

/-! ## What the steps keep -/

section kept

variable {m m' : KvStorageManager}

/-- In between two calls no destructor is pending. -/
def Settled (m : KvStorageManager) : Prop := Registry.Sound ⟨m, []⟩

theorem Settled.drop (h : m.Settled) (i : InnerId) : (m.drop i).Settled := by
  cases hinner : m.inflightBlocks.inners[i]? with
  | none =>
    rwa [drop_none hinner]
  | some inner =>
    rw [drop_eq hinner]
    split
    · next hlast =>
      -- the last reference: its destructor runs before anyone else does something
      have hgone := (expire h hinner hlast).destroyInner List.mem_cons_self
      rwa [List.erase_cons_head] at hgone
    · next hmore =>
      have hsame : ∀ j, (m.inflightBlocks.setUseCount i (· - 1)).life j =
          m.inflightBlocks.life j := by
        refine fun j => life_setUseCount fun other hother => ?_
        cases hinner.symm.trans hother
        omega
      exact congr h rfl hsame rfl

theorem Step.settled (hstep : Step m m') (h : m.Settled) : m'.Settled := by
  cases hstep with
  | pool hpool => exact congr h rfl (fun _ => rfl) rfl
  | acquire hlive =>
    exact congr h rfl (fun _ => life_acquire hlive) rfl
  | drop i => exact h.drop i
  | register hb hfind => exact append h hfind rfl rfl rfl

/-- An inner that is held has a block, with the hash that it is registered under. -/
def Labelled (m : KvStorageManager) : Prop :=
  ∀ inner ∈ m.inflightBlocks.inners, inner.useCount ≠ 0 →
    inner.block.block?.map (·.tokenBlock.sequenceHash) = some inner.sequenceHash

theorem Labelled.setUseCount (h : m.Labelled) {i : InnerId} {f : Nat → Nat}
    (hf : ∀ inner, m.inflightBlocks.inners[i]? = some inner → f inner.useCount ≠ 0 →
      inner.useCount ≠ 0) :
    Labelled { m with inflightBlocks := m.inflightBlocks.setUseCount i f } := by
  intro inner hinner hlive
  cases hold : m.inflightBlocks.inners[i]? with
  | none =>
    have hsame : m.inflightBlocks.setUseCount i f = m.inflightBlocks := by
      unfold ReservedBlocks.setUseCount
      rw [List.modify_eq_set_getElem?, hold]
      rfl
    exact h inner (hsame ▸ hinner) hlive
  | some old =>
    rw [setUseCount_eq hold] at hinner
    rcases List.mem_or_eq_of_mem_set hinner with hmem | rfl
    · exact h inner hmem hlive
    · exact h old (List.mem_of_getElem? hold) (hf old hold hlive)

theorem Labelled.drop (h : m.Labelled) (i : InnerId) : (m.drop i).Labelled := by
  cases hinner : m.inflightBlocks.inners[i]? with
  | none =>
    rwa [drop_none hinner]
  | some inner =>
    by_cases hlast : inner.useCount = 1
    · intro other hother hlive
      rw [(drop_last hinner hlast).2] at hother
      rcases List.mem_or_eq_of_mem_set hother with hmem | rfl
      · exact h other hmem hlive
      · exact absurd rfl hlive
    · rw [drop_more hinner hlast]
      exact h.setUseCount fun _ _ _ => by omega

theorem Step.labelled (hstep : Step m m') (h : m.Labelled) : m'.Labelled := by
  cases hstep with
  | pool hpool => exact h
  | acquire hlive =>
    -- only what is held gets a further reference
    refine h.setUseCount fun inner hinner _ => ?_
    simpa [expired, hinner] using hlive
  | drop i => exact h.drop i
  | @register block b hb hfind =>
    intro inner hinner hlive
    rcases List.mem_append.mp hinner with hold | hnew
    · exact h inner hold hlive
    · -- the hash is read off the block
      rw [List.mem_singleton.mp hnew, hb]
      rfl

end kept

end KvStorageManager

/-! ## Reachable worlds -/

namespace World

variable {setup : Setup} {w w' : World}

/-- Every call is a number of steps. -/
theorem exec_steps {op : Op} (hsound : w.Sound) (hexec : w.exec setup op = some w') :
    KvStorageManager.Steps w.manager w'.manager := by
  by_cases hop : op.ofPool = true
  · -- one step of the pool, with the registry as it was
    obtain ⟨hstep, hinflight⟩ := exec_poolStep setup hsound hop hexec
    have hpool := KvStorageManager.Step.pool hstep
    rw [← hinflight] at hpool
    exact .single hpool
  cases op with
  | registerBlock handle =>
    obtain ⟨b, -, hexec⟩ := Option.bind_eq_some_iff.mp hexec
    cases hexec
    exact w.manager.registerBlock_steps setup.blockSize b
  | matchSequenceHashes hashes =>
    cases hexec
    exact KvStorageManager.matchSequenceHashes_steps hashes w.manager
  | matchInflightTokenBlocks tokenBlocks =>
    cases hexec
    exact KvStorageManager.matchSequenceHashes_steps _ w.manager
  | copyReserved inner =>
    obtain ⟨hholds, rfl⟩ := enabled hexec
    -- the client has a reference to copy
    obtain ⟨i, hinner, hlive⟩ := live_of_holds hholds
    exact .single (.acquire (by simp [expired, hinner, hlive]))
  | dropReserved inner =>
    obtain ⟨-, rfl⟩ := enabled hexec
    exact .single (.drop inner)
  | preparePrefillSequence tokens =>
    cases hexec
    exact w.manager.preparePrefillSequence_steps setup tokens
  | preparePrefillOffload matched =>
    obtain ⟨-, rfl⟩ := enabled hexec
    have hsteps := KvStorageManager.preparePrefillOffload_steps hsound matched
    unfold preparePrefillOffload
    split
    · next e m hr => rwa [hr] at hsteps
    · next offload m hr => rwa [hr] at hsteps
  | _ => exact absurd rfl hop

theorem steps_of_reachable (hreach : (storage setup).Reachable w) :
    KvStorageManager.Steps {} w.manager := by
  induction hreach with
  | init => exact .refl
  | step op hreach hexec ih => exact ih.trans (exec_steps (held_of_reachable hreach).1 hexec)

/-- What the empty manager has and every step keeps. -/
theorem manager_invariant {P : KvStorageManager → Prop} (hreach : (storage setup).Reachable w)
    (hinit : P {}) (hstep : ∀ {m m'}, KvStorageManager.Step m m' → P m → P m') : P w.manager := by
  have hsteps : Relation.ReflTransGen _ {} w.manager := steps_of_reachable hreach
  generalize w.manager = m at hsteps
  induction hsteps with
  | refl => exact hinit
  | tail _ hlast ih => exact hstep hlast ih

theorem settled_of_reachable (hreach : (storage setup).Reachable w) : w.manager.Settled :=
  manager_invariant hreach Registry.sound_init fun hstep => hstep.settled

theorem labelled_of_reachable (hreach : (storage setup).Reachable w) : w.manager.Labelled :=
  manager_invariant hreach (by intro inner h; cases h) fun hstep => hstep.labelled

end World

end DynamoCpp.Llm.Kv
