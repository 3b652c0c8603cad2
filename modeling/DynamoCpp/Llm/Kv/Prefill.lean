import DynamoCpp.Llm.Kv.Matching
import DynamoCpp.Llm.TokenSequence

/-! # The match of a prefill

    `prepare_prefill_sequence` cuts a request into blocks and consumes them from the
    front: first the blocks that are inflight, then the ones that are parked.  A parked
    block is registered on the way.  If its hash has been registered by another request,
    the registry gives out that registration instead, with the same hash.
-/

namespace DynamoCpp.Llm.Kv

open Framework ReservedBlocks

namespace ReservedBlocks

/-- The sequence hash of the block behind a `ReservedBlock`, while it is held. -/
def sequenceHash? (r : ReservedBlocks) (i : InnerId) : Option SequenceHash :=
  match r.inners[i]? with
  | none => none
  | some inner =>
    if inner.useCount = 0 then none else inner.block.block?.map (·.tokenBlock.sequenceHash)

section matching

variable {r : ReservedBlocks} {i j : InnerId} {hash : SequenceHash}

/-- A further reference changes nothing that a match reads. -/
theorem find_acquire (hlive : r.expired i = false) : (r.acquire i).find = r.find := by
  have hexpired : ∀ j, (r.acquire i).expired j = r.expired j := by
    intro j
    rw [expired_eq, expired_eq, life_acquire hlive]
  funext hash
  unfold find
  simp only [hexpired]
  rfl

theorem sequenceHash?_acquire (hlive : r.expired i = false) (j : InnerId) :
    (r.acquire i).sequenceHash? j = r.sequenceHash? j := by
  unfold sequenceHash? acquire setUseCount
  rw [List.getElem?_modify]
  by_cases hij : i = j
  · subst hij
    cases hinner : r.inners[i]? with
    | none => rfl
    | some inner =>
      have hcount : inner.useCount ≠ 0 := by simpa [expired, hinner] using hlive
      simp [hcount]
  · cases r.inners[j]? <;> simp [hij]

/-- The references of the longest prefix of hashes that are live. -/
theorem matchSequenceHashes_spec (hashes : List SequenceHash) :
    ∀ r : ReservedBlocks,
      IsLongestPrefix (fun p => ∀ hash ∈ p, (r.find hash).isSome = true) hashes
        (r.matchSequenceHashes hashes).1.length ∧
      (r.matchSequenceHashes hashes).1.map some =
        (hashes.take (r.matchSequenceHashes hashes).1.length).map r.find ∧
      ∀ j, (r.matchSequenceHashes hashes).2.sequenceHash? j = r.sequenceHash? j := by
  induction hashes with
  | nil => exact fun r => ⟨isLongestPrefix_nil (by simp), rfl, fun _ => rfl⟩
  | cons hash hashes ih =>
    intro r
    unfold matchSequenceHashes
    split
    · next hnone =>
      refine ⟨isLongestPrefix_zero (by simp) fun p hp => ?_, rfl, fun _ => rfl⟩
      have hlive := hp hash List.mem_cons_self
      rw [hnone] at hlive
      cases hlive
    · next i hfind =>
      have hlive := (find_eq_some.mp hfind).2
      obtain ⟨hlongest, hinners, hsame⟩ := ih (r.acquire i)
      rw [find_acquire hlive] at hlongest hinners
      refine ⟨hlongest.cons fun p => ?_, ?_, fun j => ?_⟩
      · rw [List.forall_mem_cons, hfind]
        simp
      · rw [List.map_cons, List.length_cons, List.take_succ_cons, List.map_cons, hfind, hinners]
      · exact (hsame j).trans (sequenceHash?_acquire hlive j)

end matching

end ReservedBlocks

namespace KvStorageManager

variable {m m' : KvStorageManager} {blockSize : Nat}

/-- The two invariants of the registry. -/
structure Registered (m : KvStorageManager) : Prop where
  settled  : m.Settled
  labelled : m.Labelled

theorem Steps.registered (hsteps : Steps m m') (h : Registered m) : Registered m' := by
  induction hsteps with
  | refl => exact h
  | tail _ hlast ih => exact ⟨hlast.settled ih.settled, hlast.labelled ih.labelled⟩

/-- What the registry finds for a hash is a block with that hash. -/
theorem Registered.sequenceHash_of_find (h : Registered m) {hash : SequenceHash} {i : InnerId}
    (hfind : m.inflightBlocks.find hash = some i) :
    m.inflightBlocks.sequenceHash? i = some hash := by
  obtain ⟨hentry, hlive⟩ := find_eq_some.mp hfind
  rcases h.settled.entry hash i hentry with hlife | ⟨-, hdying⟩
  · -- the entry is alive, and its inner has the block it was registered with
    obtain ⟨inner, hinner, heq⟩ := Option.map_eq_some_iff.mp hlife
    obtain ⟨hhash, hcount⟩ := Prod.mk.inj heq
    have hinner : m.inflightBlocks.inners[i]? = some inner := hinner
    have hheld : inner.useCount ≠ 0 := by simpa using hcount
    unfold ReservedBlocks.sequenceHash?
    rw [hinner, ← hhash]
    dsimp only
    rw [if_neg hheld]
    exact h.labelled inner (List.mem_of_getElem? hinner) hheld
  · cases hdying

/-- The references that a match returns have the hashes that were asked for. -/
theorem Registered.matchSequenceHashes (h : Registered m) (hashes : List SequenceHash) :
    (m.inflightBlocks.matchSequenceHashes hashes).1.map
        (m.inflightBlocks.matchSequenceHashes hashes).2.sequenceHash? =
      (hashes.take (m.inflightBlocks.matchSequenceHashes hashes).1.length).map some := by
  obtain ⟨hlongest, hinners, hsame⟩ :=
    matchSequenceHashes_spec hashes m.inflightBlocks
  generalize m.inflightBlocks.matchSequenceHashes hashes = r at hlongest hinners hsame
  calc r.1.map r.2.sequenceHash?
      = (r.1.map some).map (·.bind m.inflightBlocks.sequenceHash?) := by
        rw [List.map_map]
        exact List.map_congr_left fun i _ => hsame i
    _ = (hashes.take r.1.length).map some := by
        rw [hinners, List.map_map]
        refine List.map_congr_left fun hash hmem => ?_
        obtain ⟨i, hi⟩ := Option.isSome_iff_exists.mp (hlongest.holds hash hmem)
        rw [Function.comp_apply, hi]
        exact h.sequenceHash_of_find hi

/-! ## Registering what was parked -/

/-- A block of the right size is registered under its hash, or exchanged for one
    with that hash. -/
theorem registerBlock_spec (h : Registered m) {block : InsertedBlock}
    (hsize : block.tokenBlock.tokens.length = blockSize) :
    ∃ i, (m.registerBlock blockSize (.owning block)).1 = .ok i ∧
      (m.registerBlock blockSize (.owning block)).2.inflightBlocks.sequenceHash? i =
        some block.tokenBlock.sequenceHash ∧
      ∀ (j : InnerId) (hash : SequenceHash), m.inflightBlocks.sequenceHash? j = some hash →
        (m.registerBlock blockSize (.owning block)).2.inflightBlocks.sequenceHash? j =
          some hash := by
  cases hfind : m.inflightBlocks.find block.tokenBlock.sequenceHash with
  | some i =>
    -- the hash is inflight: the parked block goes back to the pool
    have hlive := (find_eq_some.mp hfind).2
    have hregister : m.registerBlock blockSize (.owning block) =
        (.ok i,
          { m with inflightBlocks := m.inflightBlocks.acquire i }.release (.owning block)) := by
      simp [registerBlock, UniqueBlock.block?, hsize, hfind]
    rw [hregister]
    refine ⟨i, rfl, ?_, fun j hash hj => ?_⟩
    · exact (ReservedBlocks.sequenceHash?_acquire hlive i).trans (h.sequenceHash_of_find hfind)
    · exact (ReservedBlocks.sequenceHash?_acquire hlive j).trans hj
  | none =>
    have hregister : m.registerBlock blockSize (.owning block) =
        (.ok m.inflightBlocks.inners.length,
          { m with
            inflightBlocks :=
              { inners := m.inflightBlocks.inners ++
                  [⟨.owning block, block.tokenBlock.sequenceHash, 1⟩]
                map := m.inflightBlocks.map.insert block.tokenBlock.sequenceHash
                  m.inflightBlocks.inners.length } }) := by
      simp [registerBlock, UniqueBlock.block?, hsize, hfind]
    rw [hregister]
    refine ⟨_, rfl, ?_, fun j hash hj => ?_⟩
    · unfold ReservedBlocks.sequenceHash?
      rw [List.getElem?_concat_length]
      rfl
    · unfold ReservedBlocks.sequenceHash? at hj ⊢
      split at hj
      · cases hj
      · next inner hinner =>
        rw [List.getElem?_append_left (List.getElem?_eq_some_iff.mp hinner).1, hinner]
        exact hj

/-- All blocks are promoted, behind the ones that were inflight. -/
theorem promote_spec (reusable : List InsertedBlock)
    (hsizes : ∀ b ∈ reusable, b.tokenBlock.tokens.length = blockSize) :
    ∀ {inflight : List InnerId} {m : KvStorageManager} {hashes : List SequenceHash},
      Registered m → inflight.map m.inflightBlocks.sequenceHash? = hashes.map some →
      ∃ out, (promote blockSize reusable inflight m).1 = .ok out ∧
        out.map (promote blockSize reusable inflight m).2.inflightBlocks.sequenceHash? =
          (hashes ++ reusable.map (·.tokenBlock.sequenceHash)).map some := by
  induction reusable with
  | nil =>
    intro inflight m hashes _ hinflight
    refine ⟨inflight, rfl, ?_⟩
    rw [List.map_nil, List.append_nil]
    exact hinflight
  | cons block reusable ih =>
    intro inflight m hashes h hinflight
    obtain ⟨hsize, hsizes⟩ := List.forall_mem_cons.mp hsizes
    obtain ⟨i, hok, hnew, hkept⟩ := registerBlock_spec h hsize
    have hafter := (m.registerBlock_steps blockSize (.owning block)).registered h
    unfold promote
    generalize m.registerBlock blockSize (.owning block) = r at hok hnew hkept hafter
    obtain ⟨result, m'⟩ := r
    obtain rfl : result = .ok i := hok
    have hextended : (inflight ++ [i]).map m'.inflightBlocks.sequenceHash? =
        (hashes ++ [block.tokenBlock.sequenceHash]).map some := by
      rw [List.map_append, List.map_append, ← hinflight, List.map_singleton, List.map_singleton,
        hnew]
      -- what was inflight keeps its hash when one more block is registered
      refine congrArg (· ++ _) (List.map_congr_left fun j hj => ?_)
      have hmem : m.inflightBlocks.sequenceHash? j ∈ hashes.map some :=
        hinflight ▸ List.mem_map_of_mem hj
      obtain ⟨hash, -, heq⟩ := List.mem_map.mp hmem
      rw [← heq]
      exact hkept j hash heq.symm
    obtain ⟨out, hout, hhashes⟩ := ih hsizes hafter hextended
    refine ⟨out, hout, hhashes.trans ?_⟩
    rw [List.append_assoc, List.map_cons]
    rfl

/-- Inflight blocks are matched first, then parked ones, each as far as possible. -/
theorem matchPrefill_spec (h : Registered m) (hindexed : m.availableBlocks.Indexed)
    (hsizes : ∀ (hash : SequenceHash) (b : InsertedBlock),
      m.availableBlocks.lookupMap[hash]? = some b → b.tokenBlock.tokens.length = blockSize)
    (blocks : List TokenBlock) :
    ∃ j r out, (m.matchPrefill blockSize blocks).1 = .ok out ∧
      IsLongestPrefix (fun p => ∀ hash ∈ p, (m.inflightBlocks.find hash).isSome = true)
        (blocks.map (·.sequenceHash)) j ∧
      IsLongestPrefix m.availableBlocks.Matchable ((blocks.drop j).map (·.sequenceHash)) r ∧
      out.map (m.matchPrefill blockSize blocks).2.inflightBlocks.sequenceHash? =
        (blocks.take (j + r)).map (fun b => some b.sequenceHash) := by
  have hinflight := h.matchSequenceHashes (blocks.map (·.sequenceHash))
  obtain ⟨hlive, -, -⟩ := matchSequenceHashes_spec (blocks.map (·.sequenceHash))
    m.inflightBlocks
  have hmatched := (matchSequenceHashes_steps (blocks.map (·.sequenceHash)) m).registered h
  unfold matchPrefill matchTokenBlocks AvailableBlocksState.matchTokenBlocks
  generalize m.inflightBlocks.matchSequenceHashes _ = inflight at hinflight hlive hmatched
  -- the pool is asked for what the registry has left
  have hstep := AvailableBlocksState.matchBlocks_step m.availableBlocks
    ((blocks.drop inflight.1.length).map (·.sequenceHash))
  obtain ⟨r, hr⟩ := m.availableBlocks.matchBlocks_matched
    ((blocks.drop inflight.1.length).map (·.sequenceHash))
  have hblocks : ∀ b ∈ (m.availableBlocks.matchBlocks
      ((blocks.drop inflight.1.length).map (·.sequenceHash))).1,
      b.tokenBlock.tokens.length = blockSize := by
    intro b hb
    obtain ⟨hash, -, hlookup⟩ := hr.lookup_of_mem hb
    exact hsizes hash b hlookup
  have hready : Registered ⟨(m.availableBlocks.matchBlocks
      ((blocks.drop inflight.1.length).map (·.sequenceHash))).2, inflight.2⟩ :=
    Steps.registered (.single (Step.pool (m := ⟨m.availableBlocks, inflight.2⟩) hstep)) hmatched
  obtain ⟨out, hok, hout⟩ := promote_spec _ hblocks hready hinflight
  refine ⟨inflight.1.length, r, out, hok, hlive, hr.longest, hout.trans ?_⟩
  rw [hr.map_hash hindexed, ← List.map_take, ← List.map_take, ← List.map_append, ← List.take_add,
    List.map_map]
  rfl

end KvStorageManager

namespace World

open KvStorageManager

/-- `prepare_prefill_sequence` cuts the request into full blocks and a shorter tail.
    In a manager whose filed blocks have the size of a block it matches the longest
    prefix of blocks that are inflight and then the longest run of distinct parked
    ones.  The inflight blocks that it returns have the hashes of that prefix, in
    order; the other blocks and the tail remain. -/
theorem prefill_partitions {setup : Setup} {w : World} (hreach : (storage setup).Reachable w)
    (hsize : 0 < setup.blockSize)
    (hparked : ∀ (hash : SequenceHash) (b : InsertedBlock), w.pool.lookupMap[hash]? = some b →
      b.tokenBlock.tokens.length = setup.blockSize) (tokens : List Token) :
    ∃ blocks tail matched m j r,
      splitTokens setup.computeHash tokens setup.blockSize = (blocks, tail) ∧
      (blocks.map (·.tokens)).flatten ++ tail.tokens = tokens ∧
      (∀ b ∈ blocks, b.tokens.length = setup.blockSize) ∧
      tail.tokens.length < setup.blockSize ∧
      w.manager.preparePrefillSequence setup tokens = (.ok matched, m) ∧
      IsLongestPrefix (fun p => ∀ b ∈ p,
        (w.manager.inflightBlocks.find b.sequenceHash).isSome = true) blocks j ∧
      IsLongestPrefix (fun p => w.pool.Matchable (p.map (·.sequenceHash))) (blocks.drop j) r ∧
      matched.inflightBlocks.length = j + r ∧
      matched.inflightBlocks.map m.inflightBlocks.sequenceHash? =
        (blocks.take (j + r)).map (fun b => some b.sequenceHash) ∧
      matched.remainingBlocks = blocks.drop (j + r) ∧
      matched.tailBlock = tail := by
  have hregistered : Registered w.manager :=
    ⟨settled_of_reachable hreach, labelled_of_reachable hreach⟩
  obtain ⟨hsplit, -⟩ := TokenSequence.ofTokens_represents setup.computeHash hsize tokens
  unfold TokenSequence.ofTokens at hsplit
  obtain ⟨j, r, out, hok, hlive, hfiled, hout⟩ := matchPrefill_spec hregistered
    (pool_indexed hreach) hparked (splitTokens setup.computeHash tokens setup.blockSize).1
  unfold preparePrefillSequence
  dsimp only
  generalize splitTokens setup.computeHash tokens setup.blockSize = split at *
  generalize w.manager.matchPrefill setup.blockSize split.1 = result at *
  obtain ⟨answer, m⟩ := result
  obtain rfl : answer = .ok out := hok
  -- the two prefixes lie one behind the other in the request
  have hfits : j + r ≤ split.1.length := by
    have hfirst := hlive.le
    have hnext := hfiled.le
    rw [List.length_map] at hfirst hnext
    rw [List.length_drop] at hnext
    omega
  have hlength : out.length = j + r := by
    have hlengths := congrArg List.length hout
    rwa [List.length_map, List.length_map, List.length_take, Nat.min_eq_left hfits] at hlengths
  refine ⟨split.1, split.2, ⟨out, split.1.drop out.length, split.2⟩, m, j, r, rfl, hsplit.history,
    hsplit.full, hsplit.tail, rfl, ?_, hfiled.of_map, hlength, hout,
    congrArg split.1.drop hlength, rfl⟩
  exact hlive.of_map.congr fun p => List.forall_mem_map

end World

/-- Blocks of one token, hashed by a sum of bytes. -/
def sumSetup : Setup := ⟨fun bytes => bytes.foldl (fun hash b => hash + UInt64.ofNat b.toNat) 1, 1⟩

/-- Of a request for the tokens 1, 2 and 3, the first block is inflight and the second parked. -/
def sharedRun : List Op :=
  [.insert { tokenBlock := { tokens := [1], sequenceHash := 2 } }, .matchBlocks [2],
    .registerBlock 0, .insert { tokenBlock := { tokens := [2], sequenceHash := 6 } }]

theorem sharedRun_runs : ((storage sumSetup).run sharedRun).isSome = true := rfl

theorem sharedRun_partitioned :
    ∃ w matched m, (storage sumSetup).run sharedRun = some w ∧
      w.manager.preparePrefillSequence sumSetup [1, 2, 3] = (.ok matched, m) ∧
      (matched.inflightBlocks, matched.remainingBlocks.map (·.tokens), matched.tailBlock.tokens) =
        ([0, 1], [[3]], []) ∧
      ∃ blocks tail j r, splitTokens sumSetup.computeHash [1, 2, 3] 1 = (blocks, tail) ∧
        matched.inflightBlocks.length = j + r ∧ matched.remainingBlocks = blocks.drop (j + r) := by
  have hrun := (Option.some_get sharedRun_runs).symm
  have hsizes : ∀ entry ∈
      (((storage sumSetup).run sharedRun).get sharedRun_runs).pool.lookupMap.toList,
      entry.2.tokenBlock.tokens.length = 1 := by decide
  obtain ⟨blocks, tail, matched, m, j, r, hsplit, -, -, -, hok, -, -, hlength, -, hrest, -⟩ :=
    World.prefill_partitions (.of_run hrun) (by decide)
      (fun hash b hb => hsizes (hash, b) (Std.ExtTreeMap.mem_toList_iff_getElem?_eq_some.mpr hb))
      [1, 2, 3]
  refine ⟨_, matched, m, hrun, hok, ?_, blocks, tail, j, r, hsplit, hlength, hrest⟩
  cases hok
  decide

end DynamoCpp.Llm.Kv
