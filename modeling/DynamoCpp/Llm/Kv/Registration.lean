import DynamoCpp.Llm.Kv.Conservation

/-! # The registry under concurrent destruction

    The last `ReservedBlock` of an inner goes in one step: from then on the weak
    reference of the registry is expired.  The destructor of the inner takes the
    mutex of the registry later.  Until it does, other threads may register the
    same hash again, drop the new inner as well, and so on.  The destructor
    removes the entry of its hash only if that entry is expired, so whichever
    destructor comes first cleans up, and a live registration stays.
-/

namespace DynamoCpp.Llm.Kv

open Framework ReservedBlocks

/-! ## Steps -/

namespace KvStorageManager

/-- One `ReservedBlock` of the inner goes; its destructor is not part of the step. -/
def dropHandle (m : KvStorageManager) (i : InnerId) : KvStorageManager :=
  { m with inflightBlocks := m.inflightBlocks.setUseCount i (· - 1) }

/-- `~ReservedBlockInner`: the locked erase, then the members. -/
def destroyInner (m : KvStorageManager) (i : InnerId) : KvStorageManager :=
  match m.inflightBlocks.inners[i]? with
  | none => m
  | some inner =>
    destroyMembers { m with inflightBlocks := m.inflightBlocks.eraseExpired inner.sequenceHash } i

/-- Without a step in between, the two are the destruction of a `ReservedBlock`. -/
theorem drop_eq {m : KvStorageManager} {i : InnerId} {inner : ReservedBlockInner}
    (hinner : m.inflightBlocks.inners[i]? = some inner) :
    m.drop i =
      if inner.useCount = 1 then (m.dropHandle i).destroyInner i else m.dropHandle i := by
  have hlt : i < m.inflightBlocks.inners.length := (List.getElem?_eq_some_iff.mp hinner).1
  have hdropped : (m.inflightBlocks.setUseCount i (· - 1)).inners[i]? =
      some { inner with useCount := inner.useCount - 1 } := by
    rw [setUseCount_eq hinner, List.getElem?_set_self hlt]
  simp only [drop, hinner, dropHandle, destroyInner, hdropped]

end KvStorageManager

/-- A manager, and the inners whose destructor has yet to take the mutex. -/
structure Registry where
  manager : KvStorageManager := {}
  dying   : List InnerId := []

/-- What a thread does in one step. -/
inductive Registry.Step where
  | registerBlock (block : UniqueBlock)
  | matchSequenceHashes (hashes : List SequenceHash)
  | copyReserved (inner : InnerId)
  | dropReserved (inner : InnerId)
  | destroyInner (inner : InnerId)

namespace Registry

def inflight (s : Registry) : ReservedBlocks := s.manager.inflightBlocks

def exec (blockSize : Nat) (s : Registry) : Step → Option Registry
  | .registerBlock block =>
    some { s with manager := (s.manager.registerBlock blockSize block).2 }
  | .matchSequenceHashes hashes =>
    some { s with manager := { s.manager with
      inflightBlocks := (s.inflight.matchSequenceHashes hashes).2 } }
  | .copyReserved i =>
    -- there is a `ReservedBlock` to copy
    if s.inflight.expired i then none
    else some { s with manager := { s.manager with inflightBlocks := s.inflight.acquire i } }
  | .dropReserved i =>
    match s.inflight.inners[i]? with
    | none => none
    | some inner =>
      if inner.useCount = 0 then none
      else
        some ⟨s.manager.dropHandle i, if inner.useCount = 1 then i :: s.dying else s.dying⟩
  | .destroyInner i =>
    if i ∈ s.dying then some ⟨s.manager.destroyInner i, s.dying.erase i⟩ else none

end Registry

/-- A registry from its construction on, with any number of threads. -/
def registry (blockSize : Nat) : System Registry Registry.Step where
  init := {}
  exec := Registry.exec blockSize

/-! ## What is alive -/

namespace ReservedBlocks

/-- The hash of the inner, and whether its last `ReservedBlock` is gone. -/
def life (r : ReservedBlocks) (i : InnerId) : Option (SequenceHash × Bool) :=
  (r.inners[i]?).map fun inner => (inner.sequenceHash, inner.useCount == 0)

section life

variable {r : ReservedBlocks} {i j : InnerId} {hash : SequenceHash}

theorem expired_eq (r : ReservedBlocks) (i : InnerId) :
    r.expired i = (r.life i).all (·.2) := by
  unfold expired life
  cases r.inners[i]? <;> rfl

theorem find_eq_some :
    r.find hash = some i ↔ r.map[hash]? = some i ∧ r.expired i = false := by
  unfold find
  cases r.map[hash]? with
  | none => simp
  | some k =>
    cases hk : r.expired k with
    | true =>
      simp only [hk, if_true, reduceCtorEq, Option.some.injEq, false_iff, not_and]
      rintro rfl
      simp [hk]
    | false =>
      simp only [hk, Bool.false_eq_true, if_false, Option.some.injEq]
      constructor
      · rintro rfl
        exact ⟨rfl, hk⟩
      · exact fun h => h.1

/-- Counting what stays alive, or dead, changes nothing here. -/
theorem life_setUseCount {f : Nat → Nat}
    (hf : ∀ inner, r.inners[i]? = some inner → (f inner.useCount = 0 ↔ inner.useCount = 0)) :
    (r.setUseCount i f).life j = r.life j := by
  unfold life setUseCount
  rw [List.getElem?_modify]
  by_cases hij : i = j
  · subst hij
    cases hinner : r.inners[i]? with
    | none => rfl
    | some inner =>
      have hzero := hf inner hinner
      simp only [if_true, Option.map_eq_map, Option.map_some, Option.some.injEq, Prod.mk.injEq,
        true_and]
      rw [Bool.eq_iff_iff, beq_iff_eq, beq_iff_eq]
      exact hzero
  · cases r.inners[j]? <;> simp [hij]

theorem life_acquire (hlive : r.expired i = false) : (r.acquire i).life j = r.life j := by
  refine life_setUseCount ?_
  intro inner hinner
  have hcount : inner.useCount ≠ 0 := by simpa [expired, hinner] using hlive
  constructor
  · intro h
    omega
  · exact fun h => absurd h hcount

/-- A match takes further references to what is alive. -/
theorem matchSequenceHashes_same (hashes : List SequenceHash) :
    ∀ r : ReservedBlocks, (r.matchSequenceHashes hashes).2.map = r.map ∧
      ∀ j, (r.matchSequenceHashes hashes).2.life j = r.life j := by
  induction hashes with
  | nil => exact fun _ => ⟨rfl, fun _ => rfl⟩
  | cons hash hashes ih =>
    intro r
    unfold matchSequenceHashes
    split
    · exact ⟨rfl, fun _ => rfl⟩
    · next i hfind =>
      obtain ⟨hmap, hlife⟩ := ih (r.acquire i)
      exact ⟨hmap, fun j => (hlife j).trans (life_acquire (find_eq_some.mp hfind).2)⟩

/-- The locked erase. -/
theorem getElem?_eraseExpired (r : ReservedBlocks) (hash h : SequenceHash) :
    (r.eraseExpired hash).map[h]? =
      if h = hash ∧ (r.map[hash]?).all r.expired = true then none else r.map[h]? := by
  unfold eraseExpired
  split
  · next hnone =>
    rw [hnone]
    split
    · next hcond => rw [hcond.1, hnone]
    · rfl
  · next k hk =>
    rw [hk, Option.all_some]
    by_cases hexp : r.expired k = true
    · rw [if_pos hexp, OrdMap.get_erase]
      simp only [hexp, and_true]
    · simp [hexp]

theorem inners_eraseExpired (r : ReservedBlocks) (hash : SequenceHash) :
    (r.eraseExpired hash).inners = r.inners := by
  unfold eraseExpired
  split
  · rfl
  · split <;> rfl

end life

end ReservedBlocks

/-- A destructor changes the map, and takes the block of its inner. -/
theorem KvStorageManager.destroyInner_inflight {m : KvStorageManager} {i : InnerId}
    {inner : ReservedBlockInner} (hinner : m.inflightBlocks.inners[i]? = some inner) :
    (m.destroyInner i).inflightBlocks.map =
        (m.inflightBlocks.eraseExpired inner.sequenceHash).map ∧
      (m.destroyInner i).inflightBlocks.inners =
        m.inflightBlocks.inners.set i { inner with block := .empty } := by
  simp only [destroyInner, hinner, destroyMembers, inners_eraseExpired, and_self]

/-! ## The invariant -/

/-- The registry refers to what is alive, and to nothing that is destroyed. -/
structure Registry.Sound (s : Registry) : Prop where
  dying : ∀ i ∈ s.dying, ∃ hash, s.inflight.life i = some (hash, true)
  /-- An entry is alive, or its destructor is still to come. -/
  entry : ∀ (hash : SequenceHash) (i : InnerId), s.inflight.map[hash]? = some i →
    s.inflight.life i = some (hash, false) ∨
      (s.inflight.life i = some (hash, true) ∧ i ∈ s.dying)
  /-- What is alive is registered. -/
  live  : ∀ (i : InnerId) (hash : SequenceHash), s.inflight.life i = some (hash, false) →
    s.inflight.map[hash]? = some i

namespace Registry

section steps

variable {s s' : Registry}

theorem sound_init : Sound {} where
  dying := by simp
  entry := by simp [inflight]
  live := by simp [inflight, ReservedBlocks.life]

/-- The invariant depends on the map, on what is alive and on what is dying. -/
theorem Sound.congr (h : s.Sound) (hmap : s'.inflight.map = s.inflight.map)
    (hlife : ∀ i, s'.inflight.life i = s.inflight.life i) (hdying : s'.dying = s.dying) :
    s'.Sound where
  dying := by
    intro i hi
    rw [hlife]
    exact h.dying i (hdying ▸ hi)
  entry := by
    intro hash i hi
    rw [hlife, hdying]
    exact h.entry hash i (hmap ▸ hi)
  live := by
    intro i hash hi
    rw [hmap]
    exact h.live i hash (hlife i ▸ hi)

/-- The registry finds what is alive. -/
theorem Sound.find_eq (h : s.Sound) {i : InnerId} {hash : SequenceHash}
    (hlive : s.inflight.life i = some (hash, false)) : s.inflight.find hash = some i := by
  refine find_eq_some.mpr ⟨h.live i hash hlive, ?_⟩
  rw [expired_eq, hlive]
  rfl

/-- A new inner is made only for a hash that has no live one. -/
theorem Sound.append (h : s.Sound) {hash : SequenceHash} {block : UniqueBlock}
    (hfind : s.inflight.find hash = none)
    (hinners : s'.inflight.inners = s.inflight.inners ++ [⟨block, hash, 1⟩])
    (hmap : s'.inflight.map = s.inflight.map.insert hash s.inflight.inners.length)
    (hdying : s'.dying = s.dying) : s'.Sound := by
  have hold : ∀ {i x}, s.inflight.life i = some x → s'.inflight.life i = some x := by
    intro i x hx
    obtain ⟨inner, hinner, heq⟩ := Option.map_eq_some_iff.mp hx
    have hlt : i < s.inflight.inners.length := (List.getElem?_eq_some_iff.mp hinner).1
    unfold life
    rw [hinners, List.getElem?_append_left hlt, hinner, Option.map_some, heq]
  have hnew : s'.inflight.life s.inflight.inners.length = some (hash, false) := by
    unfold life
    rw [hinners, List.getElem?_concat_length]
    rfl
  constructor
  · intro i hi
    obtain ⟨x, hx⟩ := h.dying i (hdying ▸ hi)
    exact ⟨x, hold hx⟩
  · intro k i hi
    rw [hmap] at hi
    rcases OrdMap.get_of_insert hi with ⟨rfl, rfl⟩ | hi
    · exact .inl hnew
    · rw [hdying]
      exact (h.entry k i hi).imp hold fun hdead => ⟨hold hdead.1, hdead.2⟩
  · intro i k hi
    rw [hmap, OrdMap.get_insert]
    rcases Nat.lt_or_ge i s.inflight.inners.length with hlt | hge
    · -- an old inner that is alive has another hash: its own is found
      have hlive : s.inflight.life i = some (k, false) := by
        unfold life at hi ⊢
        rwa [hinners, List.getElem?_append_left hlt] at hi
      have hne : k ≠ hash := by
        rintro rfl
        rw [h.find_eq hlive] at hfind
        cases hfind
      rw [if_neg hne]
      exact h.live i k hlive
    · obtain rfl : i = s.inflight.inners.length := by
        obtain ⟨inner, hinner, -⟩ := Option.map_eq_some_iff.mp hi
        have hlt := (List.getElem?_eq_some_iff.mp hinner).1
        rw [hinners, List.length_append, List.length_singleton] at hlt
        exact Nat.le_antisymm (Nat.lt_succ_iff.mp hlt) hge
      rw [hnew] at hi
      cases hi
      simp

theorem Sound.registerBlock (h : s.Sound) (blockSize : Nat) (block : UniqueBlock) :
    Sound { s with manager := (s.manager.registerBlock blockSize block).2 } := by
  unfold KvStorageManager.registerBlock
  split
  · exact h.congr rfl (fun _ => rfl) rfl
  · next b hb =>
    split
    · exact h.congr rfl (fun _ => rfl) rfl
    · dsimp only
      split
      · next i hfind =>
        have hlive := (find_eq_some.mp hfind).2
        exact h.congr rfl (fun _ => life_acquire hlive) rfl
      · next hfind => exact h.append hfind rfl rfl rfl

/-- The last `ReservedBlock` of `i` goes: its entry is expired, and its destructor to come. -/
theorem Sound.expire (h : s.Sound) {i : InnerId} {inner : ReservedBlockInner}
    (hinner : s.inflight.inners[i]? = some inner) (hlast : inner.useCount = 1) :
    Sound ⟨s.manager.dropHandle i, i :: s.dying⟩ := by
  have hself : s.inflight.life i = some (inner.sequenceHash, false) := by
    simp [life, hinner, hlast]
  have hlife : ∀ j, (s.inflight.setUseCount i (· - 1)).life j =
      if j = i then some (inner.sequenceHash, true) else s.inflight.life j := by
    intro j
    have hlt : i < s.inflight.inners.length := (List.getElem?_eq_some_iff.mp hinner).1
    unfold life
    rw [setUseCount_eq hinner, List.getElem?_set]
    by_cases hij : j = i
    · subst hij
      simp [hlt, hlast]
    · simp [Ne.symm hij, hij]
  constructor
  · intro j hj
    show ∃ hash, (s.inflight.setUseCount i (· - 1)).life j = some (hash, true)
    rw [hlife]
    rcases List.mem_cons.mp hj with rfl | hj
    · exact ⟨inner.sequenceHash, if_pos rfl⟩
    · split
      · exact ⟨_, rfl⟩
      · exact h.dying j hj
  · intro hash j hj
    show (s.inflight.setUseCount i (· - 1)).life j = _ ∨
      ((s.inflight.setUseCount i (· - 1)).life j = _ ∧ _)
    rw [hlife]
    by_cases hij : j = i
    · subst hij
      have hhash : hash = inner.sequenceHash := by
        rcases h.entry hash j hj with hl | hl
        · rw [hself] at hl
          exact (congrArg Prod.fst (Option.some.inj hl)).symm
        · rw [hself] at hl
          exact (congrArg Prod.fst (Option.some.inj hl.1)).symm
      exact .inr ⟨by rw [if_pos rfl, hhash], List.mem_cons_self⟩
    · rw [if_neg hij]
      exact (h.entry hash j hj).imp_right fun hl => ⟨hl.1, List.mem_cons_of_mem _ hl.2⟩
  · intro j hash hj
    have hj : (s.inflight.setUseCount i (· - 1)).life j = some (hash, false) := hj
    rw [hlife] at hj
    split at hj
    · cases hj
    · exact h.live j hash hj

/-- A destructor removes an expired entry, whoever it belongs to, and none that is alive. -/
theorem Sound.destroyInner (h : s.Sound) {i : InnerId} (hi : i ∈ s.dying) :
    Sound ⟨s.manager.destroyInner i, s.dying.erase i⟩ := by
  obtain ⟨hash, hself⟩ := h.dying i hi
  obtain ⟨inner, hinner, heq⟩ := Option.map_eq_some_iff.mp hself
  have hhash : inner.sequenceHash = hash := congrArg Prod.fst heq
  have hmap : (s.manager.destroyInner i).inflightBlocks.map =
      (s.inflight.eraseExpired hash).map := by
    rw [← hhash]
    exact (KvStorageManager.destroyInner_inflight hinner).1
  have hinners : (s.manager.destroyInner i).inflightBlocks.inners =
      s.inflight.inners.set i { inner with block := .empty } :=
    (KvStorageManager.destroyInner_inflight hinner).2
  have hlife : ∀ j, (s.manager.destroyInner i).inflightBlocks.life j = s.inflight.life j := by
    intro j
    have hlt : i < s.inflight.inners.length := (List.getElem?_eq_some_iff.mp hinner).1
    unfold life
    rw [hinners]
    by_cases hij : i = j
    · subst hij
      rw [List.getElem?_set_self hlt, hinner]
      rfl
    · rw [List.getElem?_set_ne hij]
  constructor
  · intro j hj
    obtain ⟨x, hx⟩ := h.dying j (List.mem_of_mem_erase hj)
    exact ⟨x, (hlife j).trans hx⟩
  · intro k j hentry
    have hj : (s.manager.destroyInner i).inflightBlocks.map[k]? = some j := hentry
    rw [hmap, ReservedBlocks.getElem?_eraseExpired] at hj
    split at hj
    · cases hj
    · next hkeep =>
      show (s.manager.destroyInner i).inflightBlocks.life j = _ ∨
        ((s.manager.destroyInner i).inflightBlocks.life j = _ ∧ _)
      rw [hlife]
      rcases h.entry k j hj with hl | ⟨hl, hmem⟩
      · exact .inl hl
      · refine .inr ⟨hl, (List.mem_erase_of_ne ?_).mpr hmem⟩
        -- the expired entry of the inner itself is the one that goes
        rintro rfl
        rw [hself] at hl
        cases hl
        refine hkeep ⟨rfl, ?_⟩
        have hj : s.inflight.map[hash]? = some j := hj
        rw [hj, Option.all_some, expired_eq, hself]
        rfl
  · intro j k hj
    have hj : (s.manager.destroyInner i).inflightBlocks.life j = some (k, false) := hj
    rw [hlife] at hj
    show (s.manager.destroyInner i).inflightBlocks.map[k]? = some j
    rw [hmap, ReservedBlocks.getElem?_eraseExpired, if_neg]
    · exact h.live j k hj
    · rintro ⟨rfl, hexp⟩
      rw [h.live j k hj, Option.all_some, expired_eq, hj] at hexp
      cases hexp

/-- Every step of every thread keeps the invariant. -/
theorem Sound.step {blockSize : Nat} (h : s.Sound) (l : Step)
    (hexec : (registry blockSize).exec s l = some s') : s'.Sound := by
  change exec blockSize s l = some s' at hexec
  cases l with
  | registerBlock block =>
    cases hexec
    exact h.registerBlock blockSize block
  | matchSequenceHashes hashes =>
    cases hexec
    obtain ⟨hmap, hlife⟩ := matchSequenceHashes_same hashes s.inflight
    exact h.congr hmap hlife rfl
  | copyReserved i =>
    obtain ⟨hlive, rfl⟩ := not_blocked hexec
    exact h.congr rfl (fun _ => life_acquire (by simpa using hlive)) rfl
  | dropReserved i =>
    simp only [exec] at hexec
    split at hexec
    · cases hexec
    · next inner hinner =>
      obtain ⟨hlive, rfl⟩ := not_blocked hexec
      by_cases hlast : inner.useCount = 1
      · rw [if_pos hlast]
        exact h.expire hinner hlast
      · rw [if_neg hlast]
        have hsame : ∀ j, (s.inflight.setUseCount i (· - 1)).life j = s.inflight.life j := by
          intro j
          refine life_setUseCount ?_
          intro other hother
          rw [hinner] at hother
          cases hother
          omega
        exact h.congr rfl hsame rfl
  | destroyInner i =>
    obtain ⟨hi, rfl⟩ := enabled hexec
    exact h.destroyInner hi

end steps

/-! ## One live registration per hash -/

/-- The inner has the hash, and a `ReservedBlock` holds it. -/
def Alive (s : Registry) (i : InnerId) (hash : SequenceHash) : Prop :=
  ∃ inner, s.inflight.inners[i]? = some inner ∧ inner.sequenceHash = hash ∧ inner.useCount ≠ 0

/-- The destructor of the inner has run. -/
def Destroyed (s : Registry) (i : InnerId) : Prop :=
  (∃ inner, s.inflight.inners[i]? = some inner ∧ inner.useCount = 0) ∧ i ∉ s.dying

theorem alive_iff {s : Registry} {i : InnerId} {hash : SequenceHash} :
    s.Alive i hash ↔ s.inflight.life i = some (hash, false) := by
  simp only [Alive, life, Option.map_eq_some_iff, Prod.mk.injEq, beq_eq_false_iff_ne]

/-- In every interleaving, at most one inner of a hash is alive.  If there is one,
    the registry refers to it: another block of the hash is exchanged for it, and a
    match finds it.  If all inners of a hash are destroyed, it has no entry. -/
theorem one_live_registration {blockSize : Nat} {s : Registry}
    (hs : (registry blockSize).Reachable s) (hash : SequenceHash) :
    (∀ i j, s.Alive i hash → s.Alive j hash → i = j) ∧
    (∀ i, s.Alive i hash → s.inflight.map[hash]? = some i ∧
      (s.inflight.matchSequenceHashes [hash]).1 = [i] ∧
      ∀ block b, block.block? = some b → b.tokenBlock.tokens.length = blockSize →
        b.tokenBlock.sequenceHash = hash → (s.manager.registerBlock blockSize block).1 = .ok i) ∧
    ((∀ i inner, s.inflight.inners[i]? = some inner → inner.sequenceHash = hash →
        s.Destroyed i) → s.inflight.map[hash]? = none) := by
  have h : s.Sound := hs.invariant sound_init fun _ l _ hsound hexec => hsound.step l hexec
  refine ⟨?_, ?_, ?_⟩
  · intro i j hi hj
    have hmap := h.live i hash (alive_iff.mp hi)
    rw [h.live j hash (alive_iff.mp hj)] at hmap
    exact (Option.some.inj hmap).symm
  · intro i hi
    have hfind := h.find_eq (alive_iff.mp hi)
    refine ⟨h.live i hash (alive_iff.mp hi), ?_, ?_⟩
    · simp [matchSequenceHashes, hfind]
    · intro block b hb hlen hhash
      have hfind' : s.manager.inflightBlocks.find b.tokenBlock.sequenceHash = some i := by
        rw [hhash]
        exact hfind
      simp [KvStorageManager.registerBlock, hb, hlen, hfind']
  · intro hall
    rw [Option.eq_none_iff_forall_ne_some]
    intro i hi
    -- an entry is alive or still dying, and so not destroyed
    rcases h.entry hash i hi with hlive | ⟨hdead, hdying⟩
    · obtain ⟨inner, hinner, hhash, hcount⟩ := alive_iff.mpr hlive
      obtain ⟨⟨other, hother, hzero⟩, -⟩ := hall i inner hinner hhash
      rw [hinner] at hother
      cases hother
      exact hcount hzero
    · obtain ⟨inner, hinner, heq⟩ := Option.map_eq_some_iff.mp hdead
      exact (hall i inner hinner (congrArg Prod.fst heq)).2 hdying

/-- The first inner of hash 5 expires, the hash is registered again, and only then
    the destructor of the first one runs. -/
def overlapRun : List Step :=
  [.registerBlock (.owning ⟨{ tokenBlock := { tokens := [7], sequenceHash := 5 } }, 0⟩),
    .dropReserved 0,
    .registerBlock (.owning ⟨{ tokenBlock := { tokens := [7], sequenceHash := 5 } }, 1⟩),
    .destroyInner 0]

theorem overlapRun_runs : ((registry 1).run overlapRun).isSome = true := rfl

theorem overlapRun_registered :
    let s := ((registry 1).run overlapRun).get overlapRun_runs
    s.Alive 1 5 ∧ s.Destroyed 0 ∧ s.inflight.map[(5 : SequenceHash)]? = some 1 := by
  have halive : (((registry 1).run overlapRun).get overlapRun_runs).Alive 1 5 :=
    ⟨_, rfl, rfl, by decide⟩
  exact ⟨halive, ⟨⟨_, rfl, rfl⟩, by decide⟩,
    ((one_live_registration (System.Reachable.of_run_isSome overlapRun_runs) 5).2.1 1 halive).1⟩

end Registry

end DynamoCpp.Llm.Kv
