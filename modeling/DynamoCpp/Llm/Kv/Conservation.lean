import DynamoCpp.Llm.Kv.Manager
import DynamoCpp.Llm.Kv.Parked

/-! # Blocks are neither lost nor duplicated

    A block that was inserted is parked in the pool, owned by a handle of a
    client, owned by the handle of an inflight block, or detached.  Every
    operation of the manager, whether it succeeds or throws, is a transfer
    between these places: what leaves one of them arrives at another.
-/

namespace DynamoCpp.Llm.Kv

open Framework AvailableBlocksState KvStorageManager ReservedBlocks

/-! ## What handles and inners own -/

/-- The block that the destructor of the handle will return. -/
def UniqueBlock.owned : UniqueBlock → Multiset Nat
  | .empty => 0
  | .moved _ => 0
  | .owning block => {block.id}

@[simp] theorem UniqueBlock.owned_moveFrom (h : UniqueBlock) : h.moveFrom.owned = 0 := by
  cases h <;> rfl

theorem UniqueBlock.owned_write {h h' : UniqueBlock} {b : KvBlock} (hw : h.write b = some h') :
    h'.owned = h.owned := by
  cases h <;> cases hw <;> rfl

theorem sum_map_owning (blocks : List InsertedBlock) :
    ((blocks.map UniqueBlock.owning).map UniqueBlock.owned).sum = ids blocks := by
  rw [List.map_map, ← sum_map_ids]
  rfl

/-- The block of an inner that has not been destroyed. -/
def ReservedBlockInner.owned (inner : ReservedBlockInner) : Multiset Nat :=
  if inner.useCount = 0 then 0 else inner.block.owned

/-- The blocks of the live inners. -/
def ReservedBlocks.registered (r : ReservedBlocks) : Multiset Nat :=
  (r.inners.map ReservedBlockInner.owned).sum

theorem ReservedBlocks.find_live {r : ReservedBlocks} {hash : SequenceHash} {i : InnerId}
    (h : r.find hash = some i) : ∃ inner, r.inners[i]? = some inner ∧ inner.useCount ≠ 0 := by
  unfold find at h
  split at h
  · cases h
  · split at h
    · cases h
    · next hlive =>
      cases h
      unfold expired at hlive
      split at hlive
      · exact absurd rfl hlive
      · next inner hinner => exact ⟨inner, hinner, by simpa using hlive⟩

theorem ReservedBlocks.setUseCount_eq {r : ReservedBlocks} {i : InnerId}
    {inner : ReservedBlockInner} (h : r.inners[i]? = some inner) (f : Nat → Nat) :
    r.setUseCount i f =
      { r with inners := r.inners.set i { inner with useCount := f inner.useCount } } := by
  unfold setUseCount
  rw [List.modify_eq_set_getElem?, h]
  rfl

namespace KvStorageManager

/-- The blocks that the pool and the registry hold. -/
def held (m : KvStorageManager) : Multiset Nat :=
  m.availableBlocks.parked + m.inflightBlocks.registered

/-- The pool is sound, and destroyed inners have no block. -/
structure Sound (total : UInt64) (m : KvStorageManager) : Prop where
  pool      : m.availableBlocks.Sound total
  destroyed : ∀ inner ∈ m.inflightBlocks.inners, inner.useCount = 0 → inner.block = .empty

section operations

variable {total : UInt64} {m : KvStorageManager}

/-- An operation of the pool, seen by the manager. -/
theorem pool_transfer (h : Sound total m) {pool : AvailableBlocksState} {into out : Multiset Nat}
    (hpool : Transfer (AvailableBlocksState.Sound total) parked
      m.availableBlocks into out pool) :
    Transfer (Sound total) held m into out { m with availableBlocks := pool } :=
  hpool.lift ⟨hpool.keeps, h.destroyed⟩ rfl rfl

theorem release_transfer (h : Sound total m) (block : UniqueBlock) :
    Transfer (Sound total) held m block.owned 0 (m.release block) := by
  cases block with
  | empty => exact .refl h
  | moved shell => exact .refl h
  | owning block => exact pool_transfer h (returnBlock_transfer h.pool block)

theorem releaseAll_transfer (h : Sound total m) (blocks : List InsertedBlock) :
    Transfer (Sound total) held m (ids blocks) 0 (m.releaseAll blocks) := by
  have hloop := Transfer.foldl (fun _ block hm => release_transfer hm (.owning block)) blocks m h
  rw [← sum_map_ids]
  exact hloop

variable {i : InnerId} {inner : ReservedBlockInner}

/-- Counting the holders of an inner up or down, as long as it stays alive or dead. -/
theorem setUseCount_transfer (h : Sound total m)
    (hinner : m.inflightBlocks.inners[i]? = some inner) {f : Nat → Nat}
    (hf : f inner.useCount = 0 ↔ inner.useCount = 0) :
    Transfer (Sound total) held m 0 0
      { m with inflightBlocks := m.inflightBlocks.setUseCount i f } := by
  rw [setUseCount_eq hinner]
  refine ⟨⟨h.pool, ?_⟩, ?_⟩
  · intro other hother hzero
    rcases List.mem_or_eq_of_mem_set hother with hmem | rfl
    · exact h.destroyed other hmem hzero
    · exact h.destroyed inner (List.mem_of_getElem? hinner) (hf.mp hzero)
  · have howned : ({ inner with useCount := f inner.useCount } : ReservedBlockInner).owned =
        inner.owned := by
      simp only [ReservedBlockInner.owned, hf]
    have hsum := sum_map_set (f := ReservedBlockInner.owned)
      (x := { inner with useCount := f inner.useCount }) hinner
    rw [howned] at hsum
    simp only [held, registered, add_right_cancel hsum]

theorem acquire_transfer (h : Sound total m) {hash : SequenceHash}
    (hfind : m.inflightBlocks.find hash = some i) :
    Transfer (Sound total) held m 0 0 { m with inflightBlocks := m.inflightBlocks.acquire i } := by
  obtain ⟨inner, hinner, hlive⟩ := find_live hfind
  exact setUseCount_transfer h hinner (by omega)

theorem matchSequenceHashes_transfer (hashes : List SequenceHash) :
    ∀ m, Sound total m → Transfer (Sound total) held m 0 0
      { m with inflightBlocks := (m.inflightBlocks.matchSequenceHashes hashes).2 } := by
  induction hashes with
  | nil => exact fun m h => .refl h
  | cons hash hashes ih =>
    intro m h
    unfold matchSequenceHashes
    split
    · exact .refl h
    · next i hfind =>
      have hfirst := acquire_transfer h hfind
      exact hfirst.trans (ih _ hfirst.keeps)

/-! ## Dropping and registering -/

/-- The last holder of an inner goes, and its block returns to the pool. -/
theorem drop_last
    (hinner : m.inflightBlocks.inners[i]? = some inner) (hlast : inner.useCount = 1) :
    (m.drop i).availableBlocks = inner.block.release m.availableBlocks ∧
      (m.drop i).inflightBlocks.inners =
        m.inflightBlocks.inners.set i ⟨.empty, inner.sequenceHash, 0⟩ := by
  have hlt : i < m.inflightBlocks.inners.length := (List.getElem?_eq_some_iff.mp hinner).1
  have hinners : ∀ r : ReservedBlocks, (r.eraseExpired inner.sequenceHash).inners = r.inners := by
    intro r
    unfold eraseExpired
    split
    · rfl
    · split <;> rfl
  have hcounted := setUseCount_eq hinner (· - 1)
  simp only [drop, hinner, hlast, if_true, destroyMembers, hinners, hcounted,
    List.getElem?_set_self hlt, List.set_set, true_and]

/-- A holder goes that is not the last one. -/
theorem drop_more
    (hinner : m.inflightBlocks.inners[i]? = some inner) (hmore : inner.useCount ≠ 1) :
    m.drop i = { m with inflightBlocks := m.inflightBlocks.setUseCount i (· - 1) } := by
  simp [drop, hinner, hmore]

theorem drop_none (hinner : m.inflightBlocks.inners[i]? = none) : m.drop i = m := by
  simp [drop, hinner]

/-- A reserved block that is dropped stays with the other holders or goes to the pool. -/
theorem drop_transfer (h : Sound total m) (i : InnerId) :
    Transfer (Sound total) held m 0 0 (m.drop i) := by
  cases hinner : m.inflightBlocks.inners[i]? with
  | none =>
    rw [drop_none hinner]
    exact .refl h
  | some inner =>
    by_cases hlast : inner.useCount = 1
    · obtain ⟨hpool, hinners⟩ := drop_last hinner hlast
      have hback := release_transfer h inner.block
      have howned : inner.owned = inner.block.owned := by
        simp [ReservedBlockInner.owned, hlast]
      have hsum := sum_map_set (f := ReservedBlockInner.owned)
        (x := ⟨.empty, inner.sequenceHash, 0⟩) hinner
      refine ⟨⟨by rw [hpool]; exact hback.keeps.pool, ?_⟩, ?_⟩
      · intro other hother hzero
        rw [hinners] at hother
        rcases List.mem_or_eq_of_mem_set hother with hmem | rfl
        · exact h.destroyed other hmem hzero
        · rfl
      · -- the registry has the block less, the pool has it more
        have hbalance : m.availableBlocks.parked + m.inflightBlocks.registered + inner.block.owned =
            (inner.block.release m.availableBlocks).parked + m.inflightBlocks.registered + 0 :=
          hback.balance
        rw [howned] at hsum
        have hempty : (⟨.empty, inner.sequenceHash, 0⟩ : ReservedBlockInner).owned = 0 := rfl
        rw [hempty, add_zero] at hsum
        simp only [held, registered, hpool, hinners, add_zero] at hbalance ⊢
        rw [← hsum] at hbalance
        refine add_right_cancel (b := inner.block.owned) ?_
        rw [← hsum, hbalance]
        abel
    · rw [drop_more hinner hlast]
      exact setUseCount_transfer h hinner (by omega)

theorem dropAll_transfer (h : Sound total m) (inners : List InnerId) :
    Transfer (Sound total) held m 0 0 (m.dropAll inners) :=
  Transfer.foldl_keeps (fun _ i hm => drop_transfer hm i) inners m h

/-- A handle that is passed to `register_block` is registered or released. -/
theorem registerBlock_transfer (h : Sound total m) (blockSize : Nat) (block : UniqueBlock) :
    Transfer (Sound total) held m block.owned 0 (m.registerBlock blockSize block).2 := by
  unfold registerBlock
  split
  · exact release_transfer h block
  · next b hb =>
    split
    · exact release_transfer h block
    · dsimp only
      split
      · next i hfind =>
        have hshared := acquire_transfer h hfind
        exact hshared.after (release_transfer hshared.keeps block)
      · refine ⟨⟨h.pool, ?_⟩, ?_⟩
        · intro inner hinner hzero
          rcases List.mem_append.mp hinner with hold | hnew
          · exact h.destroyed inner hold hzero
          · rw [List.mem_singleton.mp hnew] at hzero
            cases hzero
        · have hnew : (⟨block, b.tokenBlock.sequenceHash, 1⟩ : ReservedBlockInner).owned =
              block.owned := rfl
          simp only [held, registered, List.map_append, List.sum_append,
            List.map_cons, List.map_nil, List.sum_cons, List.sum_nil, hnew]
          abel

/-! ## Preparing a prefill -/

theorem promote_transfer (blockSize : Nat) (reusable : List InsertedBlock) :
    ∀ inflight m, Sound total m → Transfer (Sound total) held m (ids reusable) 0
      (promote blockSize reusable inflight m).2 := by
  induction reusable with
  | nil => exact fun _ m h => .refl h
  | cons block reusable ih =>
    intro inflight m h
    have hfirst := registerBlock_transfer h blockSize (.owning block)
    generalize hr : m.registerBlock blockSize (.owning block) = r at hfirst
    obtain ⟨result, m'⟩ := r
    cases result with
    | error e =>
      -- the handles that were not reached are released, then the matched blocks dropped
      simp only [promote, hr]
      have hrest := releaseAll_transfer hfirst.keeps reusable
      exact (hfirst.trans hrest).before (dropAll_transfer hrest.keeps inflight)
    | ok i =>
      simp only [promote, hr]
      exact hfirst.trans (ih _ m' hfirst.keeps)

theorem matchPrefill_transfer (h : Sound total m) (blockSize : Nat) (blocks : List TokenBlock) :
    Transfer (Sound total) held m 0 0 (m.matchPrefill blockSize blocks).2 := by
  have hmatch : Transfer (Sound total) held m 0 0
      { m with inflightBlocks := (m.inflightBlocks.matchTokenBlocks blocks).2 } :=
    matchSequenceHashes_transfer _ m h
  have hreuse := pool_transfer hmatch.keeps
    (matchBlocks_transfer hmatch.keeps.pool
      ((blocks.drop (m.inflightBlocks.matchTokenBlocks blocks).1.length).map (·.sequenceHash)))
  exact hmatch.after (hreuse.returns_all (promote_transfer blockSize _ _ _ hreuse.keeps))

/-- What is left to prefill is only computed. -/
theorem preparePrefillSequence_snd (m : KvStorageManager) (setup : Setup) (tokens : List Token) :
    (m.preparePrefillSequence setup tokens).2 =
      (m.matchPrefill setup.blockSize
        (splitTokens setup.computeHash tokens setup.blockSize).1).2 := by
  unfold preparePrefillSequence
  dsimp only
  split
  · next e m' hr => rw [hr]
  · next inflight m' hr => rw [hr]

theorem preparePrefillSequence_transfer (h : Sound total m) (setup : Setup) (tokens : List Token) :
    Transfer (Sound total) held m 0 0 (m.preparePrefillSequence setup tokens).2 := by
  rw [preparePrefillSequence_snd]
  exact matchPrefill_transfer h setup.blockSize _

/-- The assignment moves blocks from one vector to the other. -/
theorem ids_assign (remaining : List TokenBlock) :
    ∀ complete blocksToReuse,
      ids (assign remaining complete blocksToReuse).1 +
        ids (assign remaining complete blocksToReuse).2 = ids complete + ids blocksToReuse := by
  induction remaining with
  | nil => exact fun _ _ => rfl
  | cons tokenBlock remaining ih =>
    intro complete blocksToReuse
    unfold assign
    split
    · rfl
    · next block hlast =>
      have hback : blocksToReuse = blocksToReuse.dropLast ++ [block] :=
        (List.dropLast_append_getLast? block hlast).symm
      rw [ih]
      conv_rhs => rw [hback]
      simp only [ids_append, ids_cons]
      abel

/-- The blocks that the client gets from `prepare_prefill_offload`. -/
def offloaded : Except Exception PrefillOffload → List InsertedBlock
  | .error _ => []
  | .ok offload => offload.blocks

theorem preparePrefillOffload_transfer (h : Sound total m) (matched : PrefillMatched) :
    Transfer (Sound total) held m 0 (ids (offloaded (m.preparePrefillOffload matched).1))
      (m.preparePrefillOffload matched).2 := by
  obtain ⟨taken, hok, htaken⟩ := takeBlocks_transfer h.pool
    (UInt32.ofNat matched.remainingBlocks.length + 1)
  have hout := pool_transfer h htaken
  generalize hr : m.availableBlocks.takeBlocks (UInt32.ofNat matched.remainingBlocks.length + 1) = r
    at hok hout
  obtain ⟨result, pool⟩ := r
  obtain rfl : result = .ok taken := hok
  simp only [preparePrefillOffload, hr]
  split
  · -- too few blocks: they are released, and the argument is dropped
    have hback := hout.returns_all (releaseAll_transfer hout.keeps taken)
    exact hback.trans (dropAll_transfer hback.keeps matched.inflightBlocks)
  · have hassign := ids_assign matched.remainingBlocks [] taken
    generalize assign matched.remainingBlocks [] taken = r at hassign
    obtain ⟨complete, rest⟩ := r
    rw [ids_nil, zero_add] at hassign
    cases hlast : rest.getLast? with
    | some tail =>
      have hrest : rest = rest.dropLast ++ [tail] := (List.dropLast_append_getLast? tail hlast).symm
      have hsplit : ids taken = ids rest.dropLast + ids (complete ++ [tail]) := by
        rw [← hassign]
        conv_lhs => rw [hrest]
        simp only [ids_append]
        abel
      rw [hsplit] at hout
      exact hout.returns (releaseAll_transfer hout.keeps rest.dropLast)
    | none =>
      have hnil : rest = [] := List.getLast?_eq_none_iff.mp hlast
      rw [← hassign, hnil, ids_nil, add_zero] at hout
      exact hout.returns_all (releaseAll_transfer hout.keeps complete)

end operations

end KvStorageManager

/-! ## Clients -/

namespace World

/-- The blocks that the handles of the clients own. -/
def handled (w : World) : Multiset Nat := (w.handles.map UniqueBlock.owned).sum

/-- The blocks outside of the manager. -/
def clients (w : World) : Multiset Nat := w.handled + (w.detached : List Nat)

def held (w : World) : Multiset Nat := w.manager.held + w.clients

/-- The manager is sound, and `total_blocks` counts the inserts. -/
def Sound (w : World) : Prop := w.manager.Sound (UInt64.ofNat w.inserts)

section steps

variable {w w' : World}

theorem clients_receive (blocks : List InsertedBlock) :
    (w.receive blocks).clients = w.clients + ids blocks := by
  simp only [clients, handled, receive, List.map_append, List.sum_append, sum_map_owning]
  abel

/-- What the manager takes in comes from the clients, and what it hands out goes to them. -/
theorem step_keeps {into out : Multiset Nat} (hinserts : w'.inserts = w.inserts)
    (hm : Transfer (KvStorageManager.Sound (UInt64.ofNat w.inserts)) KvStorageManager.held
      w.manager into out w'.manager)
    (hclients : w'.clients + into = w.clients + out) :
    w'.Sound ∧ Numbers held inserts w w' := by
  refine ⟨?_, .inl ⟨hinserts, ?_⟩⟩
  · unfold Sound
    rw [hinserts]
    exact hm.keeps
  · refine add_right_cancel (b := into + out) ?_
    calc w'.manager.held + w'.clients + (into + out)
        = w'.manager.held + out + (w'.clients + into) := by abel
      _ = w.manager.held + into + (w.clients + out) := by rw [hm.balance, hclients]
      _ = w.manager.held + w.clients + (into + out) := by abel

variable {handle : Nat} {b : UniqueBlock}

/-- The clients change a handle; the block it owned goes to the manager. -/
theorem clients_set {h h' : UniqueBlock} (hh : w.handles[handle]? = some h)
    (m : KvStorageManager) :
    World.clients { w with manager := m, handles := w.handles.set handle h' } + h.owned =
      w.clients + h'.owned := by
  have hsum := sum_map_set (f := UniqueBlock.owned) (x := h') hh
  simp only [clients, handled]
  calc _ = ((w.handles.set handle h').map UniqueBlock.owned).sum + h.owned +
        (w.detached : Multiset Nat) := by abel
    _ = _ := by rw [hsum]; abel

/-- Only the handles change. -/
theorem handles_step (h : w.Sound) (hm : w'.manager = w.manager) (hinserts : w'.inserts = w.inserts)
    (hclients : w'.clients = w.clients) : w'.Sound ∧ Numbers held inserts w w' := by
  have hkeep : Transfer (KvStorageManager.Sound (UInt64.ofNat w.inserts)) KvStorageManager.held
      w.manager 0 0 w'.manager := by
    rw [hm]
    exact .refl h
  exact step_keeps hinserts hkeep (by rw [hclients])

/-- The manager changes and hands nothing over. -/
theorem manager_step {m : KvStorageManager}
    (hm : Transfer (KvStorageManager.Sound (UInt64.ofNat w.inserts)) KvStorageManager.held
      w.manager 0 0 m) :
    World.Sound { w with manager := m } ∧ Numbers held inserts w { w with manager := m } :=
  step_keeps rfl hm rfl

theorem insert_step (h : w.Sound) (block : KvBlock) :
    let w' := { w.setPool (w.manager.availableBlocks.insert { block with id := w.inserts }) with
      inserts := w.inserts + 1 }
    w'.Sound ∧ Numbers held inserts w w' := by
  obtain ⟨hsound, hparked⟩ :=
    insert_transfer h.pool { block with id := w.inserts }
  refine ⟨⟨?_, h.destroyed⟩, .inr ⟨rfl, ?_⟩⟩
  · rw [UInt64.ofNat_add]
    exact hsound
  · show (w.manager.availableBlocks.insert { block with id := w.inserts }).parked +
        w.manager.inflightBlocks.registered + w.clients = _
    rw [hparked, ← Multiset.singleton_add, ← Multiset.singleton_add]
    simp only [held, KvStorageManager.held]
    abel

/-- The pool hands blocks to the client. -/
theorem receive_step (h : w.Sound) {pool : AvailableBlocksState} {blocks : List InsertedBlock}
    (hpool : Transfer (AvailableBlocksState.Sound (UInt64.ofNat w.inserts))
      parked w.manager.availableBlocks 0 (ids blocks) pool) :
    ((w.setPool pool).receive blocks).Sound ∧
      Numbers held inserts w ((w.setPool pool).receive blocks) := by
  have hm := pool_transfer h hpool
  refine step_keeps rfl hm ?_
  rw [clients_receive, add_zero]
  rfl

theorem moveConstruct_step (h : w.Sound) {src : Nat}
    (hb : w.handles[src]? = some b) :
    let w' := { w with handles := w.handles.set src b.moveFrom ++ [b] }
    w'.Sound ∧ Numbers held inserts w w' := by
  refine handles_step h rfl rfl ?_
  have hsum := sum_map_set (f := UniqueBlock.owned) (x := b.moveFrom) hb
  rw [UniqueBlock.owned_moveFrom, add_zero] at hsum
  simp only [clients, handled, List.map_append, List.sum_append, List.map_cons, List.map_nil,
    List.sum_cons, List.sum_nil, add_zero, hsum]

theorem moveAssign_step (h : w.Sound) {dst src : Nat} (hexec : w.moveAssign dst src = some w') :
    w'.Sound ∧ Numbers held inserts w w' := by
  obtain ⟨old, hold, hexec⟩ := Option.bind_eq_some_iff.mp hexec
  obtain ⟨new, hnew, hexec⟩ := Option.bind_eq_some_iff.mp hexec
  split at hexec
  · cases hexec
    exact handles_step h rfl rfl rfl
  · next hne =>
    cases hexec
    refine step_keeps rfl (release_transfer h old) ?_
    -- the destination gets the block of the source, and the source is empty afterwards
    have hnew' : (w.handles.set dst new)[src]? = some new := by
      rw [List.getElem?_set_ne hne]
      exact hnew
    have hdst := sum_map_set (f := UniqueBlock.owned) (x := new) hold
    have hsrc := sum_map_set (f := UniqueBlock.owned) (x := .empty) hnew'
    have hempty : UniqueBlock.owned .empty = 0 := rfl
    rw [hempty, add_zero] at hsrc
    rw [← hsrc] at hdst
    have hboth := add_right_cancel ((add_right_comm _ _ _).trans hdst)
    simp only [clients, handled, add_zero]
    rw [add_right_comm, hboth]

theorem take_step (h : w.Sound) (hexec : w.take handle = some w') :
    w'.Sound ∧ Numbers held inserts w w' := by
  obtain ⟨b, hb, hexec⟩ := Option.bind_eq_some_iff.mp hexec
  have hsum := sum_map_set (f := UniqueBlock.owned) (x := .empty) hb
  have hempty : UniqueBlock.owned .empty = 0 := rfl
  rw [hempty, add_zero] at hsum
  cases b with
  | empty => cases hexec
  | moved shell =>
    cases hexec
    refine handles_step h rfl rfl ?_
    rw [show UniqueBlock.owned (.moved shell) = 0 from rfl, add_zero] at hsum
    simp only [clients, handled, hsum]
  | owning block =>
    cases hexec
    refine handles_step h rfl rfl ?_
    rw [show UniqueBlock.owned (.owning block) = {block.id} from rfl] at hsum
    simp only [clients, handled, ← hsum]
    rw [← Multiset.cons_coe, ← Multiset.singleton_add, add_assoc]

theorem destroy_step (h : w.Sound)
    (hb : w.handles[handle]? = some b) :
    let w' := { w with manager := w.manager.release b, handles := w.handles.eraseIdx handle }
    w'.Sound ∧ Numbers held inserts w w' := by
  refine step_keeps rfl (release_transfer h b) ?_
  have hsum := sum_map_eraseIdx (f := UniqueBlock.owned) hb
  simp only [clients, handled, add_zero]
  rw [add_right_comm, hsum]

theorem write_step (h : w.Sound) {b' : UniqueBlock}
    (hb : w.handles[handle]? = some b) {block : KvBlock} (hwrite : b.write block = some b') :
    let w' := { w with handles := w.handles.set handle b' }
    w'.Sound ∧ Numbers held inserts w w' := by
  refine handles_step h rfl rfl ?_
  have hset : World.clients { w with handles := w.handles.set handle b' } + b.owned =
      w.clients + b'.owned := clients_set hb w.manager
  rw [UniqueBlock.owned_write hwrite] at hset
  exact add_right_cancel hset

theorem registerBlock_step (h : w.Sound) (blockSize : Nat)
    (hb : w.handles[handle]? = some b) :
    let w' := { w with
      manager := (w.manager.registerBlock blockSize b).2
      handles := w.handles.set handle b.moveFrom }
    w'.Sound ∧ Numbers held inserts w w' := by
  refine step_keeps rfl (registerBlock_transfer h blockSize b) ?_
  rw [clients_set hb, UniqueBlock.owned_moveFrom]

theorem takeBlocks_step (h : w.Sound) (count : UInt32) :
    (w.takeBlocks count).Sound ∧ Numbers held inserts w (w.takeBlocks count) := by
  obtain ⟨taken, hok, htaken⟩ := takeBlocks_transfer h.pool count
  have hr : w.manager.availableBlocks.takeBlocks count =
      (.ok taken, (w.manager.availableBlocks.takeBlocks count).2) := by
    rw [← hok]
  have hworld : w.takeBlocks count =
      (w.setPool (w.manager.availableBlocks.takeBlocks count).2).receive taken := by
    unfold takeBlocks
    rw [hr]
  rw [hworld]
  exact receive_step h htaken

theorem preparePrefillOffload_step (h : w.Sound) (matched : PrefillMatched) :
    (w.preparePrefillOffload matched).Sound ∧
      Numbers held inserts w (w.preparePrefillOffload matched) := by
  have hm := preparePrefillOffload_transfer h matched
  unfold preparePrefillOffload
  split
  · next e m hr =>
    rw [hr] at hm
    exact manager_step hm
  · next offload m hr =>
    rw [hr] at hm
    refine step_keeps rfl hm ?_
    rw [clients_receive, add_zero]
    rfl

/-- A client that holds a reserved block finds its inner alive. -/
theorem live_of_holds {i : InnerId} (h : w.holds [i] = true) :
    ∃ inner, w.manager.inflightBlocks.inners[i]? = some inner ∧ inner.useCount ≠ 0 := by
  simp only [holds, List.all_cons] at h
  split at h
  · cases h
  · next inner hinner =>
    have hle : [i].count i ≤ inner.useCount := by simpa using h
    exact ⟨inner, hinner, by simp at hle; omega⟩

/-- Every call keeps the blocks together; `insert` adds the next one. -/
theorem exec_step (setup : Setup) {op : Op} (h : w.Sound) (hexec : w.exec setup op = some w') :
    w'.Sound ∧ Numbers held inserts w w' := by
  have hpool : ∀ {pool}, Transfer (AvailableBlocksState.Sound (UInt64.ofNat w.inserts))
      parked w.manager.availableBlocks 0 0 pool →
      (w.setPool pool).Sound ∧ Numbers held inserts w (w.setPool pool) :=
    fun hp => manager_step (pool_transfer h hp)
  cases op with
  | insert block =>
    cases hexec
    exact insert_step h block
  | matchBlocks hashes =>
    cases hexec
    exact receive_step h (matchBlocks_transfer h.pool hashes)
  | matchTokenBlocks tokenBlocks =>
    cases hexec
    exact receive_step h (matchBlocks_transfer h.pool _)
  | takeBlocks count =>
    cases hexec
    exact takeBlocks_step h count
  | updatePriorities updates =>
    cases hexec
    exact hpool (updatePriorities_transfer h.pool updates)
  | reset hashes =>
    cases hexec
    exact hpool (reset_transfer h.pool hashes)
  | resetAll =>
    cases hexec
    exact hpool (sound_of_keeps
      (resetAll_transfer h.pool).2)
  | construct =>
    cases hexec
    exact handles_step h rfl rfl (by simp [clients, handled, UniqueBlock.owned])
  | moveConstruct src =>
    obtain ⟨b, hb, hexec⟩ := Option.bind_eq_some_iff.mp hexec
    cases hexec
    exact moveConstruct_step h hb
  | moveAssign dst src => exact moveAssign_step h hexec
  | write handle block =>
    obtain ⟨b, hb, hexec⟩ := Option.bind_eq_some_iff.mp hexec
    obtain ⟨b', hwrite, hexec⟩ := Option.bind_eq_some_iff.mp hexec
    cases hexec
    exact write_step h hb hwrite
  | take handle => exact take_step h hexec
  | destroy handle =>
    obtain ⟨b, hb, hexec⟩ := Option.bind_eq_some_iff.mp hexec
    cases hexec
    exact destroy_step h hb
  | registerBlock handle =>
    obtain ⟨b, hb, hexec⟩ := Option.bind_eq_some_iff.mp hexec
    cases hexec
    exact registerBlock_step h setup.blockSize hb
  | matchSequenceHashes hashes =>
    cases hexec
    exact manager_step (matchSequenceHashes_transfer hashes _ h)
  | matchInflightTokenBlocks tokenBlocks =>
    cases hexec
    exact manager_step (matchSequenceHashes_transfer _ _ h)
  | copyReserved inner =>
    obtain ⟨hholds, rfl⟩ := enabled hexec
    obtain ⟨i, hinner, hlive⟩ := live_of_holds hholds
    exact manager_step (setUseCount_transfer h hinner (by omega))
  | dropReserved inner =>
    obtain ⟨-, rfl⟩ := enabled hexec
    exact manager_step (drop_transfer h inner)
  | preparePrefillSequence tokens =>
    cases hexec
    exact manager_step (preparePrefillSequence_transfer h setup tokens)
  | preparePrefillOffload matched =>
    obtain ⟨-, rfl⟩ := enabled hexec
    exact preparePrefillOffload_step h matched

end steps

/-- In every reachable world each inserted block is held once. -/
theorem held_of_reachable {setup : Setup} {w : World} (hreach : (storage setup).Reachable w) :
    w.Sound ∧ w.held = Multiset.range w.inserts :=
  hreach.held_eq_range ⟨sound_init, by intro inner h; cases h⟩ rfl rfl
    fun _ _ _ h hexec => exec_step setup h hexec

/-- Every inserted block is in one place, and no other block is anywhere. -/
theorem count_places {setup : Setup} {w : World} (hreach : (storage setup).Reachable w) (id : Nat) :
    w.manager.availableBlocks.parked.count id + w.handled.count id +
        w.manager.inflightBlocks.registered.count id + w.detached.count id =
      if id < w.inserts then 1 else 0 := by
  have hcount := congrArg (Multiset.count id) (held_of_reachable hreach).2
  simp only [held, KvStorageManager.held, clients, Multiset.count_add, Multiset.coe_count,
    count_range] at hcount
  omega

/-- Every inserted block is in exactly one place: parked in the pool, owned by a
    handle of a client or by the handle of an inflight block, or detached.
    `total_blocks` is the number of inserts in 64 bits, and `available_blocks` the
    number of parked blocks, of which there are fewer than `2 ^ 64`. -/
theorem blocks_conserved {setup : Setup} {w : World} (hreach : (storage setup).Reachable w) :
    (∀ id, w.manager.availableBlocks.parked.count id + w.handled.count id +
        w.manager.inflightBlocks.registered.count id + w.detached.count id =
      if id < w.inserts then 1 else 0) ∧
    w.manager.availableBlocks.totalBlocks.toNat = w.inserts % 2 ^ 64 ∧
    (w.manager.availableBlocks.parked.card < 2 ^ 64 →
      w.manager.availableBlocks.availableBlocks.toNat =
        w.manager.availableBlocks.parked.card) := by
  have hpool := (held_of_reachable hreach).1.pool
  refine ⟨count_places hreach, ?_, hpool.available_eq⟩
  rw [hpool.totalBlocks, UInt64.toNat_ofNat']

/-- A client can insert a block, take it out and detach it, over and over. -/
theorem exists_detached (setup : Setup) (n : Nat) :
    ∃ w, (storage setup).Reachable w ∧ w.inserts = n ∧ w.handles = [] ∧
      w.manager.availableBlocks.uninitializedSet = [] ∧
      w.manager.availableBlocks.lookupMap = ∅ := by
  induction n with
  | zero => exact ⟨_, .init, rfl, rfl, rfl, rfl⟩
  | succ n ih =>
    obtain ⟨⟨⟨⟨map, set, queue, tick, total, available⟩, inflight⟩, handles, detached, inserts⟩,
      hreach, hinserts, hhandles, hqueue, hmap⟩ := ih
    obtain rfl : handles = [] := hhandles
    obtain rfl : queue = [] := hqueue
    obtain rfl : inserts = n := hinserts
    have hin := hreach.step (.insert {}) rfl
    have hout := hin.step (.takeBlocks 1) rfl
    have htaken := hout.step (.take 0) rfl
    exact ⟨_, htaken.step (.destroy 0) rfl, rfl, rfl, rfl, hmap⟩

end World

/-! ## One block of every kind, and the counters at their end -/

/-- Two blocks are inserted and taken; the first is registered, the second moved
    to a new handle and detached.  A third is inserted. -/
def spreadRun : List Op :=
  [.insert { tokenBlock := { tokens := [7], blockHash := 5, sequenceHash := 5 } }, .insert {},
    .takeBlocks 2, .registerBlock 1, .moveConstruct 0, .take 2, .insert {}]

def unitSetup : Setup := ⟨fun _ => 0, 1⟩

theorem spreadRun_runs : ((storage unitSetup).run spreadRun).isSome = true := rfl

theorem spreadRun_conserved :
    let w := ((storage unitSetup).run spreadRun).get spreadRun_runs
    (w.inserts = 3 ∧ 0 ∈ w.manager.inflightBlocks.registered ∧ w.detached = [1] ∧
      2 ∈ w.manager.availableBlocks.parked) ∧
    ∀ id, w.manager.availableBlocks.parked.count id + w.handled.count id +
        w.manager.inflightBlocks.registered.count id + w.detached.count id =
      if id < w.inserts then 1 else 0 :=
  ⟨⟨by decide, by decide, by decide, by decide⟩,
    (World.blocks_conserved (System.Reachable.of_run_isSome spreadRun_runs)).1⟩

/-- After `2 ^ 64` blocks were inserted, taken out and detached, `total_blocks` is back at 0. -/
theorem counters_wrap :
    ∃ w, (storage unitSetup).Reachable w ∧ w.inserts = 2 ^ 64 ∧ w.handles = [] ∧
      w.manager.availableBlocks.parked = 0 ∧
      w.manager.availableBlocks.totalBlocks.toNat = 0 := by
  obtain ⟨w, hreach, hinserts, hhandles, hqueue, hmap⟩ := World.exists_detached unitSetup (2 ^ 64)
  refine ⟨w, hreach, hinserts, hhandles, ?_, ?_⟩
  · rw [parked, hqueue, hmap]
    rfl
  · rw [(World.held_of_reachable hreach).1.pool.totalBlocks, hinserts]
    rfl

end DynamoCpp.Llm.Kv
