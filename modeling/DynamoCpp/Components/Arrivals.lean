import DynamoCpp.Components.Calls

/-! # What arrives for a call and what it leaves behind

    * **Signals**: how many arrivals are sent, and by whom.
    * **The entry**: who has taken it out of the table of the server.
    * **The channel**: what the caller gets was sent.

    From these follow what holds in every interleaving, and which failures of a
    call leave its entry in the table.
-/

namespace DynamoCpp.Components

open Framework Transports PendingStream CallerPc

/-! ## Signals -/

/-- The caller has registered its stream. -/
def CallerPc.madeEntry : CallerPc → Bool
  | .routing | .threw (.noTarget _) => false
  | _ => true

/-- The caller has not come to its timer. -/
def CallerPc.untimed : CallerPc → Bool
  | .routing | .threw (.noTarget _) | .registered | .dispatching | .scheduling => true
  | _ => false

theorem CallerPc.untimed_of_madeEntry {pc : CallerPc} (h : pc.madeEntry = false) :
    pc.untimed = true := by
  unfold madeEntry at h
  split at h
  · rfl
  · rfl
  · cases h

/-- The failures on whose way out the stream is deregistered. -/
def Failure.withdraws (kind : CallKind) : Failure → Bool
  | .arrival _ => true
  | .dispatch _ => kind = .queue
  | _ => false

/-- The caller has deregistered its stream. -/
def CallerPc.withdrew (kind : CallKind) : CallerPc → Bool
  | .threw failure => failure.withdraws kind
  | _ => false

/-- Whoever has the entry may send one more arrival, and so may the timer until it is done. -/
structure Budget (s : Calling) : Prop where
  fresh    : s.pc.madeEntry = false →
    s.home.sent = [] ∧ s.home.takers = 0 ∧ s.home.pending = false
  entry    : s.home.decisions + s.home.pending.toNat + s.home.owing ≤ 1
  timer    : s.home.timeouts + (if s.timer = .done then 0 else 1) ≤ 1
  unset    : s.pc.untimed = true → s.timer = .unset
  queue    : s.home.arrival.queue.length ≤ s.home.sent.length
  capacity : s.home.arrival.capacity = 2

namespace Budget

variable {s : Calling}

theorem init : Budget {} where
  fresh := fun _ => ⟨rfl, rfl, rfl⟩
  entry := Nat.zero_le 1
  timer := le_rfl
  unset := fun _ => rfl
  queue := le_rfl
  capacity := rfl

/-- A send lengthens the queue by one at most. -/
theorem length_queue_signal (r : PendingStream) (who : Signaller) (arrival : Arrival)
    (h : r.arrival.queue.length ≤ r.sent.length) :
    (r.signal who arrival).arrival.queue.length ≤ (r.signal who arrival).sent.length := by
  have hsent : (r.signal who arrival).sent.length = r.sent.length + 1 := List.length_append
  rw [hsent]
  rcases (r.queue_signal who arrival).1 with hq | hq
  · rw [hq]
    omega
  · rw [hq, List.length_append]
    exact Nat.succ_le_succ h

theorem home (h : Budget s) {home : PendingStream} (hmoves : s.home.Moves home) :
    Budget { s with home } := by
  have hle := s.home.owing_le_takers
  have hentry := h.entry
  cases hmoves with
  | idle conns htakers howing =>
    refine ⟨fun hpc => ?_, ?_, h.timer, h.unset, h.queue, h.capacity⟩
    · obtain ⟨hsent, hzero, hpending⟩ := h.fresh hpc
      exact ⟨hsent, htakers.trans hzero, hpending⟩
    · show s.home.decisions + s.home.pending.toNat + conns.countP _ ≤ 1
      omega
  | take conns hpending htakers howing =>
    refine ⟨fun hpc => ?_, ?_, h.timer, h.unset, h.queue, h.capacity⟩
    · obtain ⟨-, -, hnone⟩ := h.fresh hpc
      rw [hpending] at hnone
      cases hnone
    · rw [hpending] at hentry
      show s.home.decisions + 0 + conns.countP _ ≤ 1
      simp only [Bool.toNat_true] at hentry
      omega
  | deliver conns conn arrival hconn htakers howing =>
    have hdecisions := s.home.decisions_signal (.callHome conn) arrival
    have htimeouts := s.home.timeouts_signal (.callHome conn) arrival
    refine ⟨fun hpc => ?_, ?_, ?_, h.unset, length_queue_signal _ _ _ h.queue,
      (s.home.capacity_signal (.callHome conn) arrival).trans h.capacity⟩
    · obtain ⟨-, hzero, -⟩ := h.fresh hpc
      omega
    · show (s.home.signal (.callHome conn) arrival).decisions + s.home.pending.toNat +
        conns.countP _ ≤ 1
      simp only [Signaller.hadEntry, Bool.toNat_true] at hdecisions
      omega
    · show (s.home.signal (.callHome conn) arrival).timeouts + _ ≤ 1
      rw [htimeouts]
      exact h.timer
  | fail hstopping hpending =>
    have hdecisions := s.home.decisions_signal .stop shuttingDown
    have htimeouts := s.home.timeouts_signal .stop shuttingDown
    refine ⟨fun hpc => ?_, ?_, ?_, h.unset, length_queue_signal _ _ _ h.queue,
      (s.home.capacity_signal .stop shuttingDown).trans h.capacity⟩
    · obtain ⟨-, -, hnone⟩ := h.fresh hpc
      rw [hpending] at hnone
      cases hnone
    · rw [hpending] at hentry
      show (s.home.signal .stop shuttingDown).decisions + 0 + s.home.owing ≤ 1
      simp only [Signaller.hadEntry, Bool.toNat_true] at hdecisions hentry
      omega
    · show (s.home.signal .stop shuttingDown).timeouts + _ ≤ 1
      rw [htimeouts]
      exact h.timer
  | halt hnone => exact ⟨h.fresh, h.entry, h.timer, h.unset, h.queue, h.capacity⟩

/-- Steps of the caller and of its timer that send nothing. -/
theorem caller (h : Budget s) {pc : CallerPc} {timer : Timer} {dispatch : ControlPlane.Dispatching}
    (hfresh : pc.madeEntry = false → s.pc.madeEntry = false)
    (hunset : pc.untimed = true → timer = .unset) (hdone : s.timer = .done → timer = .done) :
    Budget { s with pc, timer, dispatch } where
  fresh := fun hpc => h.fresh (hfresh hpc)
  entry := h.entry
  timer := by
    have htimer := h.timer
    by_cases hold : s.timer = .done
    · rw [if_pos hold] at htimer
      rw [if_pos (hdone hold)]
      exact htimer
    · rw [if_neg hold] at htimer
      split <;> dsimp only <;> omega
  unset := hunset
  queue := h.queue
  capacity := h.capacity

theorem register (h : Budget s) (hpc : s.pc = .routing) :
    Budget { s with pc := .registered, home := s.home.register } := by
  obtain ⟨hsent, hzero, -⟩ := h.fresh (by rw [hpc]; rfl)
  have hle := s.home.owing_le_takers
  refine ⟨nofun, ?_, h.timer, fun _ => h.unset (by rw [hpc]; rfl), h.queue, h.capacity⟩
  have hdecisions : s.home.decisions = 0 := by rw [decisions, hsent]; rfl
  show s.home.decisions + (!s.home.stopping).toNat + s.home.owing ≤ 1
  have hbit := Bool.toNat_le (!s.home.stopping)
  omega

theorem deregister (h : Budget s) {kind : CallKind} {failure : Failure}
    (hwithdraws : failure.withdraws kind = true) :
    Budget { s with pc := .threw failure, home := s.home.deregister } := by
  have hentry := h.entry
  have hpc : (CallerPc.threw failure).untimed = false ∧
      (CallerPc.threw failure).madeEntry = true := by
    cases failure with
    | noTarget what => cases hwithdraws
    | _ => exact ⟨rfl, rfl⟩
  refine ⟨by simp [hpc.2], ?_, h.timer, by simp [hpc.1], h.queue, h.capacity⟩
  · show s.home.decisions + 0 + s.home.owing ≤ 1
    omega

/-- Taking a value from the channel, or waiting for one. -/
theorem channel (h : Budget s) {arrival : Runtime.ChannelState Arrival} {slot : Option Arrival}
    (hqueue : arrival.queue.length ≤ s.home.arrival.queue.length)
    (hcapacity : arrival.capacity = s.home.arrival.capacity) :
    Budget { s with home := { s.home with arrival, slot } } :=
  ⟨h.fresh, h.entry, h.timer, h.unset, hqueue.trans h.queue, hcapacity.trans h.capacity⟩

theorem recv (h : Budget s) : Budget s.recv := by
  have htimer : ∀ pc, pc.untimed = false → pc.madeEntry = true → Budget { s with pc } :=
    fun pc huntimed hmade => h.caller (by simp [hmade]) (by simp [huntimed]) fun hdone => hdone
  rcases s.recv_cases with ⟨v, q, hqueue, heq⟩ | ⟨-, -, heq⟩ | ⟨-, -, heq⟩
  · rw [heq]
    exact (htimer (.received (some v)) rfl rfl).channel (by simp [hqueue]) rfl
  · rw [heq]
    exact htimer (.received none) rfl rfl
  · rw [heq]
    exact (htimer .parked rfl rfl).channel le_rfl rfl

theorem timeout (h : Budget s) (htimer : s.timer = .firing) :
    Budget { s with timer := .done, home := s.home.signal .timer timedOut } := by
  have hdecisions := s.home.decisions_signal .timer timedOut
  have htimeouts := s.home.timeouts_signal .timer timedOut
  have hone := h.timer
  refine ⟨fun hpc => ?_, ?_, ?_, ?_, length_queue_signal _ _ _ h.queue,
    (s.home.capacity_signal .timer timedOut).trans h.capacity⟩
  · have hunset := h.unset (untimed_of_madeEntry hpc)
    rw [htimer] at hunset
    cases hunset
  · show (s.home.signal .timer timedOut).decisions + s.home.pending.toNat + s.home.owing ≤ 1
    rw [hdecisions]
    exact h.entry
  · rw [htimer] at hone
    simp only [Signaller.hadEntry, Bool.not_false, Bool.toNat_true] at htimeouts
    simp only [reduceCtorEq, if_false, if_true] at hone ⊢
    omega
  · intro hpc
    have hunset := h.unset hpc
    rw [htimer] at hunset
    cases hunset

theorem step {setup : CallSetup} (h : Budget s) {s' : Calling}
    (hleaving : ∀ failure, s.pc = .withdrawing failure → failure.withdraws setup.kind = true)
    (hstep : s.Steps setup s') : Budget s' := by
  cases hstep with
  | noTarget what hpc =>
    exact h.caller (fun _ => by rw [hpc]; rfl) (fun _ => h.unset (by rw [hpc]; rfl)) fun hd => hd
  | register hpc => exact h.register hpc
  | encode error hpc | dispatched error hpc | queued error hpc =>
    have hunset := h.unset (by rw [hpc]; rfl)
    cases error with
    | none => exact h.caller nofun (fun _ => hunset) fun hd => hd
    | some what => exact h.caller nofun nofun fun hd => hd
  | inside dispatch => exact h.caller (fun hpc => hpc) h.unset fun hd => hd
  | deregister failure hpc => exact h.deregister (hleaving failure hpc)
  | schedule hpc =>
    have hunset := h.unset (by rw [hpc]; rfl)
    exact h.caller nofun nofun fun hdone => by rw [hunset] at hdone; cases hdone
  | recv hpc => exact h.recv
  | resume arrival hpc hslot =>
    have hcaller : Budget { s with pc := .received (some arrival) } :=
      h.caller nofun nofun fun hd => hd
    exact hcaller.channel le_rfl rfl
  | wake hpc hclosed => exact h.caller nofun nofun fun hd => hd
  | cancel arrival hpc =>
    have hdone : s.timer = .done → (if s.timer = .armed then .done else s.timer) = Timer.done := by
      intro hd
      rw [hd]
      rfl
    rcases arrival with _ | _ | _ <;> exact h.caller nofun nofun hdone
  | drained item hpc =>
    split <;> exact h.caller nofun nofun fun hd => hd
  | expire htimer =>
    refine h.caller (fun hpc => hpc) (fun hpc => ?_) fun hdone => ?_
    · have hunset := h.unset hpc
      rw [htimer] at hunset
      cases hunset
    · rw [htimer] at hdone
      cases hdone
  | timeout htimer => exact h.timeout htimer
  | release hleft => exact h.channel le_rfl rfl
  | close hreceivers =>
    obtain ⟨waiters, heq⟩ := closeLocked_eq s.home.arrival
    rw [heq]
    exact h.channel le_rfl rfl
  | home home hmoves => exact h.home hmoves

end Budget

/-! ## The entry -/

/-- Where the entry is: in the table from the registration on, until the server stops, a
    connection takes it or the caller withdraws it. -/
structure Located (kind : CallKind) (s : Calling) : Prop where
  leaving : ∀ failure, s.pc = .withdrawing failure → failure.withdraws kind = true
  entry   : s.home.pending = true ↔ s.pc.madeEntry = true ∧ s.pc.withdrew kind = false ∧
    s.home.stopping = false ∧ s.home.takers = 0

namespace Located

variable {kind : CallKind} {s : Calling}

theorem init : Located kind {} where
  leaving := nofun
  entry := ⟨nofun, fun h => nomatch h.1⟩

/-- Steps after which the caller has withdrawn the entry if and only if it had before. -/
theorem caller (h : Located kind s) {old pc : CallerPc} (hpc : s.pc = old) {timer : Timer}
    {dispatch : ControlPlane.Dispatching} {arrival : Runtime.ChannelState Arrival}
    {slot : Option Arrival}
    (hleaving : ∀ failure, pc = .withdrawing failure → failure.withdraws kind = true)
    (hmade : pc.madeEntry = old.madeEntry) (hwithdrew : pc.withdrew kind = old.withdrew kind) :
    Located kind ⟨pc, timer, dispatch, { s.home with arrival, slot }⟩ where
  leaving := hleaving
  entry := by
    rw [hmade, hwithdrew, ← hpc]
    exact h.entry

theorem home (h : Located kind s) {home : PendingStream} (hmoves : s.home.Moves home) :
    Located kind { s with home } := by
  refine ⟨h.leaving, ?_⟩
  have hentry := h.entry
  cases hmoves with
  | idle conns htakers howing =>
    show s.home.pending = true ↔ _ ∧ _ ∧ _ ∧ conns.countP _ = 0
    rw [htakers]
    exact hentry
  | take conns hpending htakers howing =>
    show false = true ↔ _ ∧ _ ∧ _ ∧ conns.countP _ = 0
    rw [htakers]
    simp
  | deliver conns conn arrival hconn htakers howing =>
    show s.home.pending = true ↔ _ ∧ _ ∧ s.home.stopping = false ∧ conns.countP _ = 0
    rw [htakers]
    exact hentry
  | fail hstopping hpending => simp
  | halt hnone =>
    show s.home.pending = true ↔ _ ∧ _ ∧ true = false ∧ _
    rcases hnone with hstopping | hpending
    · simp [hentry, hstopping]
    · simp [hpending]

theorem step {setup : CallSetup} (h : Located setup.kind s) (hbudget : Budget s) {s' : Calling}
    (hstep : s.Steps setup s') : Located setup.kind s' := by
  cases hstep with
  | noTarget what hpc | schedule hpc | resume arrival hpc | wake hpc =>
    exact h.caller hpc nofun rfl rfl
  | register hpc =>
    obtain ⟨-, hzero, -⟩ := hbudget.fresh (by rw [hpc]; rfl)
    refine ⟨nofun, ?_⟩
    show (!s.home.stopping) = true ↔
      true = true ∧ false = false ∧ s.home.stopping = false ∧ s.home.takers = 0
    simp [hzero]
  | encode error hpc =>
    cases error <;> exact h.caller hpc nofun rfl rfl
  | inside | expire | release | close => exact h.caller rfl h.leaving rfl rfl
  | dispatched error hpc hkind =>
    cases error with
    | none => exact h.caller hpc nofun rfl rfl
    | some what => exact h.caller hpc nofun rfl (decide_eq_false hkind)
  | queued error hpc hkind =>
    cases error with
    | none => exact h.caller hpc nofun rfl rfl
    | some what =>
      refine h.caller hpc ?_ rfl rfl
      intro failure heq
      cases heq
      exact decide_eq_true hkind
  | deregister failure hpc =>
    refine ⟨nofun, ?_⟩
    have hwithdraws := h.leaving failure hpc
    show false = true ↔ _ ∧ failure.withdraws setup.kind = false ∧ _
    simp [hwithdraws]
  | recv hpc =>
    rcases s.recv_cases with ⟨v, q, -, heq⟩ | ⟨-, -, heq⟩ | ⟨-, -, heq⟩
    all_goals
      rw [heq]
      exact h.caller hpc nofun rfl rfl
  | cancel arrival hpc =>
    rcases arrival with _ | _ | _
    · exact h.caller hpc nofun rfl rfl
    · refine h.caller hpc ?_ rfl rfl
      intro failure heq
      cases heq
      rfl
    · exact h.caller hpc nofun rfl rfl
  | drained item hpc =>
    split <;> exact h.caller hpc nofun rfl rfl
  | timeout htimer => exact ⟨h.leaving, h.entry⟩
  | home home hmoves => exact h.home hmoves

end Located

/-! ## What travels on the channel -/

/-- The caller was given the stream. -/
def CallerPc.hasStream : CallerPc → Bool
  | .streaming | .returned | .threw .noResponse => true
  | _ => false

/-- `recv` found the channel closed. -/
def CallerPc.foundClosed : CallerPc → Bool
  | .received none | .threw .closed => true
  | _ => false

/-- The arrival was sent. -/
def Calling.Sent (s : Calling) (arrival : Arrival) : Prop :=
  ∃ who, (who, arrival) ∈ s.home.sent

/-- What the caller gets was sent, a stream by a connection that had the entry; the channel
    stays open until the caller has left. -/
structure Carried (s : Calling) : Prop where
  queue    : ∀ arrival ∈ s.home.arrival.queue, s.Sent arrival
  slot     : ∀ arrival, s.home.slot = some arrival → s.Sent arrival
  received : ∀ arrival, s.pc = .received (some arrival) → s.Sent arrival
  stream   : s.pc.hasStream = true → s.Sent .stream
  taker    : s.Sent .stream → 0 < s.home.takers
  decided  : ∀ who, (who, .stream) ∈ s.home.sent → who.hadEntry = true
  held     : s.home.arrival.receivers = 0 → s.pc.left = true
  closed   : s.home.arrival.closed = true → s.pc.left = true
  opened   : s.pc.foundClosed = false

namespace Carried

variable {s : Calling}

theorem init : Carried {} where
  queue := nofun
  slot := nofun
  received := nofun
  stream := nofun
  taker := fun ⟨_, hsent⟩ => nomatch hsent
  decided := nofun
  held := nofun
  closed := nofun
  opened := rfl

/-- Steps of the caller that leave the channel alone. -/
theorem caller (h : Carried s) {old pc : CallerPc} (hpc : s.pc = old) {timer : Timer}
    {dispatch : ControlPlane.Dispatching}
    (hreceived : ∀ arrival, pc = .received (some arrival) → s.Sent arrival)
    (hstream : pc.hasStream = true → s.Sent .stream) (hleft : old.left = true → pc.left = true)
    (hopened : pc.foundClosed = false) : Carried { s with pc, timer, dispatch } where
  queue := h.queue
  slot := h.slot
  received := hreceived
  stream := hstream
  taker := h.taker
  decided := h.decided
  held := fun hzero => hleft (hpc ▸ h.held hzero)
  closed := fun hclosed => hleft (hpc ▸ h.closed hclosed)
  opened := hopened

/-- A send by someone who does not send the stream, or who had the entry. -/
theorem signal (h : Carried s) (who : Signaller) (arrival : Arrival) {timer : Timer}
    {stopping pending : Bool} {conns : List CallHomePc}
    (htakers : conns.countP CallHomePc.hadEntry = s.home.takers)
    (hstream : arrival = .stream → 0 < s.home.takers ∧ who.hadEntry = true) :
    Carried { s with
      timer
      home := { s.home.signal who arrival with stopping, pending, conns } } := by
  obtain ⟨hqueue, hslot⟩ := s.home.queue_signal who arrival
  have hold : ∀ a, s.Sent a → ∃ w, (w, a) ∈ s.home.sent ++ [(who, arrival)] :=
    fun a ⟨w, hw⟩ => ⟨w, List.mem_append_left _ hw⟩
  have hnew : ∃ w, (w, arrival) ∈ s.home.sent ++ [(who, arrival)] :=
    ⟨who, List.mem_append_right _ List.mem_cons_self⟩
  refine ⟨?_, ?_, fun a hpc => hold a (h.received a hpc), fun hpc => hold _ (h.stream hpc), ?_,
    ?_, ?_, ?_, h.opened⟩
  · intro a ha
    rcases hqueue with hsame | hpushed
    · exact hold a (h.queue a (hsame ▸ ha))
    · rcases List.mem_append.mp (hpushed ▸ ha) with hmem | hlast
      · exact hold a (h.queue a hmem)
      · cases List.mem_singleton.mp hlast
        exact hnew
  · intro a ha
    rcases hslot with hsame | hfilled
    · exact hold a (h.slot a (hsame ▸ ha))
    · cases hfilled.symm.trans ha
      exact hnew
  · intro hsent
    show 0 < conns.countP _
    rw [htakers]
    obtain ⟨w, hw⟩ := hsent
    rcases List.mem_append.mp hw with hmem | hlast
    · exact h.taker ⟨w, hmem⟩
    · cases List.mem_singleton.mp hlast
      exact (hstream rfl).1
  · intro w hw
    rcases List.mem_append.mp hw with hmem | hlast
    · exact h.decided w hmem
    · cases List.mem_singleton.mp hlast
      exact (hstream rfl).2
  · intro hzero
    exact h.held ((s.home.receivers_signal who arrival).symm.trans hzero)
  · intro hclosed
    exact h.closed ((s.home.closed_signal who arrival).symm.trans hclosed)

theorem home (h : Carried s) {home : PendingStream} (hmoves : s.home.Moves home) :
    Carried { s with home } := by
  cases hmoves with
  | idle conns htakers howing =>
    exact ⟨h.queue, h.slot, h.received, h.stream,
      fun hsent => (h.taker hsent).trans_eq htakers.symm, h.decided, h.held, h.closed, h.opened⟩
  | take conns hpending htakers howing =>
    refine ⟨h.queue, h.slot, h.received, h.stream, fun _ => ?_, h.decided, h.held, h.closed,
      h.opened⟩
    show 0 < conns.countP _
    omega
  | deliver conns conn arrival hconn htakers howing =>
    refine h.signal _ _ htakers fun _ => ?_
    have hmem := List.mem_of_getElem? hconn
    exact ⟨List.countP_pos_iff.mpr ⟨_, hmem, rfl⟩, rfl⟩
  | fail hstopping hpending => exact h.signal _ _ rfl nofun
  | halt hnone =>
    exact ⟨h.queue, h.slot, h.received, h.stream, h.taker, h.decided, h.held, h.closed, h.opened⟩

theorem recv (h : Carried s) (hpc : s.pc = .receiving) : Carried s.recv := by
  have hopen : s.home.arrival.closed = true → False := by
    intro hclosed
    have hleft := h.closed hclosed
    rw [hpc] at hleft
    cases hleft
  have hheld : s.home.arrival.receivers = 0 → False := by
    intro hzero
    have hleft := h.held hzero
    rw [hpc] at hleft
    cases hleft
  rcases s.recv_cases with ⟨v, q, hqueue, heq⟩ | ⟨-, hclosed, -⟩ | ⟨-, -, heq⟩
  · rw [heq]
    refine ⟨fun a ha => ?_, h.slot, fun a hreceived => ?_, nofun, h.taker,
      h.decided, fun hzero => (hheld hzero).elim, fun hclosed => (hopen hclosed).elim, rfl⟩
    · exact h.queue a (hqueue ▸ List.mem_cons_of_mem v ha)
    · cases hreceived
      exact h.queue v (hqueue ▸ List.mem_cons_self)
  · exact (hopen hclosed).elim
  · rw [heq]
    exact ⟨h.queue, h.slot, nofun, nofun, h.taker, h.decided, fun hzero => (hheld hzero).elim,
      fun hclosed => (hopen hclosed).elim, rfl⟩

theorem step {setup : CallSetup} (h : Carried s) {s' : Calling}
    (hleaving : ∀ failure, s.pc = .withdrawing failure → failure.withdraws setup.kind = true)
    (hstep : s.Steps setup s') : Carried s' := by
  cases hstep with
  | noTarget what hpc => exact h.caller hpc nofun nofun (fun _ => rfl) rfl
  | register hpc =>
    have hcaller : Carried { s with pc := .registered } := h.caller hpc nofun nofun nofun rfl
    exact ⟨hcaller.queue, hcaller.slot, nofun, nofun, hcaller.taker, hcaller.decided, hcaller.held,
      hcaller.closed, rfl⟩
  | encode error hpc | dispatched error hpc | queued error hpc =>
    cases error <;> exact h.caller hpc nofun nofun nofun rfl
  | inside | expire => exact h.caller rfl h.received h.stream (fun hleft => hleft) h.opened
  | deregister failure hpc =>
    have hwithdraws := hleaving failure hpc
    have hcaller : Carried { s with pc := .threw failure } := by
      refine h.caller hpc nofun ?_ nofun ?_
      · cases failure with
        | noResponse => cases hwithdraws
        | _ => nofun
      · cases failure with
        | closed => cases hwithdraws
        | _ => rfl
    exact ⟨hcaller.queue, hcaller.slot, hcaller.received, hcaller.stream, hcaller.taker,
      hcaller.decided, hcaller.held, hcaller.closed, hcaller.opened⟩
  | schedule hpc => exact h.caller hpc nofun nofun nofun rfl
  | recv hpc => exact h.recv hpc
  | resume arrival hpc hslot =>
    have hcaller : Carried { s with pc := .received (some arrival) } :=
      h.caller hpc (fun a heq => by cases heq; exact h.slot arrival hslot) nofun nofun rfl
    exact ⟨hcaller.queue, nofun, hcaller.received, nofun, hcaller.taker, hcaller.decided,
      hcaller.held, hcaller.closed, rfl⟩
  | wake hpc hclosed =>
    have hleft := h.closed hclosed
    rw [hpc] at hleft
    cases hleft
  | cancel arrival hpc =>
    rcases arrival with _ | _ | _
    · have hopened := h.opened
      rw [hpc] at hopened
      cases hopened
    · exact h.caller hpc nofun nofun nofun rfl
    · exact h.caller hpc nofun (fun _ => h.received .stream hpc) nofun rfl
  | drained item hpc =>
    have hstream := h.stream (by rw [hpc]; rfl)
    split <;> exact h.caller hpc nofun (fun _ => hstream) (fun _ => rfl) rfl
  | timeout htimer => exact h.signal _ _ rfl nofun
  | release hleft =>
    exact ⟨h.queue, h.slot, h.received, h.stream, h.taker, h.decided, fun _ => hleft, h.closed,
      h.opened⟩
  | close hreceivers =>
    obtain ⟨waiters, heq⟩ := closeLocked_eq s.home.arrival
    rw [heq]
    exact ⟨h.queue, h.slot, h.received, h.stream, h.taker, h.decided, h.held,
      fun _ => h.held hreceivers, h.opened⟩
  | home home hmoves => exact h.home hmoves

end Carried

/-! ## Every interleaving -/

section reachable

variable {setup : CallSetup} {s : Calling}

theorem invariant_of_reachable (h : (calls setup).Reachable s) :
    Budget s ∧ Located setup.kind s ∧ Carried s := by
  refine @System.Reachable.invariant _ _ (calls setup)
    (fun s => Budget s ∧ Located setup.kind s ∧ Carried s) ⟨.init, .init, .init⟩ ?_ s h
  intro s l s' ⟨hbudget, hlocated, hcarried⟩ hexec
  have hstep := Calling.exec_steps hexec
  exact ⟨hbudget.step hlocated.leaving hstep, hlocated.step hbudget hstep,
    hcarried.step hlocated.leaving hstep⟩

/-- Someone is about to send on the arrival channel. -/
def Calling.Sending (s : Calling) : Prop :=
  (∃ (conn : Nat) (arrival : Arrival), s.home.conns[conn]? = some (.sending arrival)) ∨
    s.timer = .firing ∨
    (s.home.pending = true ∧ s.home.stopping = false)

/-- A send is outstanding only if at most one was made. -/
theorem Budget.room (h : Budget s) (hsending : s.Sending) : s.home.sent.length ≤ 1 := by
  have hentry := h.entry
  have htimer := h.timer
  rw [s.home.length_sent]
  rcases hsending with ⟨conn, arrival, hconn⟩ | hfiring | ⟨hpending, -⟩
  · have howing : 0 < s.home.owing :=
      List.countP_pos_iff.mpr ⟨_, List.mem_of_getElem? hconn, rfl⟩
    split at htimer <;> omega
  · rw [hfiring, if_neg nofun] at htimer
    omega
  · rw [hpending, Bool.toNat_true] at hentry
    split at htimer <;> omega

/-- In every interleaving: at most one arrival is sent by whoever took the entry out of the
    table and at most one by the timer; no send finds the channel full; at most one of the
    arrivals is a stream; and once the caller has thrown on an error, a call-home that has yet
    to look for the entry is turned away. -/
theorem arrival_decided_once (h : (calls setup).Reachable s) :
    (s.home.decisions ≤ 1 ∧ s.home.timeouts ≤ 1 ∧ s.home.sent.length ≤ 2) ∧
    (s.Sending → s.home.arrival.canPush = true) ∧
    s.home.sent.countP (fun x => x.2 = .stream) ≤ 1 ∧
    (∀ (error : Bytes) (conn : Nat), s.pc = .threw (.arrival error) →
      s.home.conns[conn]? = some .arriving → s.home.exec (.lookup conn) =
        some { s.home with conns := s.home.conns.set conn .turnedAway }) := by
  obtain ⟨hbudget, hlocated, hcarried⟩ := invariant_of_reachable h
  have hentry := hbudget.entry
  have htimer := hbudget.timer
  have hlength := s.home.length_sent
  refine ⟨⟨by omega, by omega, by omega⟩, ?_, ?_, ?_⟩
  · intro hsending
    have hroom := hbudget.room hsending
    have hqueue := hbudget.queue
    have hcapacity := hbudget.capacity
    have hlt : s.home.arrival.queue.length < s.home.arrival.capacity := by omega
    simp [Runtime.ChannelState.canPush, hlt]
  · have hle : s.home.sent.countP (fun x => x.2 = .stream) ≤ s.home.decisions := by
      refine List.countP_mono_left fun x hx hstream => ?_
      exact hcarried.decided x.1 (of_decide_eq_true hstream ▸ hx)
    omega
  · intro error conn hpc hconn
    have hpending : s.home.pending = false := by
      rw [← Bool.not_eq_true, hlocated.entry, hpc]
      simp [withdrew, Failure.withdraws]
    simp [exec, lookup, hconn, hpending]

/-- The failures between the registration and `await_arrival` that no one catches. -/
def Failure.early (kind : CallKind) : Failure → Bool
  | .encode _ => true
  | .dispatch _ => kind ≠ .queue
  | _ => false

/-- A failed call leaves its entry behind exactly if it failed before `await_arrival`, and not
    in `queue_dispatch`, while neither a call-home nor the shutdown had taken the entry. -/
theorem pending_after_failure_iff (h : (calls setup).Reachable s) {failure : Failure}
    (hthrew : s.pc = .threw failure) :
    s.home.pending = true ↔ failure.early setup.kind = true ∧ s.home.stopping = false ∧
      ∀ c ∈ s.home.conns, c.hadEntry = false := by
  obtain ⟨-, hlocated, hcarried⟩ := invariant_of_reachable h
  have htakers : s.home.takers = 0 ↔ ∀ c ∈ s.home.conns, c.hadEntry = false := by
    rw [takers, List.countP_eq_zero]
    simp only [Bool.not_eq_true]
  rw [hlocated.entry, hthrew, ← htakers]
  cases failure with
  | noTarget what => simp [madeEntry, Failure.early]
  | encode | dispatch => simp [madeEntry, withdrew, Failure.withdraws, Failure.early]
  | closed =>
    -- the caller has a sender of its own
    have hopened := hcarried.opened
    rw [hthrew] at hopened
    cases hopened
  | arrival error => simp [withdrew, Failure.withdraws, Failure.early]
  | noResponse =>
    -- the stream came from a connection that had the entry
    have htaker := hcarried.taker (hcarried.stream (by rw [hthrew]; rfl))
    have hne : s.home.takers ≠ 0 := by omega
    simp [hne]

end reachable

/-! ## Runs -/

def queueSetup : CallSetup := ⟨.queue, { address := [], subject := [] }⟩

def streamSetup : CallSetup := ⟨.stream, { address := str "10.0.0.7:9000", subject := [] }⟩

/-- A call-home takes the entry, the timer is faster and the caller gives up; then the
    stream is delivered, and another call-home comes. -/
def raceRun : List CallStep :=
  [.register, .encode none, .queued none, .schedule, .home .accept, .home (.lookup 0), .expire,
    .timeout, .home (.prologue 0 (some none)), .home (.deliver 0), .recv, .cancel, .deregister,
    .home .accept]

theorem raceRun_runs : ((calls queueSetup).run raceRun).isSome = true := rfl

theorem raceRun_decided :
    ∃ s, (calls queueSetup).run raceRun = some s ∧
      s.home.sent = [(.timer, timedOut), (.callHome 0, .stream)] ∧
      s.home.decisions ≤ 1 ∧
      s.home.exec (.lookup 1) =
        some { s.home with conns := s.home.conns.set 1 .turnedAway } :=
  have hdecided := arrival_decided_once (System.Reachable.of_run_isSome raceRun_runs)
  ⟨_, (Option.some_get raceRun_runs).symm, rfl, hdecided.1.1,
    hdecided.2.2.2 _ 1 rfl rfl⟩

/-- No instance is subscribed to the queue. -/
def noResponders : List CallStep :=
  [.register, .encode none, .queued (some (str "no responders")), .deregister]

theorem noResponders_runs : ((calls queueSetup).run noResponders).isSome = true := rfl

theorem noResponders_withdrawn :
    ∃ s, (calls queueSetup).run noResponders = some s ∧
      s.pc = .threw (.dispatch (str "no responders")) ∧ ¬ s.home.pending = true :=
  ⟨_, (Option.some_get noResponders_runs).symm, rfl, fun hpending => nomatch
    ((pending_after_failure_iff (System.Reachable.of_run_isSome noResponders_runs) rfl).mp
      hpending).1⟩

/-- The instance that the caller picked cannot be reached. -/
theorem unreachable_leaves_entry :
    ∃ s, (calls streamSetup).run
        [.register, .encode none, .dispatch (.connect .unreachable), .dispatched] = some s ∧
      s.pc = .threw (.dispatch (str "control plane: cannot reach instance at 10.0.0.7:9000")) ∧
      s.home.pending = true :=
  ⟨_, rfl, rfl, rfl⟩

end DynamoCpp.Components
