import DynamoCpp.Runtime.Channel

/-! # Receivers of a channel

    Where the values go that a channel hands out: each to one call of `recv` or
    `sync_recv`, which returns it.  With the order of the values this makes the channel a
    FIFO queue that neither loses nor duplicates anything.
-/

namespace DynamoCpp.Runtime

open Framework

variable {T : Type}

namespace Channel

/-- The calls that have started: parked, taken by `close`, about to go on, and done. -/
def calls (c : Channel T) : List Nat :=
  c.state.asyncReceivers ++ c.closing ++ c.resuming ++ c.given.map (·.1)

/-- Every value that was handed out went to one call, which returns it or is about to. -/
structure Accounted (c : Channel T) : Prop where
  nodup  : c.calls.Nodup
  fresh  : ∀ call ∈ c.calls, call < c.nextCall
  empty  : ∀ call, c.nextCall ≤ call → c.slots call = none
  handed : ∀ call value, (call, value) ∈ c.handedOut ↔
    (call, some value) ∈ c.given ∨ call ∈ c.resuming ∧ c.slots call = some value
  once   : (c.handedOut.map (·.1)).Nodup

theorem accounted_init (capacity : Nat) :
    Accounted ({ state := { capacity := capacity } } : Channel T) where
  nodup := List.nodup_nil
  fresh := fun _ h => absurd h List.not_mem_nil
  empty := fun _ _ => rfl
  handed := by simp
  once := List.nodup_nil

namespace Accounted

variable {c : Channel T} (h : Accounted c)
include h

theorem nextCall_not_mem : c.nextCall ∉ c.calls := fun hmem =>
  Nat.lt_irrefl _ (h.fresh _ hmem)

/-- A call that has neither returned nor is about to has been handed nothing. -/
theorem not_handed {call : Nat} (hresuming : call ∉ c.resuming) (hgiven : call ∉ c.given.map (·.1))
    (value : T) : (call, value) ∉ c.handedOut := by
  rw [h.handed]
  rintro (hmem | ⟨hmem, -⟩)
  · exact hgiven (List.mem_map_of_mem hmem)
  · exact hresuming hmem

/-- Such a call is handed a value. -/
theorem hand {call : Nat} (hresuming : call ∉ c.resuming) (hgiven : call ∉ c.given.map (·.1))
    (value : T) :
    (∀ other v, (other, v) ∈ c.handedOut ++ [(call, value)] ↔
      (other, some v) ∈ c.given ∨
        other ∈ c.resuming ++ [call] ∧ Function.update c.slots call (some value) other = some v) ∧
      ((c.handedOut ++ [(call, value)]).map (·.1)).Nodup := by
  have hnone := h.not_handed hresuming hgiven
  constructor
  · intro other v
    rw [List.mem_append, List.mem_singleton, Prod.mk.injEq, h.handed, List.mem_append,
      List.mem_singleton]
    by_cases hother : other = call
    · subst hother
      simp [hresuming, eq_comm]
    · simp [hother]
  · rw [List.map_append, List.nodup_append]
    refine ⟨h.once, List.nodup_singleton _, ?_⟩
    intro other hother other' hcall heq
    obtain ⟨p, hmem, rfl⟩ := List.mem_map.mp hother
    have hp : p.1 = call := heq.trans (List.mem_singleton.mp hcall)
    exact hnone p.2 (hp ▸ hmem)

/-- The calls are those that they were, in other places. -/
theorem of_perm {calls : List Nat} (hperm : calls.Perm c.calls) :
    calls.Nodup ∧ ∀ call ∈ calls, call < c.nextCall :=
  ⟨hperm.nodup_iff.mpr h.nodup, fun call hcall => h.fresh call (hperm.mem_iff.mp hcall)⟩

/-- A new call joins them. -/
theorem of_perm_new {calls : List Nat} (hperm : calls.Perm (c.nextCall :: c.calls)) :
    calls.Nodup ∧ ∀ call ∈ calls, call < c.nextCall + 1 := by
  refine ⟨hperm.nodup_iff.mpr (List.nodup_cons.mpr ⟨h.nextCall_not_mem, h.nodup⟩), ?_⟩
  intro call hcall
  rcases List.mem_cons.mp (hperm.mem_iff.mp hcall) with rfl | hcall
  · exact Nat.lt_succ_self _
  · exact Nat.lt_succ_of_lt (h.fresh call hcall)

theorem nextCall_new : c.nextCall ∉ c.resuming ∧ c.nextCall ∉ c.given.map (·.1) := by
  have hnew := h.nextCall_not_mem
  simp only [calls, List.mem_append, not_or] at hnew
  exact ⟨hnew.1.2, hnew.2⟩

/-- Slots that have not been used stay empty. -/
theorem empty_update {call : Nat} (hcall : call < c.nextCall) (slot : Option T) :
    ∀ other, c.nextCall ≤ other → Function.update c.slots call slot other = none := by
  intro other hother
  rw [Function.update_of_ne (by omega)]
  exact h.empty other hother

theorem send (value : T) : Accounted (c.send value) := by
  rcases send_cases c value with ⟨-, heq⟩ | ⟨w, ws, -, hparked, heq⟩ | ⟨-, -, heq⟩
  · rw [heq]
    exact h
  · have hw : w ∈ c.calls := by simp [calls, hparked]
    have hnodup := h.nodup
    simp only [calls, hparked, List.cons_append, List.nodup_cons, List.mem_append, not_or] at hnodup
    obtain ⟨hhanded, honce⟩ := h.hand hnodup.1.1.2 hnodup.1.2 value
    rw [heq]
    have hcalls := @of_perm _ c h (ws ++ c.closing ++ (c.resuming ++ [w]) ++ c.given.map (·.1)) (by
      rw [List.perm_iff_count]
      intro call
      simp only [calls, hparked, List.count_append, List.count_cons, List.count_nil]
      omega)
    exact ⟨hcalls.1, hcalls.2, h.empty_update (h.fresh w hw) _, hhanded, honce⟩
  · rw [heq]
    exact ⟨h.nodup, h.fresh, h.empty, h.handed, h.once⟩

theorem recv : Accounted c.recv := by
  obtain ⟨hresuming, hgiven⟩ := h.nextCall_new
  -- the calls if the new one does not park
  have hcalls := @of_perm_new _ c h
    (c.state.asyncReceivers ++ c.closing ++ (c.resuming ++ [c.nextCall]) ++ c.given.map (·.1)) (by
    rw [List.perm_iff_count]
    intro call
    simp only [calls, List.count_append, List.count_cons, List.count_nil]
    omega)
  rcases recv_cases c with ⟨value, queue, -, heq⟩ | ⟨-, -, heq⟩ | ⟨-, -, heq⟩
  · obtain ⟨hhanded, honce⟩ := h.hand hresuming hgiven value
    rw [heq]
    refine ⟨hcalls.1, hcalls.2, fun other hother => ?_, hhanded, honce⟩
    have hother : c.nextCall + 1 ≤ other := hother
    show Function.update c.slots c.nextCall (some value) other = none
    rw [Function.update_of_ne (by omega)]
    exact h.empty other (by omega)
  · rw [heq]
    refine ⟨hcalls.1, hcalls.2, fun other hother => h.empty other (Nat.le_of_succ_le hother), ?_,
      h.once⟩
    -- the slot of the new call is empty
    intro call value
    have hslot := h.empty c.nextCall (Nat.le_refl _)
    show _ ↔ _ ∨ call ∈ c.resuming ++ [c.nextCall] ∧ _
    rw [h.handed, List.mem_append, List.mem_singleton]
    by_cases hcall : call = c.nextCall
    · subst hcall
      simp [hslot]
    · simp [hcall]
  · have hcalls := @of_perm_new _ c h
      (c.state.asyncReceivers ++ [c.nextCall] ++ c.closing ++ c.resuming ++ c.given.map (·.1)) (by
      rw [List.perm_iff_count]
      intro call
      simp only [calls, List.count_append, List.count_cons, List.count_nil]
      omega)
    rw [heq]
    exact ⟨hcalls.1, hcalls.2, fun other hother => h.empty other (Nat.le_of_succ_le hother),
      h.handed, h.once⟩

theorem syncRecv : Accounted c.syncRecv := by
  obtain ⟨hresuming, hgiven⟩ := h.nextCall_new
  have hcalls := @of_perm_new _ c h (c.state.asyncReceivers ++ c.closing ++ c.resuming ++
      (c.given.map (·.1) ++ [c.nextCall])) (by
    rw [List.perm_iff_count]
    intro call
    simp only [calls, List.count_append, List.count_cons, List.count_nil]
    omega)
  have hempty : ∀ other, c.nextCall + 1 ≤ other → c.slots other = none := fun other hother =>
    h.empty other (Nat.le_of_succ_le hother)
  rcases syncRecv_cases c with ⟨value, queue, -, heq⟩ | ⟨-, heq⟩
  · obtain ⟨-, honce⟩ := h.hand hresuming hgiven value
    rw [heq]
    refine ⟨?_, ?_, hempty, ?_, honce⟩
    · simpa [calls] using hcalls.1
    · simpa [calls] using hcalls.2
    · intro call v
      show (call, v) ∈ c.handedOut ++ [(c.nextCall, value)] ↔
        (call, some v) ∈ c.given ++ [(c.nextCall, some value)] ∨ call ∈ c.resuming ∧ _
      rw [List.mem_append, List.mem_append, h.handed, List.mem_singleton, List.mem_singleton]
      simp only [Prod.mk.injEq, Option.some.injEq]
      tauto
  · rw [heq]
    refine ⟨?_, ?_, hempty, ?_, h.once⟩
    · simpa [calls] using hcalls.1
    · simpa [calls] using hcalls.2
    · intro call v
      show (call, v) ∈ c.handedOut ↔
        (call, some v) ∈ c.given ++ [(c.nextCall, none)] ∨ call ∈ c.resuming ∧ _
      rw [List.mem_append, h.handed, List.mem_singleton]
      simp

theorem resume {call : Nat} (hcall : call ∈ c.resuming) : Accounted (c.resume call) := by
  have hnodup : c.resuming.Nodup := by
    have hnodup := h.nodup
    simp only [calls, List.nodup_append] at hnodup
    exact hnodup.1.2.1
  have hcalls := @of_perm _ c h (c.state.asyncReceivers ++ c.closing ++ c.resuming.erase call ++
      (c.given.map (·.1) ++ [call])) (by
    have hcount := List.count_pos_iff.mpr hcall
    rw [List.perm_iff_count]
    intro other
    simp only [calls, List.count_append, List.count_cons, List.count_nil, List.count_erase]
    by_cases hother : call = other
    · subst hother
      simp
      omega
    · simp [hother])
  refine ⟨?_, ?_, h.empty, ?_, h.once⟩
  · simpa [calls, Channel.resume] using hcalls.1
  · simpa [calls, Channel.resume] using hcalls.2
  · intro other v
    show (other, v) ∈ c.handedOut ↔ (other, some v) ∈ c.given ++ [(call, c.slots call)] ∨
      other ∈ c.resuming.erase call ∧ c.slots other = some v
    rw [h.handed, List.mem_append, List.mem_singleton, hnodup.mem_erase_iff, Prod.mk.injEq]
    by_cases hother : other = call
    · subst hother
      simp [hcall, eq_comm]
    · simp [hother]

theorem close : Accounted c.close := by
  rcases close_cases c with ⟨-, heq⟩ | ⟨-, heq⟩
  · rw [heq]
    exact h
  · have hcalls := @of_perm _ c h
      ([] ++ (c.closing ++ c.state.asyncReceivers) ++ c.resuming ++ c.given.map (·.1)) (by
      rw [List.perm_iff_count]
      intro call
      simp only [calls, List.count_append, List.count_nil]
      omega)
    rw [heq]
    exact ⟨hcalls.1, hcalls.2, h.empty, h.handed, h.once⟩

theorem closeNext : Accounted c.closeNext := by
  rcases closeNext_cases c with heq | ⟨w, ws, hclosing, heq⟩
  · rw [heq]
    exact h
  · have hcalls := @of_perm _ c h
      (c.state.asyncReceivers ++ ws ++ (c.resuming ++ [w]) ++ c.given.map (·.1)) (by
      rw [List.perm_iff_count]
      intro call
      simp only [calls, hclosing, List.count_append, List.count_cons, List.count_nil]
      omega)
    have hw : w ∈ c.calls := by simp [calls, hclosing]
    have hnodup := h.nodup
    simp only [calls, hclosing, List.nodup_append, List.mem_append] at hnodup
    have hresuming : w ∉ c.resuming := fun hmem =>
      hnodup.1.2.2 w (.inr List.mem_cons_self) w hmem rfl
    have hgiven : w ∉ c.given.map (·.1) := fun hmem =>
      hnodup.2.2 w (.inl (.inr List.mem_cons_self)) w hmem rfl
    -- so resetting its slot takes nothing away
    have hnone := h.not_handed hresuming hgiven
    rw [heq]
    refine ⟨hcalls.1, hcalls.2, h.empty_update (h.fresh w hw) _, ?_, h.once⟩
    intro call v
    show (call, v) ∈ c.handedOut ↔ (call, some v) ∈ c.given ∨
      call ∈ c.resuming ++ [w] ∧ Function.update c.slots w none call = some v
    by_cases hcall : call = w
    · subst hcall
      have hgone : (call, some v) ∉ c.given := fun hmem => hgiven (List.mem_map_of_mem hmem)
      simp [hnone v, hgone]
    · rw [h.handed, List.mem_append, List.mem_singleton, Function.update_of_ne hcall]
      simp [hcall]

end Accounted

/-! ## All steps -/

section exec

variable {capacity : Nat} {c c' : Channel T} (hordered : Ordered capacity c)
  (haccounted : Accounted c)
include hordered haccounted

/-- The counts of handles do not matter. -/
theorem recount (senders receivers closers : Nat) :
    Ordered capacity
        { c with
          state := { c.state with senders := senders, receivers := receivers }
          closers := closers } ∧
      Accounted
        { c with
          state := { c.state with senders := senders, receivers := receivers }
          closers := closers } :=
  ⟨⟨hordered.limit, hordered.fifo, hordered.bounded, hordered.parked, hordered.drained⟩,
    ⟨haccounted.nodup, haccounted.fresh, haccounted.empty, haccounted.handed, haccounted.once⟩⟩

theorem exec_keeps {l : ChannelStep T} (hexec : c.exec l = some c') :
    Ordered capacity c' ∧ Accounted c' := by
  cases l with
  | send value =>
    obtain ⟨hcan, rfl⟩ := enabled hexec
    exact ⟨hordered.send hcan value, haccounted.send value⟩
  | recv =>
    obtain rfl := Option.some.inj hexec
    exact ⟨hordered.recv, haccounted.recv⟩
  | syncRecv =>
    obtain ⟨hcan, rfl⟩ := enabled hexec
    exact ⟨hordered.syncRecv hcan, haccounted.syncRecv⟩
  | resume call =>
    obtain ⟨hcall, rfl⟩ := enabled hexec
    exact ⟨hordered.resume hcall, haccounted.resume hcall⟩
  | close =>
    obtain rfl := Option.some.inj hexec
    exact ⟨hordered.close, haccounted.close⟩
  | closeNext =>
    obtain rfl := Option.some.inj hexec
    exact ⟨hordered.closeNext, haccounted.closeNext⟩
  | closeReleased =>
    obtain ⟨-, rfl⟩ := not_blocked hexec
    exact recount hordered.close haccounted.close _ _ _
  | copySender | copyReceiver =>
    obtain rfl := Option.some.inj hexec
    exact recount hordered haccounted _ _ _
  | releaseSender | releaseReceiver =>
    obtain ⟨-, rfl⟩ := not_blocked hexec
    exact recount hordered haccounted _ _ _

end exec

end Channel

/-- **A channel is a FIFO queue.**  In every reachable state the accepted values are those
    that have been handed out, in that order, followed by the queue; the queue is within
    the capacity, and empty while a coroutine is parked; nobody is given nothing before the
    channel is closed and everything has been handed out.  Every value that was handed out
    went to one call, which has returned it or is about to. -/
theorem channel_is_fifo {capacity : Nat} {c : Channel T}
    (hc : (channel T capacity).Reachable c) :
    c.accepted = c.handedOut.map (·.2) ++ c.state.queue ∧
      c.state.queue.length ≤ capacity ∧
      (c.state.asyncReceivers ≠ [] → c.state.queue = []) ∧
      (∀ call, (call, none) ∈ c.given →
        c.state.closed = true ∧ c.accepted = c.handedOut.map (·.2)) ∧
      (c.handedOut.map (·.1)).Nodup ∧
      ∀ call value, (call, value) ∈ c.handedOut ↔
        (call, some value) ∈ c.given ∨ call ∈ c.resuming ∧ c.slots call = some value := by
  have hstep : ∀ (c : Channel T) l c', c.Ordered capacity ∧ c.Accounted →
      (channel T capacity).exec c l = some c' → c'.Ordered capacity ∧ c'.Accounted :=
    fun c l c' h hexec => Channel.exec_keeps h.1 h.2 hexec
  obtain ⟨hordered, haccounted⟩ : c.Ordered capacity ∧ c.Accounted := by
    refine hc.invariant ?_ hstep
    exact ⟨Channel.ordered_init capacity, Channel.accounted_init capacity⟩
  refine ⟨hordered.fifo, hordered.bounded, hordered.parked, fun call hcall => ?_, haccounted.once,
    haccounted.handed⟩
  obtain ⟨hclosed, hqueue⟩ := hordered.drained (.inr (.inr ⟨call, hcall⟩))
  refine ⟨hclosed, ?_⟩
  rw [hordered.fifo, hqueue, List.append_nil]

/-- A value goes to a parked receiver, another through the queue; the last of three
    receivers is parked when the channel is closed. -/
theorem channel_is_fifo_run :
    ∃ c, (channel Nat 1).run [.recv, .send 5, .send 6, .syncRecv, .recv, .resume 0, .close,
          .send 7, .closeNext, .resume 2] = some c ∧
      c.given = [(1, some 6), (0, some 5), (2, none)] ∧
      c.state.closed = true ∧ c.accepted = c.handedOut.map (·.2) := by
  refine System.exists_run (·.given) [(1, some 6), (0, some 5), (2, none)] rfl
    fun c hrun hgiven => ?_
  exact ⟨hgiven, (channel_is_fifo (.of_run hrun)).2.2.2.1 2 (by simp [hgiven])⟩

end DynamoCpp.Runtime
