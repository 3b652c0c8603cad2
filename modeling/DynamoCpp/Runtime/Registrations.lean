import DynamoCpp.Runtime.TokenTree

/-! # Callbacks run once

    The callback of a registration is registered on its token, about to run, or has run,
    and it is in one of these places only.  A registration that is dropped before the
    token is cancelled takes its callback out of the first place.
-/

namespace DynamoCpp.Runtime

open Framework

namespace Tokens

/-! ## Where a callback is -/

/-- The callbacks of the registrations and how often they have run. -/
structure Registered (w : Tokens) : Prop where
  fresh   : ∀ r, w.registrations ≤ r →
    w.running.flatten.count (.run (.user r)) = 0 ∧ ∀ t, (w.callbacks t).count (.user r) = 0
  owned   : ∀ t r, (w.callbacks t).count (.user r) ≠ 0 → w.owner r = t
  counted : ∀ r, r < w.registrations →
    w.runs r + w.running.flatten.count (.run (.user r)) +
      (w.callbacks (w.owner r)).count (.user r) =
      if w.droppedEarly r then 0 else 1
  waiting : ∀ r, r < w.registrations → w.cancelled (w.owner r) = false →
    w.runs r = 0 ∧ w.running.flatten.count (.run (.user r)) = 0
  armed   : ∀ r, w.armed r = true → r < w.registrations ∧ w.droppedEarly r = false

theorem registered_init : Registered {} where
  fresh := fun _ _ => ⟨rfl, fun _ => rfl⟩
  owned := fun _ _ h => absurd rfl h
  counted := fun _ h => absurd h (Nat.not_lt_zero _)
  waiting := fun _ h => absurd h (Nat.not_lt_zero _)
  armed := fun _ h => by cases h

theorem count_pending (w : Tokens) (a : Todo) : w.running.flatten.count a = w.pending.count a :=
  (Multiset.coe_count a _).symm

theorem count_toRun {w : Tokens} {t r : Nat} (ht : w.cancelled t = false) :
    (w.toRun t).count (.run (.user r)) = (w.callbacks t).count (.user r) := by
  rw [toRun, ht]
  exact List.count_map_of_injective _ _ (fun _ _ h => Todo.run.inj h) _

/-- Only the callbacks of the token gain the new one. -/
theorem count_register (w : Tokens) (t a : Nat) {r : Nat} (hne : r ≠ w.registrations) :
    (Function.update w.callbacks t (w.callbacks t ++ [.user w.registrations]) a).count (.user r) =
      (w.callbacks a).count (.user r) := by
  rw [Function.update_apply]
  split
  · next hat =>
    rw [hat, List.count_append, List.count_singleton, if_neg, Nat.add_zero]
    simpa using Ne.symm hne
  · rfl

namespace Registered

variable {w : Tokens} (h : Registered w)
include h

/-- Steps that leave the registrations and their callbacks alone. -/
theorem rewire {w' : Tokens} (hregistrations : w'.registrations = w.registrations)
    (howner : w'.owner = w.owner) (harmed : w'.armed = w.armed) (hruns : w'.runs = w.runs)
    (hdropped : w'.droppedEarly = w.droppedEarly)
    (hcancelled : ∀ t, w'.cancelled t = false → w.cancelled t = false)
    (hpending : ∀ r, w'.running.flatten.count (.run (.user r)) =
      w.running.flatten.count (.run (.user r)))
    (hcallbacks : ∀ t r, (w'.callbacks t).count (.user r) = (w.callbacks t).count (.user r)) :
    Registered w' where
  fresh := by
    rw [hregistrations]
    simpa only [hpending, hcallbacks] using h.fresh
  owned := by
    rw [howner]
    simpa only [hcallbacks] using h.owned
  counted := by
    rw [hregistrations, howner, hruns, hdropped]
    simpa only [hpending, hcallbacks] using h.counted
  waiting := by
    rw [hregistrations, howner, hruns]
    intro r hr hopen
    rw [hpending]
    exact h.waiting r hr (hcancelled _ hopen)
  armed := by
    rw [hregistrations, harmed, hdropped]
    exact h.armed

/-- A callback is registered on no token but that of its registration. -/
theorem unowned {t r : Nat} (howner : w.owner r ≠ t) : (w.callbacks t).count (.user r) = 0 := by
  by_contra hsome
  exact howner (h.owned t r hsome)

/-- The callbacks of a cancelled token are about to run. -/
theorem cancelState (t : Nat) (called : Nat → Bool) {running : List (List Todo)}
    (hrunning : ∀ r, running.flatten.count (.run (.user r)) =
      w.running.flatten.count (.run (.user r)) + (w.toRun t).count (.run (.user r))) :
    Registered { Tokens.cancelState { w with called := called } t with running := running } := by
  cases hcancelled : w.cancelled t with
  | true =>
    have heq : Tokens.cancelState { w with called := called } t = { w with called := called } :=
      cancelState_of_cancelled hcancelled
    rw [heq]
    rw [toRun_of_cancelled hcancelled] at hrunning
    exact h.rewire rfl rfl rfl rfl rfl (fun _ ha => ha) hrunning (fun _ _ => rfl)
  | false =>
    have heq : Tokens.cancelState { w with called := called } t =
        { w with
          called := called
          cancelled := Function.update w.cancelled t true
          callbacks := Function.update w.callbacks t [] } := cancelState_of_not hcancelled
    rw [heq]
    simp only [count_toRun hcancelled] at hrunning
    refine ⟨fun r hr => ⟨?_, fun a => ?_⟩, fun a r ha => ?_, fun r hr => ?_, fun r hr hopen => ?_,
      h.armed⟩
    · rw [hrunning, (h.fresh r hr).1, (h.fresh r hr).2 t]
    · by_cases hat : a = t
      · simp [hat]
      · simp only [Function.update_of_ne hat]
        exact (h.fresh r hr).2 a
    · have hat : a ≠ t := by
        rintro rfl
        simp at ha
      simp only [Function.update_of_ne hat] at ha
      exact h.owned a r ha
    · have hcounted := h.counted r hr
      simp only [hrunning]
      -- the callbacks of the token move to those about to run
      by_cases howner : w.owner r = t
      · rw [howner] at hcounted ⊢
        simp only [Function.update_self, List.count_nil]
        omega
      · have hnone := h.unowned howner
        simp only [Function.update_of_ne howner]
        omega
    · have howner : w.owner r ≠ t := by
        intro howner
        simp [howner] at hopen
      simp only [Function.update_of_ne howner] at hopen
      obtain ⟨hruns, hwaits⟩ := h.waiting r hr hopen
      refine ⟨hruns, ?_⟩
      rw [hrunning, hwaits, h.unowned howner]

theorem cancel (t : Nat) : Registered (w.cancel t) := by
  refine h.cancelState t _ fun r => ?_
  simp [List.count_append]

theorem reset_child (p t : Nat) : Registered (w.reset p (.child t)) := by
  unfold reset unregister
  by_cases hcancelled : w.cancelled p = true
  · simp only [hcancelled, if_true]
    exact h.rewire rfl rfl rfl rfl rfl (fun _ ha => ha) (fun _ => rfl) (fun _ _ => rfl)
  · simp only [hcancelled, Bool.false_eq_true, if_false]
    refine h.rewire rfl rfl rfl rfl rfl (fun _ ha => ha) (fun _ => rfl) fun a r => ?_
    simp only [Function.update_apply]
    split
    · next hap => rw [hap, List.count_erase_of_ne (by simp)]
    · rfl

theorem release (t : Nat) : Registered (w.release t) := by
  have hkilled : Registered { w with alive := Function.update w.alive t false } :=
    h.rewire rfl rfl rfl rfl rfl (fun _ ha => ha) (fun _ => rfl) (fun _ _ => rfl)
  unfold Tokens.release destroy
  dsimp only
  split
  · split
    · exact hkilled
    · exact hkilled.reset_child _ t
  · exact h

theorem childToken (htree : Tree w) (t : Nat) : Registered (w.childToken t) := by
  cases hcancelled : w.cancelled t with
  | true =>
    obtain ⟨hopen, hnone⟩ := htree.unused w.count (Nat.le_refl _)
    rw [childToken_of_cancelled hcancelled hopen hnone]
    refine h.rewire rfl rfl rfl rfl rfl (fun a ha => ?_) (fun _ => rfl) (fun _ _ => rfl)
    exact eq_false_of_ne_true fun ha' => Bool.noConfusion (ha.symm.trans (update_true _ ha'))
  | false =>
    rw [childToken_of_not hcancelled]
    refine h.rewire rfl rfl rfl rfl rfl (fun _ ha => ha) (fun _ => rfl) fun a r => ?_
    simp only [Function.update_apply]
    split
    · next hat => rw [hat, List.count_append, List.count_singleton, if_neg (by simp), Nat.add_zero]
    · rfl

/-- A callback runs: it is counted where it was about to, so the token has been cancelled. -/
theorem run {r : Nat} {running : List (List Todo)}
    (hpending : w.pending = .run (.user r) ::ₘ (running.flatten : List Todo)) :
    Registered
      { w with runs := Function.update w.runs r (w.runs r + 1), running := running } := by
  have hcount : ∀ s, w.running.flatten.count (.run (.user s)) =
      running.flatten.count (.run (.user s)) + if s = r then 1 else 0 := by
    intro s
    rw [count_pending, hpending, Multiset.count_cons, Multiset.coe_count]
    simp
  refine ⟨fun s hs => ⟨?_, (h.fresh s hs).2⟩, h.owned, fun s hs => ?_, fun s hs hopen => ?_,
    h.armed⟩
  · have hfresh := (h.fresh s hs).1
    rw [hcount] at hfresh
    exact Nat.eq_zero_of_add_eq_zero_right hfresh
  · have hcounted := h.counted s hs
    rw [hcount] at hcounted
    by_cases hsr : s = r
    · subst hsr
      simp only [Function.update_self, if_true] at hcounted ⊢
      omega
    · simp only [Function.update_of_ne hsr, if_neg hsr] at hcounted ⊢
      exact hcounted
  · obtain ⟨hruns, hwaits⟩ := h.waiting s hs hopen
    rw [hcount] at hwaits
    have hsr : s ≠ r := by
      rintro rfl
      simp at hwaits
    simp only [Function.update_of_ne hsr, if_neg hsr] at hwaits ⊢
    exact ⟨hruns, hwaits⟩

theorem proceed {w' : Tokens} {call : Nat} (hcall : w.proceed call = some w') : Registered w' := by
  refine proceed_cases hcall (fun r running => h.run)
    (fun c others running hpending hrunning => ?_) (fun c others running hpending hrunning => ?_)
    (fun c running hpending => ?_)
  · refine h.rewire rfl rfl rfl rfl rfl (fun _ ha => ha) (fun r => ?_) (fun _ _ => rfl)
    rw [count_pending w, hpending, ← Multiset.coe_count, hrunning]
    split <;> simp
  · refine h.cancelState c w.called fun r => ?_
    rw [count_pending, hpending, ← Multiset.coe_count, hrunning]
    simp
  · refine Registered.release ?_ c
    refine h.rewire rfl rfl rfl rfl rfl (fun _ ha => ha) (fun r => ?_) (fun _ _ => rfl)
    rw [count_pending w, hpending]
    simp

/-- A new registration has run its callback, or the callback waits on its token. -/
theorem register (t : Nat) {callbacks : Nat → List Callback} {armed : Bool} {runs : Nat}
    (hold : ∀ a r, r ≠ w.registrations →
      (callbacks a).count (.user r) = (w.callbacks a).count (.user r))
    (hnew : ∀ a, a ≠ t → (callbacks a).count (.user w.registrations) = 0)
    (honce : runs + (callbacks t).count (.user w.registrations) = 1)
    (hwaits : w.cancelled t = false → runs = 0) :
    Registered
      { w with
        registrations := w.registrations + 1
        owner := Function.update w.owner w.registrations t
        callbacks := callbacks
        armed := Function.update w.armed w.registrations armed
        runs := Function.update w.runs w.registrations runs
        droppedEarly := Function.update w.droppedEarly w.registrations false } where
  fresh := fun r hr => by
    obtain ⟨hidle, hnone⟩ := h.fresh r (Nat.le_of_succ_le hr)
    exact ⟨hidle, fun a => (hold a r (Nat.ne_of_gt hr)).trans (hnone a)⟩
  owned := fun a r ha => by
    by_cases hne : r = w.registrations
    · subst hne
      simp only [Function.update_self]
      by_contra hat
      exact ha (hnew a (Ne.symm hat))
    · simp only [Function.update_of_ne hne]
      exact h.owned a r (hold a r hne ▸ ha)
  counted := fun r hr => by
    by_cases hne : r = w.registrations
    · subst hne
      simp only [Function.update_self]
      rw [(h.fresh _ (Nat.le_refl _)).1]
      exact honce
    · simp only [Function.update_of_ne hne]
      rw [hold _ r hne]
      exact h.counted r (Nat.lt_of_le_of_ne (Nat.le_of_lt_succ hr) hne)
  waiting := fun r hr hopen => by
    by_cases hne : r = w.registrations
    · subst hne
      simp only [Function.update_self] at hopen ⊢
      exact ⟨hwaits hopen, (h.fresh _ (Nat.le_refl _)).1⟩
    · simp only [Function.update_of_ne hne] at hopen ⊢
      exact h.waiting r (Nat.lt_of_le_of_ne (Nat.le_of_lt_succ hr) hne) hopen
  armed := fun r hr => by
    by_cases hne : r = w.registrations
    · subst hne
      exact ⟨Nat.lt_succ_self _, Function.update_self ..⟩
    · simp only [Function.update_of_ne hne] at hr ⊢
      exact ⟨Nat.lt_succ_of_lt (h.armed r hr).1, (h.armed r hr).2⟩

theorem registerCallback (t : Nat) : Registered (w.registerCallback t) := by
  have hnone := (h.fresh w.registrations (Nat.le_refl _)).2
  unfold Tokens.registerCallback
  by_cases hcancelled : w.cancelled t = true
  · simp only [hcancelled, if_true]
    refine h.register t (fun _ _ _ => rfl) (fun a _ => hnone a) (by rw [hnone]) fun hopen => ?_
    rw [hcancelled] at hopen
    cases hopen
  · simp only [hcancelled, Bool.false_eq_true, if_false]
    refine h.register t (fun a r hne => count_register w t a hne) (fun a hat => ?_) ?_
      (fun _ => rfl)
    · rw [Function.update_of_ne hat]
      exact hnone a
    · rw [Function.update_self, List.count_append, hnone, List.count_singleton_self]

/-- Dropped before the token is cancelled, a registration takes its callback with it. -/
theorem dropRegistration {r : Nat} (hr : w.armed r = true) :
    Registered (w.dropRegistration r) := by
  obtain ⟨hmade, hkept⟩ := h.armed r hr
  have hdisarm : ∀ s, Function.update w.armed r false s = true → s ≠ r ∧ w.armed s = true := by
    intro s hs
    rw [Function.update_apply] at hs
    split at hs
    · cases hs
    · next hne => exact ⟨hne, hs⟩
  unfold Tokens.dropRegistration reset unregister
  by_cases hcancelled : w.cancelled (w.owner r) = true
  · simp only [hcancelled, if_true]
    exact ⟨h.fresh, h.owned, h.counted, h.waiting, fun s hs => h.armed s (hdisarm s hs).2⟩
  · simp only [hcancelled, Bool.false_eq_true, if_false]
    have hcount : ∀ a s, s ≠ r →
        (Function.update w.callbacks (w.owner r)
          ((w.callbacks (w.owner r)).erase (.user r)) a).count (.user s) =
            (w.callbacks a).count (.user s) := by
      intro a s hne
      rw [Function.update_apply]
      split
      · next hat => rw [hat, List.count_erase_of_ne (by simpa using hne)]
      · rfl
    have hcounted := h.counted r hmade
    obtain ⟨hruns, hrunning⟩ := h.waiting r hmade (eq_false_of_ne_true hcancelled)
    rw [hruns, hrunning, hkept] at hcounted
    refine ⟨fun s hs => ?_, fun a s ha => ?_, fun s hs => ?_, h.waiting, fun s hs => ?_⟩
    · have hne : s ≠ r := Nat.ne_of_gt (Nat.lt_of_lt_of_le hmade hs)
      exact ⟨(h.fresh s hs).1, fun a => (hcount a s hne).trans ((h.fresh s hs).2 a)⟩
    · by_cases hne : s = r
      · subst hne
        by_contra hat
        simp only [Function.update_of_ne (Ne.symm hat)] at ha
        exact hat (h.owned a s ha)
      · rw [hcount a s hne] at ha
        exact h.owned a s ha
    · by_cases hne : s = r
      · subst hne
        simp only [Function.update_self, List.count_erase_self, if_true]
        simp only [Bool.false_eq_true, if_false] at hcounted
        omega
      · simp only [Function.update_of_ne hne]
        rw [hcount _ s hne]
        exact h.counted s hs
    · obtain ⟨hne, hs⟩ := hdisarm s hs
      simp only [Function.update_of_ne hne]
      exact h.armed s hs

end Registered

theorem registered_reachable {w : Tokens} (hw : (cancellation.guarded Harmless).Reachable w) :
    Registered w := by
  induction hw with
  | init => exact registered_init
  | @step w _ l hw hexec h =>
    obtain ⟨hok, hexec⟩ := System.guarded_exec.mp hexec
    have hhandles : ∀ hs, Registered { w with handles := hs } := fun hs =>
      h.rewire rfl rfl rfl rfl rfl (fun _ ha => ha) (fun _ => rfl) (fun _ _ => rfl)
    exact step_cases hok hexec
      (h.rewire rfl rfl rfl rfl rfl (fun _ ha => ha) (fun _ => rfl) (fun _ _ => rfl))
      (fun hs _ => hhandles hs) (fun t _ => (hhandles _).release t)
      (fun t _ => h.childToken (tree_reachable hw) t) (fun t _ => h.registerCallback t)
      (fun _ => h.dropRegistration) (fun t _ => h.cancel t) (fun _ => h.proceed)

/-- A callback runs at most once, and never when its registration was dropped early. -/
theorem Registered.runs_le {w : Tokens} (h : Registered w) {r : Nat} (hr : r < w.registrations) :
    w.runs r ≤ 1 ∧ (w.droppedEarly r = true → w.runs r = 0) := by
  have hcounted := h.counted r hr
  refine ⟨?_, fun hdropped => ?_⟩
  · split at hcounted <;> omega
  · rw [hdropped, if_pos rfl] at hcounted
    omega

/-- When no call of `cancel` is left, the callbacks of the cancelled tokens have run. -/
theorem Registered.runs_eq {w : Tokens} (h : Registered w) (htree : Tree w)
    (hdone : w.pending = 0) {r : Nat} (hr : r < w.registrations) :
    w.runs r = if w.cancelled (w.owner r) = true ∧ w.droppedEarly r = false then 1 else 0 := by
  have hcounted := h.counted r hr
  cases hcancelled : w.cancelled (w.owner r) with
  | false =>
    rw [(h.waiting r hr hcancelled).1]
    rfl
  | true =>
    rw [count_pending, hdone, htree.emptied _ hcancelled] at hcounted
    cases hdropped : w.droppedEarly r with
    | true | false =>
      rw [hdropped] at hcounted
      exact hcounted

/-! ## The contract -/

/-- In every state in which no call of `cancel` is in progress, a token that is alive is
    cancelled exactly when `cancel` was called on it or on an ancestor, and a callback has
    run, exactly once, exactly when its token is cancelled and its registration was not
    dropped before.  On a cancelled token a callback runs when it is registered. -/
theorem cancellation_follows_tree {w : Tokens}
    (hw : (cancellation.guarded Harmless).Reachable w) :
    (w.pending = 0 →
      (∀ t, w.alive t = true →
        (w.cancelled t = true ↔ ∃ a, Ancestor w.parent t a ∧ w.called a = true)) ∧
      (∀ r, r < w.registrations →
        w.runs r =
          if w.cancelled (w.owner r) = true ∧ w.droppedEarly r = false then 1 else 0)) ∧
    (∀ r, r < w.registrations →
      w.runs r ≤ 1 ∧ (w.droppedEarly r = true → w.runs r = 0)) ∧
    (∀ t, w.cancelled t = true →
      (w.registerCallback t).owner w.registrations = t ∧
        (w.registerCallback t).runs w.registrations = 1) := by
  have htree := tree_reachable hw
  have hregistered := registered_reachable hw
  refine ⟨fun hdone => ⟨fun t => htree.cancelled_iff hdone,
    fun r => hregistered.runs_eq htree hdone⟩, fun r => hregistered.runs_le,
    fun t hcancelled => ?_⟩
  unfold registerCallback
  simp only [hcancelled, if_true, Function.update_self, and_self]

/-- A grandchild is cancelled with its root although the token in between was dropped; of
    its two callbacks the one whose registration was dropped does not run. -/
theorem cancellation_follows_dropped_parent :
    ∃ w, (cancellation.guarded Harmless).run
        ([.newToken, .childToken 0, .childToken 1, .registerCallback 2, .registerCallback 2,
          .dropRegistration 0, .dropHandle 1, .cancel 0] ++ List.replicate 8 (.proceed 0)) =
        some w ∧
      w.pending = 0 ∧ w.handles 1 = 0 ∧ w.alive 2 = true ∧
      (∃ a, Ancestor w.parent 2 a ∧ w.called a = true) ∧ w.runs 0 = 0 ∧ w.runs 1 = 1 := by
  refine System.exists_run (fun w => (w.pending, w.handles 1, w.alive 2, w.cancelled 2,
      w.registrations, w.owner 1, w.droppedEarly 0, w.droppedEarly 1))
    (0, 0, true, true, 2, 2, true, false) rfl fun w hrun hfacts => ?_
  simp only [Prod.mk.injEq] at hfacts
  obtain ⟨hdone, hhandles, halive, hcancelled, hregistrations, howner, hdropped⟩ := hfacts
  obtain ⟨hsettled, hruns, _⟩ := cancellation_follows_tree (.of_run hrun)
  obtain ⟨htokens, hcallbacks⟩ := hsettled hdone
  refine ⟨hdone, hhandles, halive, (htokens 2 halive).mp hcancelled, ?_, ?_⟩
  · exact (hruns 0 (by omega)).2 hdropped.1
  · rw [hcallbacks 1 (by omega), howner, hcancelled, hdropped.2]
    rfl

/-- With the handle of a token in between gone, dropping that of its child destroys the
    mutex which the `parent_link` of the child holds.  And after a callback that throws,
    the call is over and the next callback, registered as ever, does not run. -/
theorem drop_breaks_and_throw_skips :
    (∃ w, cancellation.run
        [.newToken, .childToken 0, .childToken 1, .dropHandle 1, .dropHandle 2] = some w ∧
      w.broken = true) ∧
    ∃ w, cancellation.run
        [.newToken, .registerCallback 0, .registerCallback 0, .cancel 0, .throwCallback 0,
          .proceed 0] = some w ∧
      w.pending = 0 ∧ w.cancelled (w.owner 1) = true ∧ w.armed 1 = true ∧
      w.droppedEarly 1 = false ∧ w.runs 1 = 0 :=
  ⟨⟨_, rfl, rfl⟩, _, rfl, rfl, rfl, rfl, rfl, rfl⟩

end Tokens

end DynamoCpp.Runtime
