import Mathlib.Data.List.Basic
import Mathlib.Tactic.Common

/-! # Event logs and their followers

    A store over keys `K` and values `V` is the replay of its event log; an
    event carries a key and the value the key has afterwards, `none` for a
    delete.  Revision `r` is the state after the first `r` events.

    A *follower* keeps the set of present keys among those accepted by a
    predicate `p`.  It mirrors revision `r` when its set is exactly the
    accepted keys present at `r`.  The lemmas say how a follower moves
    forward: over events it does not accept for free, and over accepted
    events by applying them in log order.
-/

namespace Framework

universe u v

/-- A logged change: the key and its value afterwards (`none` for a delete). -/
structure LogEvent (K : Type u) (V : Type v) where
  key : K
  img : Option V

namespace EventLog

variable {K : Type u} {V : Type v} [DecidableEq K]

/-! ## Replay -/

/-- One event changes the value of its key only. -/
def apply (σ : K → Option V) (e : LogEvent K V) : K → Option V :=
  fun k => if k = e.key then e.img else σ k

/-- The state after the events, in log order. -/
def replay (σ : K → Option V) (es : List (LogEvent K V)) : K → Option V :=
  es.foldl apply σ

@[simp] theorem replay_nil (σ : K → Option V) : replay σ [] = σ := rfl

@[simp] theorem replay_cons (σ : K → Option V) (e : LogEvent K V) (es : List (LogEvent K V)) :
    replay σ (e :: es) = replay (apply σ e) es := rfl

theorem replay_append (σ : K → Option V) (es es' : List (LogEvent K V)) :
    replay σ (es ++ es') = replay (replay σ es) es' := by
  simp [replay]

/-- A key without events keeps its value. -/
theorem replay_of_no_event {k : K} : ∀ (es : List (LogEvent K V)) (σ : K → Option V),
    (∀ e ∈ es, e.key ≠ k) → replay σ es k = σ k
  | [], _, _ => rfl
  | e :: es, σ, h => by
    have hk : k ≠ e.key := fun hk => h e List.mem_cons_self hk.symm
    have ih := replay_of_no_event es (apply σ e) fun x hx => h x (List.mem_cons_of_mem _ hx)
    rw [replay_cons, ih, apply, if_neg hk]

/-- A key with an event has a value that does not depend on the starting state. -/
theorem replay_of_event {k : K} : ∀ (es : List (LogEvent K V)) (σ τ : K → Option V),
    (∃ e ∈ es, e.key = k) → replay σ es k = replay τ es k
  | [], _, _, h => by simp at h
  | e :: es, σ, τ, h => by
    by_cases hrest : ∃ x ∈ es, x.key = k
    · exact replay_of_event es _ _ hrest
    · have hno : ∀ x ∈ es, x.key ≠ k := fun x hx hk => hrest ⟨x, hx, hk⟩
      obtain ⟨x, hx, hk⟩ := h
      rcases List.mem_cons.mp hx with rfl | hx
      · rw [replay_cons, replay_cons, replay_of_no_event es _ hno, replay_of_no_event es _ hno]
        simp [apply, hk]
      · exact absurd hk (hno x hx)

/-- A present value was written by some event. -/
theorem exists_event_of_replay {k : K} {v : V} : ∀ (es : List (LogEvent K V)) (σ : K → Option V),
    replay σ es k = some v → (∃ e ∈ es, e.key = k ∧ e.img = some v) ∨ σ k = some v
  | [], _, h => .inr h
  | e :: es, σ, h => by
    rcases exists_event_of_replay es (apply σ e) h with ⟨x, hx, hk⟩ | hk
    · exact .inl ⟨x, List.mem_cons_of_mem _ hx, hk⟩
    · unfold apply at hk
      split at hk
      · rename_i heq
        exact .inl ⟨e, List.mem_cons_self, heq.symm, hk⟩
      · exact .inr hk

/-- The starting value of a key is all that matters for it. -/
theorem replay_congr {k : K} {σ τ : K → Option V} (h : σ k = τ k) (es : List (LogEvent K V)) :
    replay σ es k = replay τ es k := by
  by_cases hev : ∃ e ∈ es, e.key = k
  · exact replay_of_event es σ τ hev
  · have hno : ∀ e ∈ es, e.key ≠ k := fun e he hek => hev ⟨e, he, hek⟩
    rw [replay_of_no_event es σ hno, replay_of_no_event es τ hno, h]

/-- Only the events of a key matter for its value. -/
theorem replay_filter {k : K} {q : LogEvent K V → Bool} :
    ∀ (es : List (LogEvent K V)) (σ : K → Option V),
      (∀ e ∈ es, e.key = k → q e = true) → replay σ (es.filter q) k = replay σ es k
  | [], _, _ => rfl
  | e :: es, σ, h => by
    have hrest : ∀ x ∈ es, x.key = k → q x = true := fun x hx => h x (List.mem_cons_of_mem _ hx)
    cases hq : q e with
    | true =>
      rw [List.filter_cons_of_pos hq, replay_cons, replay_cons]
      exact replay_filter es _ hrest
    | false =>
      -- the dropped event has another key, so the starting states agree on `k`
      have hk : k ≠ e.key := by
        intro hk
        rw [h e List.mem_cons_self hk.symm] at hq
        cases hq
      rw [List.filter_cons_of_neg (by simp [hq]), replay_cons, replay_filter es σ hrest]
      refine replay_congr ?_ es
      rw [apply, if_neg hk]

/-- A key whose events all leave the same value has that value. -/
theorem replay_of_images {k : K} {v : Option V} : ∀ (es : List (LogEvent K V)) (σ : K → Option V),
    (∀ e ∈ es, e.key = k → e.img = v) → (σ k = v ∨ ∃ e ∈ es, e.key = k) → replay σ es k = v
  | [], _, _, h => by simpa using h
  | e :: es, σ, himg, h => by
    refine replay_of_images es (apply σ e) (fun x hx => himg x (List.mem_cons_of_mem _ hx)) ?_
    by_cases hk : k = e.key
    · exact .inl (by rw [apply, if_pos hk, himg e List.mem_cons_self hk.symm])
    · rcases h with h | ⟨x, hx, hxk⟩
      · exact .inl (by rw [apply, if_neg hk, h])
      · refine .inr ⟨x, (List.mem_cons.mp hx).resolve_left ?_, hxk⟩
        rintro rfl
        exact hk hxk.symm

/-- A part of the keys follows from the events of these keys. -/
theorem replay_restrict (p : K → Prop) [DecidablePred p] (σ : K → Option V)
    (es : List (LogEvent K V)) :
    replay (fun k => if p k then σ k else none) (es.filter fun e => decide (p e.key)) =
      fun k => if p k then replay σ es k else none := by
  funext k
  by_cases hp : p k
  · have hkey : ∀ e ∈ es, e.key = k → decide (p e.key) = true := by
      rintro e - rfl
      exact decide_eq_true hp
    have hstart : (fun k => if p k then σ k else none) k = σ k := if_pos hp
    rw [replay_filter es _ hkey, if_pos hp]
    exact replay_congr hstart es
  · have hno : ∀ e ∈ es.filter fun e => decide (p e.key), e.key ≠ k := by
      rintro e he rfl
      exact hp (of_decide_eq_true (List.mem_filter.mp he).2)
    rw [replay_of_no_event _ _ hno]
    simp [hp]

/-! ## Revisions -/

/-- The state at revision `r` of a store that started empty. -/
def stateAt (es : List (LogEvent K V)) (r : Nat) : K → Option V :=
  replay (fun _ => none) (es.take r)

@[simp] theorem stateAt_zero (es : List (LogEvent K V)) (k : K) : stateAt es 0 k = none := by
  simp [stateAt]

theorem stateAt_length (es : List (LogEvent K V)) :
    stateAt es es.length = replay (fun _ => none) es := by
  simp [stateAt]

theorem stateAt_succ {es : List (LogEvent K V)} {r : Nat} {e : LogEvent K V}
    (he : es[r]? = some e) : stateAt es (r + 1) = apply (stateAt es r) e := by
  unfold stateAt
  rw [List.take_add_one, he, replay_append]
  rfl

/-- Later events do not change an earlier revision. -/
theorem stateAt_append {es es' : List (LogEvent K V)} {r : Nat} (hr : r ≤ es.length) :
    stateAt (es ++ es') r = stateAt es r := by
  unfold stateAt
  rw [List.take_append_of_le_length hr]

/-! ## Followers -/

/-- How a follower treats an event: a put makes its key present, a delete absent. -/
def follow (L : K → Prop) (e : LogEvent K V) : K → Prop :=
  fun k => if k = e.key then e.img.isSome = true else L k

/-- `L` is the set of keys accepted by `p` that are present at revision `r`. -/
def Mirrors (p : K → Prop) (es : List (LogEvent K V)) (r : Nat) (L : K → Prop) : Prop :=
  ∀ k, L k ↔ p k ∧ (stateAt es r k).isSome = true

variable {p : K → Prop} {es es' : List (LogEvent K V)} {r : Nat} {L : K → Prop}

/-- A follower that has seen nothing mirrors the empty revision. -/
theorem mirrors_zero (hL : ∀ k, ¬ L k) : Mirrors p es 0 L := by
  intro k
  simp [hL k]

theorem mirrors_append (hr : r ≤ es.length) :
    Mirrors p (es ++ es') r L ↔ Mirrors p es r L := by
  unfold Mirrors
  rw [stateAt_append hr]

/-- An accepted event is applied. -/
theorem Mirrors.event {e : LogEvent K V} (h : Mirrors p es r L) (he : es[r]? = some e)
    (hp : p e.key) : Mirrors p es (r + 1) (follow L e) := by
  intro k
  rw [stateAt_succ he]
  by_cases hk : k = e.key
  · subst hk
    simp [follow, apply, hp]
  · simpa [follow, apply, hk] using h k

/-- An event that is not accepted changes nothing for the follower. -/
theorem Mirrors.skip {e : LogEvent K V} (h : Mirrors p es r L) (he : es[r]? = some e)
    (hp : ¬ p e.key) : Mirrors p es (r + 1) L := by
  intro k
  rw [stateAt_succ he]
  by_cases hk : k = e.key
  · subst hk
    have hL : ¬ L e.key := fun hL => hp ((h e.key).mp hL).1
    simp [hL, hp]
  · simpa [apply, hk] using h k

/-- A stretch of the log without accepted events changes nothing for the follower. -/
theorem Mirrors.skip_to {r' : Nat} (h : Mirrors p es r L) (hrr : r ≤ r') (hlen : r' ≤ es.length)
    (hno : ∀ i e, r ≤ i → i < r' → es[i]? = some e → ¬ p e.key) : Mirrors p es r' L := by
  obtain ⟨d, rfl⟩ := Nat.exists_eq_add_of_le hrr
  induction d with
  | zero => exact h
  | succ d ih =>
    have hlt : r + d < es.length := by omega
    have hget : es[r + d]? = some es[r + d] := List.getElem?_eq_getElem hlt
    have hprev := ih (by omega) (by omega) fun i e hi hi' he => hno i e hi (by omega) he
    exact hprev.skip hget (hno (r + d) es[r + d] (by omega) (by omega) hget)

/-- After a list of events, a key with an event is present iff the last one was a put. -/
theorem foldl_follow_iff {k : K} : ∀ (es : List (LogEvent K V)) (L : K → Prop),
    es.foldl follow L k ↔
      ((∃ e ∈ es, e.key = k) ∧ (replay (fun _ => none) es k).isSome = true) ∨
      ((∀ e ∈ es, e.key ≠ k) ∧ L k)
  | [], L => by simp
  | e :: es, L => by
    rw [List.foldl_cons, foldl_follow_iff es]
    by_cases hrest : ∃ x ∈ es, x.key = k
    · have hno : ¬ ∀ x ∈ es, x.key ≠ k := by
        obtain ⟨x, hx, hk⟩ := hrest
        exact fun h => h x hx hk
      have heq := replay_of_event es (fun _ => (none : Option V))
        (apply (fun _ => none) e) hrest
      rw [replay_cons, heq]
      simp [hrest, hno]
    · have hno : ∀ x ∈ es, x.key ≠ k := fun x hx hk => hrest ⟨x, hx, hk⟩
      have hlast := replay_of_no_event es (apply (fun _ => none) e) hno
      rw [replay_cons, hlast]
      by_cases hk : k = e.key
      · subst hk
        simpa [hrest, follow, apply] using fun _ => hno
      · have hk' : e.key ≠ k := fun h => hk h.symm
        simp [hrest, follow, hk, hk']

end EventLog

/-! ## The next accepted element of a list -/

/-- The head of a filtered suffix sits at some index, with nothing accepted before it. -/
theorem filter_drop_eq_cons {α : Type u} {p : α → Bool} {l rest : List α} {a : α} {r : Nat}
    (h : (l.drop r).filter p = a :: rest) :
    ∃ i, r ≤ i ∧ l[i]? = some a ∧ p a = true ∧ rest = (l.drop (i + 1)).filter p ∧
      ∀ j b, r ≤ j → j < i → l[j]? = some b → ¬ p b = true := by
  obtain ⟨pre, suf, hsplit, hpre, hpa, hrest⟩ := List.filter_eq_cons_iff.mp h
  have hget : ∀ j, l[r + j]? = (pre ++ a :: suf)[j]? := by
    intro j
    rw [← hsplit, List.getElem?_drop]
  refine ⟨r + pre.length, by omega, ?_, hpa, ?_, ?_⟩
  · rw [hget, List.getElem?_append_right (Nat.le_refl _)]
    simp
  · have hdrop : l.drop (r + pre.length + 1) = suf := by
      have : l.drop (r + pre.length + 1) = (l.drop r).drop (pre.length + 1) := by
        rw [List.drop_drop, Nat.add_assoc]
      rw [this, hsplit]
      simp
    rw [hdrop, hrest]
  · intro j b hj hji hb
    obtain ⟨d, rfl⟩ := Nat.exists_eq_add_of_le hj
    rw [hget, List.getElem?_append_left (by omega)] at hb
    exact hpre b (List.mem_of_getElem? hb)

/-- If nothing is accepted in a suffix, nothing is accepted at any index of it. -/
theorem filter_drop_eq_nil {α : Type u} {p : α → Bool} {l : List α} {r : Nat}
    (h : (l.drop r).filter p = []) :
    ∀ j b, r ≤ j → l[j]? = some b → ¬ p b = true := by
  intro j b hj hb
  obtain ⟨d, rfl⟩ := Nat.exists_eq_add_of_le hj
  rw [← List.getElem?_drop] at hb
  exact List.filter_eq_nil_iff.mp h b (List.mem_of_getElem? hb)

end Framework
