import DynamoCpp.Discovery.Process

/-! # Isolation between connections

    Watch and subscription ids are chosen by each client, so two connections
    use the same ids.  A request on one connection leaves the watchers and
    subscribers of every other connection alone, up to entries whose own
    connection fails a write, with one exception: `unwatch` removes a watcher
    by its id alone.
-/

namespace DynamoCpp.Discovery

open Framework

section Spares

variable {α : Type} {B : ConnId} {conn : α → ConnId}

/-- `as'` holds the same entries of connection `B` as `as`, except where `B`
    failed one of the writes. -/
structure Spares (B : ConnId) (conn : α → ConnId) (as as' : List α) (out : List Write) : Prop where
  added : ∀ a ∈ as', conn a = B → a ∈ as
  kept  : ∀ a ∈ as, conn a = B → a ∈ as' ∨ ∃ x ∈ out, x.conn = B ∧ x.ok = false

theorem Spares.refl (as : List α) (out : List Write) : Spares B conn as as out :=
  ⟨fun _ h _ => h, fun _ h _ => .inl h⟩

theorem Spares.trans {as₁ as₂ as₃ : List α} {out₁ out₂ : List Write}
    (h₁ : Spares B conn as₁ as₂ out₁) (h₂ : Spares B conn as₂ as₃ out₂) (hout : out₁ ⊆ out₂) :
    Spares B conn as₁ as₃ out₂ where
  added := fun a ha hB => h₁.added a (h₂.added a ha hB) hB
  kept := by
    intro a ha hB
    -- an entry lost in the first part has its failed write among the later ones
    rcases h₁.kept a ha hB with ha | ⟨x, hx, hfail⟩
    · exact h₂.kept a ha hB
    · exact .inr ⟨x, hout hx, hfail⟩

/-- Dropping and appending entries of other connections. -/
theorem Spares.filter_append {as new : List α} {p : α → Bool} {out : List Write}
    (hp : ∀ a ∈ as, conn a = B → p a = true) (hnew : ∀ a ∈ new, conn a ≠ B) :
    Spares B conn as (as.filter p ++ new) out where
  added := by
    intro a ha hB
    rcases List.mem_append.mp ha with ha | ha
    · exact (List.mem_filter.mp ha).1
    · exact absurd hB (hnew a ha)
  kept := by
    intro a ha hB
    exact .inl (List.mem_append.mpr (.inl (List.mem_filter.mpr ⟨ha, hp a ha hB⟩)))

theorem Spares.filter {as : List α} {p : α → Bool} {out : List Write}
    (hp : ∀ a ∈ as, conn a = B → p a = true) : Spares B conn as (as.filter p) out := by
  have h : Spares B conn as (as.filter p ++ []) out := filter_append hp (by simp)
  rwa [List.append_nil] at h

/-- The first entry is treated on its own: kept, or erased after a failed write. -/
theorem Spares.cons {a : α} {as as' : List α} {out : List Write}
    (h : Spares B conn as as' out) : Spares B conn (a :: as) (a :: as') out where
  added := by
    intro b hb hB
    rcases List.mem_cons.mp hb with rfl | hb
    · exact List.mem_cons_self
    · exact List.mem_cons_of_mem _ (h.added b hb hB)
  kept := by
    intro b hb hB
    rcases List.mem_cons.mp hb with rfl | hb
    · exact .inl List.mem_cons_self
    · exact (h.kept b hb hB).imp_left (List.mem_cons_of_mem _)

theorem Spares.drop_failed {a : α} {as as' : List α} {out : List Write} {x : Write}
    (h : Spares B conn as as' out) (hx : x ∈ out) (hconn : x.conn = conn a)
    (hfail : x.ok = false) : Spares B conn (a :: as) as' out where
  added := fun b hb hB => List.mem_cons_of_mem _ (h.added b hb hB)
  kept := by
    intro b hb hB
    rcases List.mem_cons.mp hb with rfl | hb
    · exact .inr ⟨x, hx, hconn.trans hB, hfail⟩
    · exact h.kept b hb hB

/-- A fan-out only adds writes, and spares every connection that fails none. -/
theorem fanout_spares (B : ConnId) (conn : α → ConnId) (net : Net) (sel : α → Bool)
    (frame : α → Frame) :
    ∀ (as : List α) (out : List Write),
      out ⊆ (fanout net sel conn frame as out).2 ∧
        Spares B conn as (fanout net sel conn frame as out).1 (fanout net sel conn frame as out).2
  | [], out => ⟨List.Subset.refl _, Spares.refl [] out⟩
  | a :: as, out => by
    unfold fanout
    by_cases hsel : sel a = true
    · rw [if_pos hsel]
      obtain ⟨hsub, hspares⟩ := fanout_spares B conn net sel frame as
        (write net out (conn a) (frame a))
      have hout : out ⊆ (fanout net sel conn frame as (write net out (conn a) (frame a))).2 :=
        fun x hx => hsub (List.mem_append_left _ hx)
      by_cases hok : net out.length = true
      · rw [if_pos hok]
        exact ⟨hout, hspares.cons⟩
      · rw [if_neg hok]
        -- the attempted write is the failed one
        have hfailed : (⟨conn a, frame a, net out.length⟩ : Write) ∈
            (fanout net sel conn frame as (write net out (conn a) (frame a))).2 :=
          hsub (List.mem_append_right _ List.mem_cons_self)
        exact ⟨hout, hspares.drop_failed hfailed rfl (by simpa using hok)⟩
    · rw [if_neg hsel]
      obtain ⟨hsub, hspares⟩ := fanout_spares B conn net sel frame as out
      exact ⟨hsub, hspares.cons⟩

end Spares

/-! ## Store operations -/

theorem Advances.spares {net : Net} {s s' : Server} {out out' : List Write}
    {es : List LoggedEvent} (B : ConnId) (h : Advances net s out s' out' es) :
    out ⊆ out' ∧ Spares B (·.conn) s.watchers s'.watchers out' := by
  induction h with
  | same hs => exact ⟨List.Subset.refl _, hs.watchers ▸ Spares.refl _ _⟩
  | step _ hm hs ih =>
    -- each mutation fans out once more over the watchers left so far
    obtain ⟨hsub, hspares⟩ := ih
    have hfan := hm.fanout
    rw [notifyWatchers] at hfan
    obtain ⟨hsub', hspares'⟩ := fanout_spares B Watcher.conn net
      (fun w => decide (w.pre <+: _)) (fun w => Frame.watch w.id _ _) _ _
    rw [← hfan] at hsub' hspares'
    refine ⟨fun x hx => hsub' (hsub hx), ?_⟩
    rw [hs.watchers]
    exact hspares.trans hspares' hsub'

/-! ## Queue dispatch -/

/-- Every position erased by the attempts belongs to a subscriber that failed a write. -/
theorem dispatchLoop_erased (net : Net) (subject data : Bytes)
    (matching : List (Subscriber × Nat)) : ∀ (n : Nat) (d : DispatchState),
      (∀ i ∈ d.erased, ∃ e, (e, i) ∈ matching ∧ ∃ x ∈ d.out, x.conn = e.conn ∧ x.ok = false) →
      ∀ i ∈ (dispatchLoop net subject data matching n d).erased, ∃ e, (e, i) ∈ matching ∧
        ∃ x ∈ (dispatchLoop net subject data matching n d).out, x.conn = e.conn ∧ x.ok = false
  | 0, d, hd => hd
  | n + 1, d, hd => by
    unfold dispatchLoop
    split
    · exact hd
    · rename_i e i hget
      -- earlier failures stay among the writes
      have hkeep : ∀ j ∈ d.erased, ∃ e', (e', j) ∈ matching ∧
          ∃ x ∈ write net d.out e.conn (.event e.id subject data),
            x.conn = e'.conn ∧ x.ok = false := by
        intro j hj
        obtain ⟨e', he', x, hx, hfail⟩ := hd j hj
        exact ⟨e', he', x, List.mem_append_left _ hx, hfail⟩
      dsimp only
      split
      · exact hkeep
      · rename_i hok
        refine dispatchLoop_erased net subject data matching n _ ?_
        intro j hj
        rcases List.mem_cons.mp hj with rfl | hj
        · exact ⟨e, List.mem_of_getElem? hget, ⟨e.conn, _, net d.out.length⟩,
            List.mem_append_right _ List.mem_cons_self, rfl, by simpa using hok⟩
        · exact hkeep j hj

/-- Erasing positions whose subscribers failed a write. -/
theorem spares_erased {B : ConnId} {subs : List Subscriber} {erased : List Nat} {out : List Write}
    (herased : ∀ i ∈ erased, ∃ e, subs[i]? = some e ∧ ∃ x ∈ out, x.conn = e.conn ∧ x.ok = false) :
    Spares B (·.conn) subs ((subs.zipIdx.filter fun e => e.2 ∉ erased).map (·.1)) out where
  added := by
    intro e he _
    obtain ⟨⟨e', i⟩, hmem, rfl⟩ := List.mem_map.mp he
    exact List.mem_of_getElem? (List.mem_zipIdx_iff_getElem?.mp (List.mem_filter.mp hmem).1)
  kept := by
    intro e he hB
    obtain ⟨i, hi⟩ := List.mem_iff_getElem?.mp he
    by_cases hi' : i ∈ erased
    · -- the erased position holds `e` itself, so `B` failed the write
      obtain ⟨e', hget, x, hx, hconn, hfail⟩ := herased i hi'
      rw [hi, Option.some.injEq] at hget
      exact .inr ⟨x, hx, hconn.trans (hget ▸ hB), hfail⟩
    · refine .inl (List.mem_map.mpr ⟨(e, i), List.mem_filter.mpr ⟨?_, by simpa using hi'⟩, rfl⟩)
      exact List.mem_zipIdx_iff_getElem?.mpr hi

theorem queueDispatch_spares (net : Net) (s : Server) (req : Nat) (subject data : Bytes)
    (B : ConnId) :
    (queueDispatch net s req subject data).server.watchers = s.watchers ∧
      Spares B (·.conn) s.subscribers (queueDispatch net s req subject data).server.subscribers
        (queueDispatch net s req subject data).out := by
  have herased := dispatchLoop_erased net subject data
    (s.subscribers.zipIdx.filter fun e => e.1.subject = subject)
    (s.subscribers.zipIdx.filter fun e => e.1.subject = subject).length
    ⟨false, (s.queueCursor[subject]?).getD 0, [], []⟩ (by simp)
  unfold queueDispatch
  dsimp only
  generalize dispatchLoop net subject data _ _ _ = d at herased ⊢
  have hspares : Spares B (·.conn) s.subscribers
      ((s.subscribers.zipIdx.filter fun e => e.2 ∉ d.erased).map (·.1)) d.out := by
    refine spares_erased ?_
    intro i hi
    obtain ⟨e, hmem, hfail⟩ := herased i hi
    exact ⟨e, List.mem_zipIdx_iff_getElem?.mp (List.mem_filter.mp hmem).1, hfail⟩
  split <;> exact ⟨rfl, hspares⟩

/-! ## All requests -/

/-- Processing a request left the watchers and subscribers of `B` as they were,
    except for entries of `B` whose connection failed one of the writes. -/
structure Untouched (B : ConnId) (s s' : Server) (out : List Write) : Prop where
  watchers    : Spares B (·.conn) s.watchers s'.watchers out
  subscribers : Spares B (·.conn) s.subscribers s'.subscribers out

/-- The request removes, by its id alone, a watcher that belongs to `B`. -/
def UnwatchesOther (s : Server) (B : ConnId) (r : Request) : Prop :=
  ∃ w ∈ s.watchers, w.conn = B ∧ r = .unwatch w.id

instance (s : Server) (B : ConnId) (r : Request) : Decidable (UnwatchesOther s B r) :=
  inferInstanceAs (Decidable (∃ w ∈ s.watchers, w.conn = B ∧ r = .unwatch w.id))

theorem Untouched.refl (B : ConnId) (s : Server) (out : List Write) : Untouched B s s out :=
  ⟨Spares.refl _ _, Spares.refl _ _⟩

/-- The operations other than `unwatch`. -/
theorem handleOp_untouched (net : Net) (now : Int) (s : Server) {A B : ConnId} (hAB : A ≠ B)
    (req : Nat) (r : Request) (hr : ∀ id, r ≠ .unwatch id) :
    Untouched B s (handleOp net now s A req r).server (handleOp net now s A req r).out := by
  -- store operations reach other connections by their fan-outs only
  have hstore : r.isStoreOp = true →
      Untouched B s (handleOp net now s A req r).server (handleOp net now s A req r).out := by
    intro hop
    obtain ⟨es, ha⟩ := handleOp_advances net now s A req r hop
    exact ⟨(ha.spares B).2, ha.sameConns.subscribers ▸ Spares.refl _ _⟩
  cases r with
  | watch pre watchId fromRev =>
    -- the entries replaced and added are on connection `A`
    refine ⟨Spares.filter_append ?_ ?_, Spares.refl _ _⟩
    · intro w _ hw
      simp only [decide_eq_true_eq]
      exact fun h => hAB (h.2.symm.trans hw)
    · intro w hw
      rw [List.mem_singleton.mp hw]
      exact hAB
  | unwatch id => exact absurd rfl (hr id)
  | subscribe subId subject =>
    refine ⟨Spares.refl _ _, Spares.filter_append ?_ ?_⟩
    · intro e _ he
      simp only [decide_eq_true_eq]
      exact fun h => hAB (h.2.symm.trans he)
    · intro e he
      rw [List.mem_singleton.mp he]
      exact hAB
  | unsubscribe subId =>
    refine ⟨Spares.refl _ _, Spares.filter ?_⟩
    intro e _ he
    simp only [decide_eq_true_eq]
    exact fun h => hAB (h.2.symm.trans he)
  | publish subject data =>
    exact ⟨Spares.refl _ _, (fanout_spares B Subscriber.conn net _ _ s.subscribers []).2⟩
  | queueDispatch subject data =>
    obtain ⟨hw, hsubs⟩ := queueDispatch_spares net s req subject data B
    exact ⟨hw ▸ Spares.refl _ _, hsubs⟩
  | getPrefix | unknown => exact .refl B s _
  | _ => exact hstore rfl

/-- A request of `A` touches the entries of another connection `B` exactly when
    it is an `unwatch` whose id is also the id of one of `B`'s watchers. -/
theorem handleRequest_untouched_iff (net : Net) (now : Int) (s : Server) {A B : ConnId}
    (hAB : A ≠ B) (req : Nat) (r : Request) :
    Untouched B s (handleRequest net now s A req r).1 (handleRequest net now s A req r).2 ↔
      ¬ UnwatchesOther s B r := by
  by_cases hr : ∀ id, r ≠ .unwatch id
  · constructor
    · rintro - ⟨w, -, -, hw⟩
      exact hr w.id hw
    · intro _
      -- the reply is one more write, to `A`
      have h := handleOp_untouched net now s hAB req r hr
      have hout : (handleOp net now s A req r).out ⊆ (handleRequest net now s A req r).2 :=
        fun x hx => List.mem_append_left _ hx
      exact ⟨h.watchers.trans (Spares.refl _ _) hout, h.subscribers.trans (Spares.refl _ _) hout⟩
  · obtain ⟨id, rfl⟩ : ∃ id, r = .unwatch id := by simpa using hr
    constructor
    · rintro h ⟨w, hw, hB, hid⟩
      -- the only write is the reply to `A`, so `B` failed none
      rcases h.watchers.kept w hw hB with hkept | ⟨x, hx, hconn, -⟩
      · have hne := (List.mem_filter.mp hkept).2
        simp only [decide_not, Bool.not_eq_true', decide_eq_false_iff_not] at hne
        exact hne (Request.unwatch.inj hid).symm
      · obtain rfl := List.mem_singleton.mp hx
        exact hAB hconn
    · intro h
      refine ⟨Spares.filter ?_, Spares.refl _ _⟩
      intro w hw hB
      simp only [decide_not, Bool.not_eq_true', decide_eq_false_iff_not]
      intro hid
      exact h ⟨w, hw, hB, by rw [hid]⟩

/-- Two clients, each with its first watch: both chose id 1. -/
def twoWatchers : List Step :=
  [.accept, .accept,
    .request (fun _ => true) 0 0 1 (.watch (str "a/") 1 (-1)),
    .request (fun _ => true) 0 1 1 (.watch (str "b/") 1 (-1))]

theorem twoWatchers_runs : (discoveryd.run twoWatchers).isSome = true := by decide

theorem unwatch_own_id_untouched :
    Untouched 1 ((discoveryd.run twoWatchers).get twoWatchers_runs)
      (handleRequest (fun _ => true) 0 ((discoveryd.run twoWatchers).get twoWatchers_runs)
        0 2 (.unwatch 2)).1
      (handleRequest (fun _ => true) 0 ((discoveryd.run twoWatchers).get twoWatchers_runs)
        0 2 (.unwatch 2)).2 :=
  (handleRequest_untouched_iff (fun _ => true) 0 _ (by decide) 2 (.unwatch 2)).mpr (by decide)

/-- `unwatch 1` of the first client removes the watcher of the second, which
    failed no write. -/
theorem unwatch_removes_other_watcher :
    ∃ s, discoveryd.Reachable s ∧ 0 ∈ s.conns ∧ 1 ∈ s.conns ∧
      ¬ Untouched 1 s (handleRequest (fun _ => true) 0 s 0 2 (.unwatch 1)).1
        (handleRequest (fun _ => true) 0 s 0 2 (.unwatch 1)).2 := by
  refine ⟨_, System.Reachable.of_run_isSome twoWatchers_runs, by decide, by decide, ?_⟩
  intro h
  have hkept := h.watchers.kept ⟨1, str "b/", 1⟩ (by decide) rfl
  revert hkept
  decide

end DynamoCpp.Discovery
