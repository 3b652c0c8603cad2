import DynamoCpp.Transports.DataPlane

/-! # A stream that ends cleanly is complete

    As long as every step is harmless, a call is in one of four situations:
    the requester signalled, the call failed, the stream will never open, or
    it is healthy.  In a healthy call the frames the connection thread read,
    the frames in flight and the lost ones are together what the worker wrote,
    and no lost frame carries an item.  A clean end is only possible in a
    healthy call whose frames were all read.
-/

namespace DynamoCpp.Transports

open Framework

/-! ## What the worker wrote -/

/-- The frames before the first item. -/
def opening : List StreamFrame := [.handshake, .prologue none]

/-- The frames a worker has written by the time it got where it is, if the
    stream was opened and the engine did not throw. -/
def Wrote (w : Worker) (ws : List StreamFrame) : Prop :=
  match w.pc with
  | .calling => w.items = [] ∧ w.engineEnd = none ∧ ws = []
  | .starting => w.items = [] ∧ w.engineEnd = none ∧ ws = [.handshake]
  | .pumping => w.engineEnd = none ∧ ws = opening ++ w.items.map .data
  | .finishing => w.engineEnd = some .normal ∧ ws = opening ++ w.items.map .data
  | .closing => w.engineEnd = some .normal ∧ ws = opening ++ w.items.map .data ++ [.sentinel]
  | .gone =>
    -- the requester could not be reached, or the stream was finished
    (w.items = [] ∧ w.engineEnd = none ∧ ws = []) ∨
      (w.engineEnd = some .normal ∧ ws = opening ++ w.items.map .data ++ [.sentinel])

section moves

variable {w : Worker} {ws : List StreamFrame} (h : Wrote w ws)
include h

theorem Wrote.connect (hpc : w.pc = .calling) (ok : Bool) :
    Wrote (w.connect ok).1 (ws ++ (w.connect ok).2) := by
  simp only [Wrote, hpc] at h
  obtain ⟨hitems, hend, rfl⟩ := h
  cases ok with
  | true => exact ⟨hitems, hend, rfl⟩
  | false => exact .inl ⟨hitems, hend, rfl⟩

theorem Wrote.open (hpc : w.pc = .starting) :
    Wrote { w with pc := .pumping } (ws ++ [.prologue none]) := by
  simp only [Wrote, hpc] at h
  obtain ⟨hitems, hend, rfl⟩ := h
  refine ⟨hend, ?_⟩
  rw [hitems]
  rfl

theorem Wrote.yield (hpc : w.pc = .pumping) (item : Item) :
    Wrote { w with items := w.items ++ [item] } (ws ++ [.data item]) := by
  simp only [Wrote, hpc] at h ⊢
  obtain ⟨hend, rfl⟩ := h
  refine ⟨hend, ?_⟩
  rw [List.map_append, List.append_assoc]
  rfl

theorem Wrote.ended (hpc : w.pc = .pumping) :
    Wrote { w with engineEnd := some .normal, pc := .finishing } (ws ++ []) := by
  simp only [Wrote, hpc] at h
  rw [List.append_nil]
  exact ⟨rfl, h.2⟩

theorem Wrote.finish (hpc : w.pc = .finishing) : Wrote w.finish.1 (ws ++ w.finish.2) := by
  simp only [Wrote, hpc] at h
  obtain ⟨hend, rfl⟩ := h
  exact ⟨hend, rfl⟩

theorem Wrote.hangUp (hpc : w.pc = .closing) : Wrote { w with pc := .gone } (ws ++ []) := by
  simp only [Wrote, hpc] at h
  rw [List.append_nil]
  exact .inr h

/-- What was written once the engine's stream ended. -/
theorem Wrote.of_ended (hend : w.engineEnd = some .normal) :
    ∃ tail, ws = opening ++ w.items.map .data ++ tail ∧ (tail = [] ∨ tail = [.sentinel]) := by
  unfold Wrote at h
  split at h
  · rw [hend] at h; cases h.2.1
  · rw [hend] at h; cases h.2.1
  · rw [hend] at h; cases h.1
  · exact ⟨[], by rw [h.2, List.append_nil], .inl rfl⟩
  · exact ⟨_, h.2, .inr rfl⟩
  · rcases h with ⟨-, hnone, -⟩ | ⟨-, hws⟩
    · rw [hend] at hnone; cases hnone
    · exact ⟨_, hws, .inr rfl⟩

/-- A worker that wrote more than the handshake opened the stream. -/
theorem Wrote.of_two {f g : StreamFrame} {rest : List StreamFrame} (hws : ws = f :: g :: rest) :
    ∃ tail, ws = opening ++ w.items.map .data ++ tail ∧
      (tail = [] ∨ (tail = [.sentinel] ∧ w.engineEnd = some .normal)) := by
  unfold Wrote at h
  split at h
  · rw [hws] at h; cases h.2.2
  · rw [hws] at h; cases h.2.2
  · exact ⟨[], by rw [h.2, List.append_nil], .inl rfl⟩
  · exact ⟨[], by rw [h.2, List.append_nil], .inl rfl⟩
  · exact ⟨_, h.2, .inr ⟨rfl, h.1⟩⟩
  · rcases h with ⟨-, -, hnil⟩ | ⟨hend, hws'⟩
    · rw [hws] at hnil; cases hnil
    · exact ⟨_, hws', .inr ⟨rfl, hend⟩⟩

/-- The first frame is the handshake. -/
theorem Wrote.head {f : StreamFrame} {rest : List StreamFrame} (hws : ws = f :: rest) :
    f = .handshake := by
  cases rest with
  | nil =>
    unfold Wrote at h
    split at h
    · rw [hws] at h; cases h.2.2
    · rw [hws] at h; exact (List.cons.inj h.2.2).1
    · rw [hws] at h; exact (List.cons.inj h.2).1
    · rw [hws] at h; exact (List.cons.inj h.2).1
    · rw [hws] at h; exact (List.cons.inj h.2).1
    · rcases h with ⟨-, -, hnil⟩ | ⟨-, hws'⟩
      · rw [hws] at hnil; cases hnil
      · rw [hws] at hws'; exact (List.cons.inj hws').1
  | cons g rest =>
    obtain ⟨tail, heq, -⟩ := h.of_two hws
    rw [hws] at heq
    exact (List.cons.inj heq).1

end moves

/-! ## Items among frames -/

theorem dataOf_append (fs gs : List StreamFrame) : dataOf (fs ++ gs) = dataOf fs ++ dataOf gs := by
  unfold dataOf
  rw [List.filterMap_append]

@[simp] theorem dataOf_map_data (items : List Item) : dataOf (items.map .data) = items := by
  induction items with
  | nil => rfl
  | cons item items ih => exact congrArg (item :: ·) ih

variable {f : StreamFrame} {rest : List StreamFrame} {σ σ' : Session} {c : Call} {r : Home × List
  ControlKind} {h : Home}

/-- The frame after some of the items: the next item, or what follows them all. -/
theorem after_items {tail : List StreamFrame}
    (htail : ∀ item, tail.head? ≠ some (.data item)) : ∀ {xs ys : List Item},
      xs.map .data ++ f :: rest = ys.map .data ++ tail →
      (∃ item ∈ ys, f = .data item) ∨ (xs = ys ∧ f :: rest = tail)
  | [], [], h => .inr ⟨rfl, h⟩
  | [], y :: ys, h => .inl ⟨y, List.mem_cons_self, (List.cons.inj h).1⟩
  | x :: xs, [], h => by
    refine absurd ?_ (htail x)
    rw [← show _ = tail from h]
    rfl
  | x :: xs, y :: ys, h => by
    obtain ⟨hxy, hrest⟩ := List.cons.inj h
    rcases after_items htail hrest with ⟨item, hmem, hf⟩ | ⟨rfl, hf⟩
    · exact .inl ⟨item, List.mem_cons_of_mem _ hmem, hf⟩
    · exact .inr ⟨by rw [StreamFrame.data.inj hxy], hf⟩

/-! ## Healthy calls -/

/-- The frames the connection thread has read, by how far it got. -/
def consumed (h : Home) : List StreamFrame :=
  match h.server with
  | .handshake => []
  | .prologue => [.handshake]
  | _ => opening ++ (h.received ++ h.channel).map .data

/-- Nothing that carries an item was lost. -/
inductive Flow (σ : Session) : Prop where
  | flowing : ∀ {ws dropped : List StreamFrame}, σ.home.server ≠ .closed → Wrote σ.worker ws →
      consumed σ.home ++ σ.wire ++ dropped = ws → dataOf dropped = [] →
      (σ.lost = false → dropped = []) → (σ.lost = true → σ.worker.engineEnd = some .normal) →
      Flow σ
  | drained : ∀ {ws : List StreamFrame}, σ.home.server = .closed → Wrote σ.worker ws →
      σ.worker.engineEnd = some .normal →
      σ.home.received ++ σ.home.channel = σ.worker.items → Flow σ

/-- A call nobody has disturbed. -/
structure Healthy (c : Call) (σ : Session) : Prop where
  killed       : σ.worker.killed = false
  controls     : σ.controls = []
  receiverOpen : σ.home.receiverOpen = true
  quiet        : σ.home.stopped = false ∧ σ.home.killed = false
  fits         : ∀ item ∈ σ.worker.items, c.fits (.data item) = true
  unopened     : σ.home.server = .handshake ∨ σ.home.server = .prologue →
    σ.home.requester = .awaiting ∧ σ.home.arrival = none ∧
      σ.home.received = [] ∧ σ.home.channel = []
  opened       : σ.home.server = .reading ∨ σ.home.server = .closed →
    σ.home.arrival = some .stream ∧
      (σ.home.requester = .awaiting ∨ σ.home.requester = .streaming ∨
        (σ.home.requester = .completed ∧ σ.home.server = .closed ∧ σ.home.channel = []))
  flow         : Flow σ

theorem Flow.wrote (h : Flow σ) : ∃ ws, Wrote σ.worker ws := by
  cases h with
  | flowing _ hw => exact ⟨_, hw⟩
  | drained _ hw => exact ⟨_, hw⟩

/-- In a healthy call the socket is dead only after the engine's stream ended. -/
theorem Flow.ended_of_dead (h : Flow σ) (hdead : σ.dead = true) :
    σ.worker.engineEnd = some .normal := by
  cases h with
  | flowing hopen _ _ _ _ hlost =>
    refine hlost ?_
    simpa [Session.dead, hopen] using hdead
  | drained _ _ hend => exact hend

/-- No control frame is in flight after a step that writes none. -/
theorem Healthy.controls_kept (hh : Healthy c σ) :
    (if σ.lost then σ.controls else σ.controls ++ []) = [] := by
  rw [hh.controls]
  simp

/-- A worker that is not done yet has a live socket. -/
theorem Healthy.alive (hh : Healthy c σ)
    (hend : σ.worker.engineEnd ≠ some .normal) : σ.dead = false := by
  cases hdead : σ.dead with
  | false => rfl
  | true => exact absurd (hh.flow.ended_of_dead hdead) hend

/-- A move of the worker that writes what it should.  On a dead socket it must
    not be about an item any more. -/
theorem Healthy.workerStep {r : Worker × List StreamFrame}
    (hh : Healthy c σ) (hspec : ∀ ws, Wrote σ.worker ws → Wrote r.1 (ws ++ r.2))
    (hkilled : r.1.killed = false) (hfits : ∀ item ∈ r.1.items, c.fits (.data item) = true)
    (hdead : σ.dead = true →
      r.1.items = σ.worker.items ∧ r.1.engineEnd = σ.worker.engineEnd ∧ dataOf r.2 = []) :
    Healthy c (σ.workerStep r) := by
  refine { hh with killed := hkilled, fits := hfits, flow := ?_ }
  cases hh.flow with
  | @flowing ws dropped hopen hw heq hdata hsafe hlost =>
    cases hl : σ.lost with
    | false =>
      have halive : σ.dead = false := by simp [Session.dead, hl, hopen]
      have hnil := hsafe hl
      subst hnil
      refine @Flow.flowing _ _ [] hopen (hspec ws hw) ?_ rfl (fun _ => rfl) ?_
      · show consumed σ.home ++ (if σ.dead then σ.wire else σ.wire ++ r.2) ++ [] = ws ++ r.2
        rw [halive, ← heq]
        simp
      · intro h
        change σ.lost = true at h
        rw [hl] at h
        cases h
    | true =>
      have hd : σ.dead = true := by simp [Session.dead, hl]
      obtain ⟨-, hend, hr⟩ := hdead hd
      refine @Flow.flowing _ _ (dropped ++ r.2) hopen (hspec ws hw) ?_ ?_ ?_ ?_
      · show consumed σ.home ++ (if σ.dead then σ.wire else σ.wire ++ r.2) ++ _ = ws ++ r.2
        rw [hd, ← heq]
        simp
      · rw [dataOf_append, hdata, hr, List.append_nil]
      · intro h
        change σ.lost = false at h
        rw [hl] at h
        cases h
      · intro _
        exact hend.trans (hlost hl)
  | drained hclosed hw hend hitems =>
    have hd : σ.dead = true := by simp [Session.dead, hclosed]
    obtain ⟨hsame, hend', -⟩ := hdead hd
    exact .drained hclosed (hspec _ hw) (hend'.trans hend) (hitems.trans hsame.symm)

/-! ## Calls whose stream never opens -/

theorem verdict_append {pc : ServerPc} {fs : List StreamFrame} {b : Bool}
    (h : verdict c pc fs = some b) (gs : List StreamFrame) :
    verdict c pc (fs ++ gs) = some b := by
  cases pc with
  | reading => exact h
  | closed => exact h
  | prologue =>
    cases fs with
    | nil => cases h
    | cons f fs => exact h
  | handshake =>
    cases fs with
    | nil => cases h
    | cons f fs =>
      cases f with
      | handshake =>
        cases fs with
        | nil =>
          cases hfit : c.fits .handshake with
          | true => simp [verdict, hfit] at h
          | false => simpa [verdict, hfit] using h
        | cons g fs => exact h
      | prologue e => exact h
      | data item => exact h
      | sentinel => exact h

/-- Losing frames decides nothing that was not decided before. -/
theorem verdict_take (c : Call) (pc : ServerPc) (fs : List StreamFrame) (n : Nat) :
    verdict c pc (fs.take n) = verdict c pc fs ∨ verdict c pc (fs.take n) = none := by
  cases hv : verdict c pc (fs.take n) with
  | none => exact .inr rfl
  | some b =>
    left
    have happ := verdict_append hv (fs.drop n)
    rw [List.take_append_drop] at happ
    exact happ.symm

/-- The same stream, seen from the worker's side or after a loss. -/
theorem Sealed.workerStep (h : σ.Sealed c)
    (r : Worker × List StreamFrame) : (σ.workerStep r).Sealed c := by
  obtain ⟨hreq, harr, hv⟩ := h
  refine ⟨hreq, harr, ?_⟩
  show verdict c σ.home.server (if σ.dead then σ.wire else σ.wire ++ r.2) = _ ∨
    (verdict c σ.home.server (if σ.dead then σ.wire else σ.wire ++ r.2) = _ ∧ σ.lost = true)
  rcases hv with hv | ⟨hv, hlost⟩
  · left
    split
    · exact hv
    · exact verdict_append hv r.2
  · right
    have hdead : σ.dead = true := by simp [Session.dead, hlost]
    rw [if_pos hdead]
    exact ⟨hv, hlost⟩

theorem Sealed.lose (h : σ.Sealed c) (kept : Nat) :
    (σ.lose kept).Sealed c := by
  obtain ⟨hreq, harr, hv⟩ := h
  refine ⟨hreq, harr, ?_⟩
  show verdict c σ.home.server (σ.wire.take kept) = _ ∨
    (verdict c σ.home.server (σ.wire.take kept) = _ ∧ true = true)
  rcases verdict_take c σ.home.server σ.wire kept with heq | heq
  · rw [heq]
    exact hv.imp_right fun hv => ⟨hv.1, rfl⟩
  · exact .inr ⟨heq, rfl⟩

/-- A frame that is too large ends the connection. -/
theorem serve_unfit (hfit : c.fits f = false) :
    h.serve c f = some ({ h with server := .closed }, []) := by
  simp [Home.serve, hfit]

/-- So does a first frame that is not a handshake. -/
theorem serve_not_handshake (hfit : c.fits f = true)
    (hpc : h.server = .handshake) (hf : f ≠ .handshake) :
    h.serve c f = some ({ h with server := .closed }, []) := by
  cases f with
  | handshake => exact absurd rfl hf
  | _ => simp [Home.serve, hpc]

/-- The handshake of a requester that still waits. -/
theorem serve_handshake (hfit : c.fits .handshake = true)
    (hpc : h.server = .handshake) (hreq : h.requester = .awaiting) :
    h.serve c .handshake = some ({ h with server := .prologue }, []) := by
  simp [Home.serve, hfit, hpc, hreq]

/-- A closed connection thread that never offered a stream. -/
theorem sealed_of_closed (hclosed : σ.home.server = .closed)
    (hreq : σ.home.requester = .awaiting) (harr : σ.home.arrival ≠ some .stream) :
    σ.Sealed c := by
  refine ⟨hreq, harr, .inl ?_⟩
  rw [hclosed]
  rfl

theorem Sealed.read (h : σ.Sealed c) (hread : σ.read c = some σ') :
    σ'.Sealed c := by
  obtain ⟨hreq, harr, hv⟩ := h
  unfold Session.read at hread
  split at hread
  · cases hread
  · rename_i hopen
    cases hwire : σ.wire with
    | nil =>
      simp only [hwire, Option.ite_none_right_eq_some, Option.some.injEq] at hread
      obtain ⟨-, rfl⟩ := hread
      exact sealed_of_closed rfl hreq harr
    | cons f rest =>
      simp only [hwire, Option.map_eq_some_iff] at hread
      obtain ⟨r, hserve, rfl⟩ := hread
      rw [hwire] at hv
      cases hfit : c.fits f with
      | false =>
        rw [serve_unfit hfit] at hserve
        cases hserve
        exact sealed_of_closed rfl hreq harr
      | true =>
        cases hpc : σ.home.server with
        | closed => exact absurd hpc hopen
        | reading =>
          rw [hpc] at hv
          simp [verdict] at hv
        | handshake =>
          rw [hpc] at hv
          by_cases hf : f = .handshake
          · subst hf
            rw [serve_handshake hfit hpc hreq] at hserve
            cases hserve
            refine ⟨hreq, harr, ?_⟩
            -- the rest of the frames is judged as before
            have hsame : verdict c .handshake (.handshake :: rest) = verdict c .prologue rest := by
              cases rest <;> simp [verdict, hfit]
            rw [hsame] at hv
            exact hv
          · rw [serve_not_handshake hfit hpc hf] at hserve
            cases hserve
            exact sealed_of_closed rfl hreq harr
        | prologue =>
          rw [hpc] at hv
          simp only [verdict, hfit, Bool.true_and, Option.some.injEq, beq_eq_false_iff_ne, ne_eq,
            reduceCtorEq, false_and, or_false] at hv
          simp only [Home.serve, hfit, hpc, Bool.true_eq_false, if_false] at hserve
          split at hserve
          · rw [← Option.some.inj hserve]
            exact sealed_of_closed rfl hreq harr
          · rw [← Option.some.inj hserve]
            exact sealed_of_closed rfl hreq (by simp [Session.homeStep])
          · rename_i hnone
            exact absurd hnone hv

/-! ## Healthy calls: the network and the requester -/

/-- A harmless loss: the engine ended and the lost frames carry no item. -/
theorem Healthy.lose {kept : Nat} (hh : Healthy c σ)
    (hend : σ.worker.engineEnd = some .normal) (hdata : dataOf (σ.wire.drop kept) = []) :
    Healthy c (σ.lose kept) := by
  refine { hh with controls := rfl, flow := ?_ }
  cases hh.flow with
  | @flowing ws dropped hopen hw heq hdropped hsafe hlost =>
    refine @Flow.flowing _ ws (σ.wire.drop kept ++ dropped) hopen hw ?_ ?_ ?_ (fun _ => hend)
    · show consumed σ.home ++ σ.wire.take kept ++ (σ.wire.drop kept ++ dropped) = ws
      rw [← heq, List.append_assoc, ← List.append_assoc (σ.wire.take kept),
        List.take_append_drop, List.append_assoc]
    · rw [dataOf_append, hdata, hdropped, List.append_nil]
    · intro h
      cases h
  | drained hclosed hw hend' hitems => exact .drained hclosed hw hend' hitems

/-- The end of the socket before the stream opened. -/
theorem Healthy.sealed_of_closed (hh : Healthy c σ)
    (hpc : σ.home.server = .handshake ∨ σ.home.server = .prologue)
    (hhome : σ'.home = { σ.home with server := .closed }) : σ'.Sealed c := by
  obtain ⟨hreq, harr, -, -⟩ := hh.unopened hpc
  refine Transports.sealed_of_closed ?_ ?_ ?_
  · rw [hhome]
  · rw [hhome]
    exact hreq
  · rw [hhome]
    show σ.home.arrival ≠ _
    rw [harr]
    simp

/-- The end of the stream: everything was read. -/
theorem Healthy.drain (hh : Healthy c σ)
    (hpc : σ.home.server = .reading) (hworker : σ'.worker = σ.worker)
    (hcontrols : σ'.controls = []) (hhome : σ'.home = { σ.home with server := .closed })
    (hend : σ.worker.engineEnd = some .normal)
    (hitems : σ.home.received ++ σ.home.channel = σ.worker.items) : Healthy c σ' := by
  obtain ⟨ws, hw⟩ := hh.flow.wrote
  have hserver : σ'.home.server = .closed := by rw [hhome]
  obtain ⟨harr, hreq⟩ := hh.opened (.inl hpc)
  refine ⟨?_, hcontrols, ?_, ?_, ?_, ?_, ?_, ?_⟩
  · rw [hworker]; exact hh.killed
  · rw [hhome]; exact hh.receiverOpen
  · rw [hhome]; exact hh.quiet
  · rw [hworker]; exact hh.fits
  · rw [hserver]
    intro h
    rcases h with h | h <;> cases h
  · intro _
    rw [hhome]
    refine ⟨harr, ?_⟩
    rcases hreq with hreq | hreq | ⟨-, hclosed, -⟩
    · exact .inl hreq
    · exact .inr (.inl hreq)
    · rw [hpc] at hclosed
      cases hclosed
  · refine .drained hserver (hworker ▸ hw) (hworker ▸ hend) ?_
    rw [hhome, hworker]
    exact hitems

/-- What is left to read once the stream is open. -/
theorem Flow.reading (h : Flow σ) (hpc : σ.home.server = .reading) :
    ∃ ws dropped, Wrote σ.worker ws ∧ dataOf dropped = [] ∧
      (σ.lost = false → dropped = []) ∧ (σ.lost = true → σ.worker.engineEnd = some .normal) ∧
      opening ++ ((σ.home.received ++ σ.home.channel).map .data ++ (σ.wire ++ dropped)) = ws := by
  cases h with
  | @flowing ws dropped _ hw heq hdata hsafe hlost =>
    refine ⟨ws, dropped, hw, hdata, hsafe, hlost, ?_⟩
    rw [← heq]
    simp [consumed, hpc]
  | drained hclosed =>
    rw [hpc] at hclosed
    cases hclosed

/-- The socket ended after the stream was opened. -/
theorem Healthy.read_end (hh : Healthy c σ)
    (hpc : σ.home.server = .reading) (hwire : σ.wire = [])
    (hgone : σ.lost = true ∨ σ.worker.pc = .gone) :
    Healthy c { σ with home := { σ.home with server := .closed } } := by
  obtain ⟨ws, dropped, hw, hdata, -, hlost, heq⟩ := hh.flow.reading hpc
  have hend : σ.worker.engineEnd = some .normal := by
    rcases hgone with hgone | hgone
    · exact hlost hgone
    · -- a worker that never reached the requester wrote nothing
      simp only [Wrote, hgone] at hw
      rcases hw with ⟨-, -, hnil⟩ | ⟨hend, -⟩
      · rw [hnil] at heq
        cases heq
      · exact hend
  obtain ⟨tail, hws, htail⟩ := hw.of_ended hend
  refine hh.drain hpc rfl hh.controls rfl hend ?_
  have hitems := congrArg dataOf (heq.trans hws)
  have hnone : dataOf tail = [] := by
    rcases htail with rfl | rfl <;> rfl
  rw [hwire, List.nil_append, dataOf_append, dataOf_append, dataOf_append, dataOf_append,
    dataOf_map_data, dataOf_map_data, hdata, hnone, List.append_nil, List.append_nil] at hitems
  exact hitems

/-- The connection thread reads the handshake. -/
theorem Healthy.read_handshake (hh : Healthy c σ)
    (hpc : σ.home.server = .handshake) (hwire : σ.wire = f :: rest)
    (hserve : σ.home.serve c f = some r) :
    ({ σ with wire := rest }.homeStep r).Sealed c ∨
      Healthy c ({ σ with wire := rest }.homeStep r) := by
  obtain ⟨hreq, harr, hrecv, hchan⟩ := hh.unopened (.inl hpc)
  cases hh.flow with
  | drained hclosed => rw [hpc] at hclosed; cases hclosed
  | @flowing ws dropped _ hw heq hdata hsafe hlost =>
    have heq' : f :: (rest ++ dropped) = ws := by
      rw [← heq, hwire]
      simp [consumed, hpc]
    have hf : f = .handshake := hw.head heq'.symm
    subst hf
    cases hfit : c.fits .handshake with
    | false =>
      rw [serve_unfit hfit] at hserve
      cases hserve
      exact .inl (hh.sealed_of_closed (.inl hpc) rfl)
    | true =>
      right
      rw [serve_handshake hfit hpc hreq] at hserve
      cases hserve
      refine { hh with
        controls := hh.controls_kept, unopened := fun _ => ⟨hreq, harr, hrecv, hchan⟩
        opened := ?_, flow := ?_ }
      · intro h
        rcases h with h | h <;> cases h
      · refine @Flow.flowing _ ws dropped (by simp [Session.homeStep]) hw ?_ hdata hsafe hlost
        rw [← heq']
        rfl

/-- The connection thread reads the prologue. -/
theorem Healthy.read_prologue (hh : Healthy c σ)
    (hpc : σ.home.server = .prologue) (hwire : σ.wire = f :: rest)
    (hserve : σ.home.serve c f = some r) :
    ({ σ with wire := rest }.homeStep r).Sealed c ∨
      Healthy c ({ σ with wire := rest }.homeStep r) := by
  obtain ⟨hreq, harr, hrecv, hchan⟩ := hh.unopened (.inr hpc)
  cases hh.flow with
  | drained hclosed => rw [hpc] at hclosed; cases hclosed
  | @flowing ws dropped _ hw heq hdata hsafe hlost =>
    have heq' : .handshake :: f :: (rest ++ dropped) = ws := by
      rw [← heq, hwire]
      simp [consumed, hpc]
    have hf : f = .prologue none := by
      obtain ⟨tail, hws, -⟩ := hw.of_two heq'.symm
      rw [hws] at heq'
      exact (List.cons.inj (List.cons.inj heq').2).1
    subst hf
    cases hfit : c.fits (.prologue none) with
    | false =>
      rw [serve_unfit hfit] at hserve
      cases hserve
      exact .inl (hh.sealed_of_closed (.inr hpc) rfl)
    | true =>
      right
      simp only [Home.serve, hfit, hpc, StreamFrame.asPrologue, Bool.true_eq_false, if_false,
        Option.some.injEq] at hserve
      subst hserve
      have hcontrols : (if σ.lost then σ.controls else σ.controls ++ σ.home.hooks) = [] := by
        simp [hh.controls, Home.hooks, hh.quiet.1, hh.quiet.2]
      refine { hh with
        controls := hcontrols, unopened := ?_
        opened := fun _ => ⟨rfl, .inl hreq⟩, flow := ?_ }
      · intro h
        rcases h with h | h <;> cases h
      · refine @Flow.flowing _ ws dropped (by simp [Session.homeStep]) hw ?_ hdata hsafe hlost
        rw [← heq']
        rw [hrecv, hchan]
        rfl

/-- The connection thread reads a frame of the open stream. -/
theorem Healthy.read_stream (hh : Healthy c σ)
    (hpc : σ.home.server = .reading) (hwire : σ.wire = f :: rest)
    (hserve : σ.home.serve c f = some r) : Healthy c ({ σ with wire := rest }.homeStep r) := by
  obtain ⟨ws, dropped, hw, hdata, hsafe, hlost, heq⟩ := hh.flow.reading hpc
  obtain ⟨tail, hws, htail⟩ := hw.of_two heq.symm
  rw [hwire, hws, List.append_assoc, List.cons_append] at heq
  have hhead : ∀ item, tail.head? ≠ some (.data item) := by
    intro item
    rcases htail with rfl | ⟨rfl, -⟩ <;> simp
  rcases after_items hhead (List.append_cancel_left heq) with ⟨item, hmem, rfl⟩ | ⟨hitems, hlast⟩
  · -- an item goes into the channel
    have hfit := hh.fits item hmem
    simp only [Home.serve, hfit, hpc, hh.receiverOpen, Bool.true_eq_false, if_false] at hserve
    split at hserve
    · rw [← Option.some.inj hserve]
      obtain ⟨harr, hreq⟩ := hh.opened (.inl hpc)
      refine { hh with
        controls := hh.controls_kept, receiverOpen := rfl, unopened := ?_
        opened := fun _ => ⟨harr, ?_⟩, flow := ?_ }
      · intro h
        rcases h with h | h <;> cases h
      · rcases hreq with hreq | hreq | ⟨-, hclosed, -⟩
        · exact .inl hreq
        · exact .inr (.inl hreq)
        · rw [hpc] at hclosed
          cases hclosed
      · refine @Flow.flowing _ ws dropped (by simp [Session.homeStep]) hw ?_ hdata hsafe hlost
        rw [hws, List.append_assoc opening, ← heq]
        simp [consumed, Session.homeStep]
    · cases hserve
  · -- the sentinel closes the stream, read or too large to be read
    rcases htail with rfl | ⟨rfl, hend⟩
    · cases hlast
    · obtain ⟨rfl, -⟩ := List.cons.inj hlast
      have hclosed : r = ({ σ.home with server := .closed }, []) := by
        unfold Home.serve at hserve
        split at hserve
        · exact (Option.some.inj hserve).symm
        · rw [hpc] at hserve
          exact (Option.some.inj hserve).symm
      subst hclosed
      exact hh.drain hpc rfl hh.controls_kept rfl hend hitems

theorem Healthy.read (hh : Healthy c σ)
    (hread : σ.read c = some σ') : σ'.Sealed c ∨ Healthy c σ' := by
  unfold Session.read at hread
  split at hread
  · cases hread
  · rename_i hopen
    cases hwire : σ.wire with
    | nil =>
      simp only [hwire, Option.ite_none_right_eq_some, Option.some.injEq] at hread
      obtain ⟨hgone, rfl⟩ := hread
      cases hpc : σ.home.server with
      | closed => exact absurd hpc hopen
      | handshake => exact .inl (hh.sealed_of_closed (.inl hpc) rfl)
      | prologue => exact .inl (hh.sealed_of_closed (.inr hpc) rfl)
      | reading =>
        have hdrained := hh.read_end hpc hwire hgone
        rw [hwire] at hdrained
        exact .inr hdrained
    | cons f rest =>
      simp only [hwire, Option.map_eq_some_iff] at hread
      obtain ⟨r, hserve, rfl⟩ := hread
      cases hpc : σ.home.server with
      | closed => exact absurd hpc hopen
      | handshake => exact hh.read_handshake hpc hwire hserve
      | prologue => exact hh.read_prologue hpc hwire hserve
      | reading => exact .inr (hh.read_stream hpc hwire hserve)

/-- The requester takes the stream it was offered. -/
theorem Healthy.arrive (hh : Healthy c σ)
    (harrive : σ.home.arrive = some h) : Healthy c (σ.homeStep (h, [])) := by
  have hopen : ¬ (σ.home.server = .handshake ∨ σ.home.server = .prologue) := by
    intro hpc
    obtain ⟨hreq, harr, -, -⟩ := hh.unopened hpc
    simp [Home.arrive, hreq, harr] at harrive
  have hpc : σ.home.server = .reading ∨ σ.home.server = .closed := by
    cases hs : σ.home.server <;> simp [hs] at hopen ⊢
  obtain ⟨harr, -⟩ := hh.opened hpc
  have hstream : h = { σ.home with requester := .streaming } := by
    unfold Home.arrive at harrive
    split at harrive
    · rename_i herr
      rw [harr] at herr
      cases herr
    · exact (Option.some.inj harrive).symm
    · cases harrive
  subst hstream
  refine { hh with
    controls := hh.controls_kept, unopened := fun h => absurd h hopen
    opened := fun _ => ⟨harr, .inr (.inl rfl)⟩, flow := ?_ }
  cases hh.flow with
  | flowing hopen' hw heq hdata hsafe hlost => exact .flowing hopen' hw heq hdata hsafe hlost
  | drained hclosed hw hend hitems => exact .drained hclosed hw hend hitems

/-- The requester receives an item, or the end of the stream. -/
theorem Healthy.recv (hh : Healthy c σ)
    (hrecv : σ.home.recv = some h) : Healthy c (σ.homeStep (h, [])) := by
  unfold Home.recv at hrecv
  split at hrecv
  · rename_i hreq
    have hopen : ¬ (σ.home.server = .handshake ∨ σ.home.server = .prologue) := by
      intro hpc
      rw [(hh.unopened hpc).1] at hreq
      cases hreq
    split at hrecv
    · rename_i item rest hchan
      rw [← Option.some.inj hrecv]
      -- the item moves from the channel to the consumer
      have hsame : (σ.home.received ++ [item]) ++ rest = σ.home.received ++ σ.home.channel := by
        rw [hchan]
        simp
      refine { hh with
        controls := hh.controls_kept, unopened := fun h => absurd h hopen
        opened := fun h => ⟨(hh.opened h).1, .inr (.inl hreq)⟩, flow := ?_ }
      cases hh.flow with
      | @flowing ws dropped hopen' hw heq hdata hsafe hlost =>
        refine @Flow.flowing _ ws dropped hopen' hw ?_ hdata hsafe hlost
        rw [← heq]
        cases hs : σ.home.server with
        | handshake => exact absurd (.inl hs) hopen
        | prologue => exact absurd (.inr hs) hopen
        | reading => simp [consumed, Session.homeStep, hs, hchan]
        | closed => exact absurd hs hopen'
      | drained hclosed hw hend hitems => exact .drained hclosed hw hend (hsame.trans hitems)
    · rename_i hchan
      split at hrecv
      · rename_i hclosed
        rw [← Option.some.inj hrecv]
        refine { hh with
          controls := hh.controls_kept, unopened := fun h => absurd h hopen
          opened := fun h => ⟨(hh.opened h).1, .inr (.inr ⟨rfl, hclosed, hchan⟩)⟩, flow := ?_ }
        cases hh.flow with
        | flowing hopen' => exact absurd hclosed hopen'
        | drained hclosed hw hend hitems => exact .drained hclosed hw hend hitems
      · cases hrecv
  · cases hrecv

/-! ## Healthy calls: the worker -/

/-- An error in the prologue keeps the stream from opening. -/
theorem Healthy.start_error (hh : Healthy c σ)
    (hpc : σ.worker.pc = .starting) (w : Worker) (e : Bytes) :
    (σ.workerStep (w, [.prologue (some e)])).Sealed c := by
  obtain ⟨ws, hw⟩ := hh.flow.wrote
  have hnone : σ.worker.engineEnd ≠ some .normal := by
    simp only [Wrote, hpc] at hw
    rw [hw.2.1]
    simp
  have halive := hh.alive hnone
  have hlost : σ.lost = false := by
    cases hl : σ.lost with
    | false => rfl
    | true => simp [Session.dead, hl] at halive
  cases hh.flow with
  | drained _ _ hend => exact absurd hend hnone
  | @flowing ws dropped hopen hw heq _ hsafe _ =>
    simp only [Wrote, hpc] at hw
    rw [hsafe hlost, hw.2.2, List.append_nil] at heq
    have hfront : σ.home.server = .handshake ∨ σ.home.server = .prologue := by
      cases hs : σ.home.server with
      | handshake => exact .inl rfl
      | prologue => exact .inr rfl
      | reading => simp [consumed, hs, opening] at heq
      | closed => exact absurd hs hopen
    obtain ⟨hreq, harr, -, -⟩ := hh.unopened hfront
    refine ⟨hreq, by show σ.home.arrival ≠ _; rw [harr]; simp, .inl ?_⟩
    show verdict c σ.home.server (if σ.dead then σ.wire else σ.wire ++ [.prologue (some e)]) = _
    rw [halive]
    rcases hfront with hs | hs
    · simp only [consumed, hs, List.nil_append] at heq
      rw [hs, heq]
      cases hfit : c.fits .handshake <;> simp [verdict, hfit, StreamFrame.asPrologue]
    · simp only [consumed, hs, List.cons_append, List.nil_append, List.cons.injEq,
        true_and] at heq
      rw [hs, heq]
      simp [verdict, StreamFrame.asPrologue]

theorem Healthy.start {s : Start} (hh : Healthy c σ)
    (hpc : σ.worker.pc = .starting) (hs : s.sends c = true) :
    (σ.workerStep (σ.worker.start c s)).Sealed c ∨
      Healthy c (σ.workerStep (σ.worker.start c s)) := by
  unfold Worker.start
  rw [hs, if_neg (by simp)]
  split
  · exact .inl (hh.start_error hpc _ _)
  · right
    refine hh.workerStep (fun ws hw => hw.open hpc) hh.killed hh.fits ?_
    intro hdead
    obtain ⟨ws, hw⟩ := hh.flow.wrote
    have hend := hh.flow.ended_of_dead hdead
    simp only [Wrote, hpc] at hw
    rw [hw.2.1] at hend
    cases hend

theorem Healthy.pump (hmany : c.responseType = str "many_out") {n : Next}
    (hh : Healthy c σ) (hpc : σ.worker.pc = .pumping) (hthrew : n ≠ .threw)
    (hyield : ∀ item, n = .yield item → item.text.isSome = true ∧ c.fits (.data item) = true)
    (ok : Bool) :
    Healthy c (σ.workerStep (σ.worker.pump c n (if σ.dead then ok else true))) := by
  obtain ⟨ws₀, hw₀⟩ := hh.flow.wrote
  have halive : σ.dead = false := by
    refine hh.alive ?_
    simp only [Wrote, hpc] at hw₀
    rw [hw₀.1]
    simp
  have hnot : σ.dead = true → ∀ P : Prop, P := by
    intro hdead
    rw [halive] at hdead
    cases hdead
  rw [halive]
  cases n with
  | threw => exact absurd rfl hthrew
  | ended => exact hh.workerStep (fun ws hw => hw.ended hpc) hh.killed hh.fits fun h => hnot h _
  | yield item =>
    obtain ⟨htext, hfits⟩ := hyield item rfl
    have hpump : σ.worker.pump c (.yield item) true =
        ({ σ.worker with items := σ.worker.items ++ [item] }, [.data item]) := by
      have hne : ¬ str "many_out" = str "single_out" := by decide
      simp [Worker.pump, hh.killed, hmany, hne, Option.isSome_iff_ne_none.mp htext]
    simp only [Bool.false_eq_true, if_false, hpump]
    refine hh.workerStep (fun ws hw => hw.yield hpc item) hh.killed ?_ fun h => hnot h _
    intro x hx
    rcases List.mem_append.mp hx with hx | hx
    · exact hh.fits x hx
    · rw [List.mem_singleton.mp hx]
      exact hfits

/-! ## Every run -/

/-- The requester signalled, or the call failed. -/
def Over (σ : Session) : Prop :=
  σ.home.signalled = true ∨ ∃ e, σ.home.requester = .failed e

theorem serve_frame
    (hserve : h.serve c f = some r) :
    r.1.requester = h.requester ∧ r.1.signalled = h.signalled := by
  unfold Home.serve at hserve
  repeat' split at hserve
  all_goals cases hserve
  all_goals exact ⟨rfl, rfl⟩

theorem read_frame (hread : σ.read c = some σ') :
    σ'.home.requester = σ.home.requester ∧ σ'.home.signalled = σ.home.signalled := by
  unfold Session.read at hread
  split at hread
  · cases hread
  · split at hread
    · obtain ⟨r, hserve, rfl⟩ := Option.map_eq_some_iff.mp hread
      exact serve_frame hserve
    · obtain ⟨-, rfl⟩ := enabled hread
      exact ⟨rfl, rfl⟩

theorem signalled_stop (h : Home) : h.stop.1.signalled = true := by
  unfold Home.stop
  split <;> simp_all [Home.signalled]

theorem signalled_kill (h : Home) : h.kill.1.signalled = true := by
  unfold Home.kill
  split <;> simp_all [Home.signalled]

theorem over_of_stop (hexec : Move.exec c σ .stop = some σ') :
    Over σ' := by
  cases hexec
  exact .inl (signalled_stop σ.home)

theorem over_of_kill (hexec : Move.exec c σ .kill = some σ') :
    Over σ' := by
  cases hexec
  exact .inl (signalled_kill σ.home)

theorem over_of_abandon (hexec : Move.exec c σ .abandon = some σ') :
    Over σ' := by
  obtain ⟨-, rfl⟩ := enabled hexec
  exact .inl (signalled_kill σ.home)

theorem over_of_timeout (hexec : Move.exec c σ .timeout = some σ') :
    Over σ' := by
  obtain ⟨h', htimeout, rfl⟩ := Option.map_eq_some_iff.mp hexec
  unfold Home.timeout at htimeout
  split at htimeout
  · cases htimeout
    exact .inr ⟨_, rfl⟩
  · cases htimeout

theorem Over.step {c : Call} {σ σ' : Session} (h : Over σ) (l : Move)
    (hexec : Move.exec c σ l = some σ') : Over σ' := by
  -- a step that keeps the requester and its signals
  have hkeep : σ'.home.requester = σ.home.requester ∧
      σ'.home.signalled = σ.home.signalled → Over σ' := by
    intro hsame
    unfold Over
    rw [hsame.1, hsame.2]
    exact h
  cases l with
  | stop => exact over_of_stop hexec
  | kill => exact over_of_kill hexec
  | abandon => exact over_of_abandon hexec
  | read => exact hkeep (read_frame hexec)
  | arrive =>
    obtain ⟨h', harrive, rfl⟩ := Option.map_eq_some_iff.mp hexec
    rcases h with h | ⟨e, h⟩
    · unfold Home.arrive at harrive
      split at harrive
      all_goals cases harrive
      all_goals exact .inl h
    · simp [Home.arrive, h] at harrive
  | timeout => exact over_of_timeout hexec
  | recv =>
    obtain ⟨h', hrecv, rfl⟩ := Option.map_eq_some_iff.mp hexec
    rcases h with h | ⟨e, h⟩
    · unfold Home.recv at hrecv
      repeat' split at hrecv
      all_goals cases hrecv
      all_goals exact .inl h
    · simp [Home.recv, h] at hrecv
  | control | lose =>
    simp only [Move.exec] at hexec
    split at hexec
    all_goals cases hexec
    exact hkeep ⟨rfl, rfl⟩
  | connect | start | next | finish | hangUp =>
    obtain ⟨-, rfl⟩ := enabled hexec
    exact hkeep ⟨rfl, rfl⟩

theorem Sealed.step {c : Call} {σ σ' : Session} (h : σ.Sealed c) (l : Move)
    (hexec : Move.exec c σ l = some σ') : Over σ' ∨ σ'.Sealed c := by
  cases l with
  | stop => exact .inl (over_of_stop hexec)
  | kill => exact .inl (over_of_kill hexec)
  | abandon => simp [Move.exec, h.1] at hexec
  | read => exact .inr (read h hexec)
  | arrive =>
    obtain ⟨h', harrive, rfl⟩ := Option.map_eq_some_iff.mp hexec
    unfold Home.arrive at harrive
    split at harrive
    · cases harrive
      exact .inl (.inr ⟨_, rfl⟩)
    · rename_i hstream
      exact absurd hstream h.2.1
    · cases harrive
  | timeout => exact .inl (over_of_timeout hexec)
  | recv => simp [Move.exec, Home.recv, h.1] at hexec
  | control =>
    simp only [Move.exec] at hexec
    split at hexec
    · cases hexec
    · rw [← Option.some.inj hexec]
      exact .inr (workerStep (σ := { σ with controls := _ }) h _)
  | lose kept =>
    simp only [Move.exec] at hexec
    split at hexec
    · cases hexec
    · rw [← Option.some.inj hexec]
      exact .inr (lose h kept)
  | connect | start | next | finish | hangUp =>
    obtain ⟨-, rfl⟩ := enabled hexec
    exact .inr (workerStep h _)

/-- A harmless step of a healthy call. -/
theorem Healthy.step {c : Call} (hmany : c.responseType = str "many_out") {σ σ' : Session}
    (hh : Healthy c σ) (hopen : ¬ σ.Sealed c) (l : Move) (hok : harmless c σ l = true)
    (hexec : Move.exec c σ l = some σ') : Over σ' ∨ σ'.Sealed c ∨ Healthy c σ' := by
  cases l with
  | stop => exact .inl (over_of_stop hexec)
  | kill => exact .inl (over_of_kill hexec)
  | abandon => exact .inl (over_of_abandon hexec)
  | read => exact .inr (hh.read hexec)
  | arrive =>
    obtain ⟨h', harrive, rfl⟩ := Option.map_eq_some_iff.mp hexec
    exact .inr (.inr (hh.arrive harrive))
  | timeout => exact .inl (over_of_timeout hexec)
  | recv =>
    obtain ⟨h', hrecv, rfl⟩ := Option.map_eq_some_iff.mp hexec
    exact .inr (.inr (hh.recv hrecv))
  | control => simp [Move.exec, hh.controls] at hexec
  | lose kept =>
    simp only [Move.exec] at hexec
    split at hexec
    · cases hexec
    · rw [← Option.some.inj hexec]
      simp only [harmless, Bool.or_eq_true, decide_eq_true_eq, Bool.and_eq_true,
        List.isEmpty_iff] at hok
      rcases hok with hsealed | ⟨hend, hdata⟩
      · exact .inr (.inl hsealed)
      · exact .inr (.inr (hh.lose hend hdata))
  | connect ok =>
    obtain ⟨hpc, rfl⟩ := enabled hexec
    refine .inr (.inr (hh.workerStep (fun ws hw => hw.connect hpc ok) ?_ ?_ ?_))
    · cases ok <;> exact hh.killed
    · cases ok <;> exact hh.fits
    · intro _
      cases ok <;> exact ⟨rfl, rfl, rfl⟩
  | start s =>
    obtain ⟨hpc, rfl⟩ := enabled hexec
    refine .inr (hh.start hpc ?_)
    simpa [harmless, hopen] using hok
  | next n ok =>
    obtain ⟨hpc, rfl⟩ := enabled hexec
    refine .inr (.inr (hh.pump hmany hpc ?_ ?_ ok))
    · intro hn
      subst hn
      simp [harmless, hopen] at hok
    · intro item hn
      subst hn
      simpa [harmless, hopen] using hok
  | finish =>
    obtain ⟨hpc, rfl⟩ := enabled hexec
    exact .inr (.inr (hh.workerStep (fun ws hw => hw.finish hpc) hh.killed hh.fits
      fun _ => ⟨rfl, rfl, rfl⟩))
  | hangUp =>
    obtain ⟨hpc, rfl⟩ := enabled hexec
    exact .inr (.inr (hh.workerStep (fun ws hw => hw.hangUp hpc) hh.killed hh.fits
      fun _ => ⟨rfl, rfl, rfl⟩))

theorem healthy_init (c : Call) : Healthy c (stream c).init where
  killed := rfl
  controls := rfl
  receiverOpen := rfl
  quiet := ⟨rfl, rfl⟩
  fits := by simp [stream]
  unopened := fun _ => ⟨rfl, rfl, rfl, rfl⟩
  opened := by simp [stream]
  flow := @Flow.flowing _ [] [] (by simp [stream]) ⟨rfl, rfl, rfl⟩ rfl rfl (fun _ => rfl)
    (by simp [stream])

/-- A healthy call whose stream ended for the requester is complete. -/
theorem Healthy.complete (hh : Healthy c σ)
    (hdone : σ.home.requester = .completed) :
    σ.worker.engineEnd = some .normal ∧ σ.home.received = σ.worker.items := by
  have hopened : ¬ (σ.home.server = .handshake ∨ σ.home.server = .prologue) := by
    intro hs
    have h := (hh.unopened hs).1
    rw [hdone] at h
    cases h
  have hended : (σ.home.server = .reading ∨ σ.home.server = .closed) →
      σ.home.server = .closed ∧ σ.home.channel = [] := by
    intro hs
    rcases (hh.opened hs).2 with h | h | ⟨-, h⟩
    · rw [hdone] at h
      cases h
    · rw [hdone] at h
      cases h
    · exact h
  cases hh.flow with
  | flowing hopen =>
    -- the connection thread is still reading, so the requester cannot be done
    cases hs : σ.home.server with
    | closed => exact absurd hs hopen
    | reading => exact absurd (hended (.inl hs)).1 hopen
    | handshake => exact absurd (.inl hs) hopened
    | prologue => exact absurd (.inr hs) hopened
  | drained hclosed _ hend hitems =>
    refine ⟨hend, ?_⟩
    rw [(hended (.inr hclosed)).2, List.append_nil] at hitems
    exact hitems

/-- In every run of harmless steps, a response stream that ended cleanly for a
    requester that signalled nothing is complete: the engine's stream ended
    normally and exactly its items were received, in order. -/
theorem completed_received_all {c : Call} (hmany : c.responseType = str "many_out") {σ : Session}
    (hreach : ((stream c).guarded fun σ l => harmless c σ l = true).Reachable σ)
    (hdone : σ.home.requester = .completed) (hquiet : σ.home.signalled = false) :
    σ.worker.engineEnd = some .normal ∧ σ.home.received = σ.worker.items := by
  have hstep : ∀ σ l σ', (Over σ ∨ σ.Sealed c ∨ Healthy c σ) → harmless c σ l = true →
      (stream c).exec σ l = some σ' → Over σ' ∨ σ'.Sealed c ∨ Healthy c σ' := by
    intro σ l σ' hinv hok hexec
    by_cases hsealed : σ.Sealed c
    · exact (Sealed.step hsealed l hexec).imp_right .inl
    · rcases hinv with hover | h | hh
      · exact .inl (hover.step l hexec)
      · exact absurd h hsealed
      · exact hh.step hmany hsealed l hok hexec
  rcases hreach.guarded_invariant (.inr (.inr (healthy_init c))) hstep with
    (hsig | ⟨e, hfailed⟩) | hsealed | hh
  · rw [hquiet] at hsig
    cases hsig
  · rw [hdone] at hfailed
    cases hfailed
  · have hawait := hsealed.1
    rw [hdone] at hawait
    cases hawait
  · exact hh.complete hdone

/-- A call with headers of some fixed length. -/
def plainCall : Call := { headerLen := fun _ => 64 }

def itemA : Item := ⟨str "\"a\"", by decide⟩
def itemB : Item := ⟨str "\"b\"", by decide⟩

/-- An item with a string that is not UTF-8. -/
def itemC : Item := ⟨none, by decide⟩

/-- The worker opens a stream and yields one item; the requester takes the
    stream and the item. -/
def oneItem : List Move :=
  [.connect true, .start .generated, .next (.yield itemA) true,
    .read, .read, .arrive, .read, .recv]

def completeRun : List Move := oneItem ++ [.next .ended true, .finish, .read, .recv]

theorem completeRun_runs :
    (((stream plainCall).guarded fun σ l => harmless plainCall σ l = true).run
      completeRun).isSome = true := by
  decide

theorem completeRun_received :
    ((((stream plainCall).guarded fun σ l => harmless plainCall σ l = true).run
        completeRun).get completeRun_runs).home.received =
      ((((stream plainCall).guarded fun σ l => harmless plainCall σ l = true).run
        completeRun).get completeRun_runs).worker.items :=
  (completed_received_all rfl (System.Reachable.of_run_isSome completeRun_runs)
    (by decide) (by decide)).2

/-- The engine throws from `next()` after its first item. -/
def exceptionRun : List Move := oneItem ++ [.next .threw true, .finish, .read, .recv]

/-- The socket is lost with the second item on it. -/
def lossyRun : List Move := oneItem ++ [.next (.yield itemB) true, .lose 0, .read, .recv]

/-- The second item cannot be dumped. -/
def undumpedRun : List Move := oneItem ++ [.next (.yield itemC) true, .finish, .read, .recv]

/-- `generate` throws an error whose text is not UTF-8: the sentinel is read as a prologue. -/
def unansweredRun : List Move :=
  [.connect true, .start (.threw [255]), .finish, .hangUp, .read, .read, .arrive, .read, .recv]

/-- A run that looks like a clean end (nobody signalled, `recv` gave nullopt and the guard
    was marked completed), but the engine failed or items are missing. -/
def EndsIncomplete (moves : List Move) : Prop :=
  ∃ σ ∈ (stream plainCall).run moves, σ.home.requester = .completed ∧
    σ.home.signalled = false ∧
    (σ.worker.engineEnd ≠ some .normal ∨ σ.home.received ≠ σ.worker.items)

theorem clean_end_incomplete :
    EndsIncomplete exceptionRun ∧ EndsIncomplete lossyRun ∧ EndsIncomplete undumpedRun ∧
      EndsIncomplete unansweredRun := by
  unfold EndsIncomplete
  decide

end DynamoCpp.Transports
