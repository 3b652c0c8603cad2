import Mathlib.Data.List.Basic

/-! # Executable transition systems

    A system is an initial state together with a partial step function:
    `exec s l` is the state after label `l`, or `none` when `l` cannot happen
    in `s`.  The labels carry all the nondeterminism (which party moves, what
    the network does, which clock value is read), so a run is a list of
    labels and can be replayed on a concrete input.

    * **Reachability** and the induction rule for invariants.
    * **Guarded systems**: the same system with every step that breaks a
      condition removed.  "In every run whose steps all meet `ok`" is
      reachability in `sys.guarded ok`.
    * **Single runs**: what holds in all their states, what their steps produce.
-/

namespace Framework

universe u v

/-- A transition system with an executable, partial step function. -/
structure System (State : Type u) (Label : Type v) where
  /-- The state every run starts in. -/
  init : State
  /-- One step, `none` if the label is not enabled. -/
  exec : State → Label → Option State

section step

variable {State : Type u} {p : Prop} [Decidable p] {s s' : State}

/-- A step with a precondition. -/
theorem enabled (h : (if p then some s else none) = some s') : p ∧ s = s' := by
  simpa using h

/-- A step that something can block. -/
theorem not_blocked (h : (if p then none else some s) = some s') : ¬ p ∧ s = s' := by
  simpa using h

end step

namespace System

variable {State : Type u} {Label : Type v}

/-- States reached from `sys.init` by enabled steps. -/
inductive Reachable (sys : System State Label) : State → Prop where
  | init : Reachable sys sys.init
  | step : ∀ {s s' : State} (l : Label), Reachable sys s → sys.exec s l = some s' →
      Reachable sys s'

/-- The state after all the labels in order, `none` if one of them is not enabled. -/
def runFrom (sys : System State Label) : State → List Label → Option State
  | s, [] => some s
  | s, l :: ls => (sys.exec s l).bind fun s' => sys.runFrom s' ls

/-- A run from the initial state. -/
def run (sys : System State Label) (ls : List Label) : Option State :=
  sys.runFrom sys.init ls

/-- `P` holds in every state of the run. -/
def Along (sys : System State Label) (P : State → Prop) : State → List Label → Prop
  | s, [] => P s
  | s, l :: ls => P s ∧ ∃ s', sys.exec s l = some s' ∧ sys.Along P s' ls

/-- What the steps of a run produce, in order. -/
def collect {Output : Type*} (sys : System State Label) (output : State → Label → List Output) :
    State → List Label → List Output
  | _, [] => []
  | s, l :: ls =>
    output s l ++ ((sys.exec s l).map fun s' => sys.collect output s' ls).getD []

/-! ## Invariants -/

/-- What holds initially and is kept by every step holds in every reachable state. -/
theorem Reachable.invariant {sys : System State Label} {Inv : State → Prop}
    (hinit : Inv sys.init)
    (hstep : ∀ s l s', Inv s → sys.exec s l = some s' → Inv s')
    {s : State} (h : sys.Reachable s) : Inv s := by
  induction h with
  | init => exact hinit
  | step l _ hexec ih => exact hstep _ l _ ih hexec

/-! ## Runs and reachability -/

theorem Reachable.of_runFrom {sys : System State Label} {ls : List Label} :
    ∀ {s s' : State}, sys.Reachable s → sys.runFrom s ls = some s' → sys.Reachable s' := by
  induction ls with
  | nil =>
    intro s s' hs h
    simp only [runFrom, Option.some.injEq] at h
    exact h ▸ hs
  | cons l ls ih =>
    intro s s' hs h
    obtain ⟨m, hm, hrest⟩ := Option.bind_eq_some_iff.mp h
    exact ih (.step l hs hm) hrest

/-- The last state of a run is reachable. -/
theorem Reachable.of_run {sys : System State Label} {ls : List Label} {s : State}
    (h : sys.run ls = some s) : sys.Reachable s :=
  of_runFrom .init h

/-- A property of every reachable state holds at the end of every run that ends. -/
theorem Reachable.of_run_isSome {sys : System State Label} {ls : List Label}
    (h : (sys.run ls).isSome = true) : sys.Reachable ((sys.run ls).get h) :=
  of_run (Option.some_get h).symm

theorem runFrom_append {sys : System State Label} {ls ls' : List Label} : ∀ {s : State},
    sys.runFrom s (ls ++ ls') = (sys.runFrom s ls).bind fun s' => sys.runFrom s' ls' := by
  induction ls with
  | nil => exact fun {s} => rfl
  | cons l ls ih =>
    intro s
    rw [List.cons_append, runFrom, runFrom, Option.bind_assoc]
    exact congrArg _ (funext fun s' => ih)

/-! ## Along a run -/

theorem Along.head {sys : System State Label} {P : State → Prop} {s : State} {ls : List Label}
    (h : sys.Along P s ls) : P s := by
  cases ls with
  | nil => exact h
  | cons l ls => exact h.1

theorem collect_cons {Output : Type*} {sys : System State Label}
    {output : State → Label → List Output} {s s' : State} {l : Label} {ls : List Label}
    (h : sys.exec s l = some s') :
    sys.collect output s (l :: ls) = output s l ++ sys.collect output s' ls := by
  rw [collect, h]
  rfl

theorem collect_append {Output : Type*} {sys : System State Label}
    {output : State → Label → List Output} {ls ls' : List Label} : ∀ {s s' : State},
    sys.runFrom s ls = some s' →
      sys.collect output s (ls ++ ls') = sys.collect output s ls ++ sys.collect output s' ls' := by
  induction ls with
  | nil =>
    intro s s' hrun
    cases hrun
    rfl
  | cons l ls ih =>
    intro s s' hrun
    obtain ⟨s₁, hexec, hrest⟩ := Option.bind_eq_some_iff.mp hrun
    rw [List.cons_append, collect_cons hexec, collect_cons hexec, ih hrest, List.append_assoc]

/-- Invariant rule for a run with what it has produced so far. -/
theorem collect_invariant {Output : Type*} {sys : System State Label}
    {output : State → Label → List Output} {Inv : State → List Output → Prop}
    {ok : Label → Prop}
    (hstep : ∀ s l s' outs, Inv s outs → ok l → sys.exec s l = some s' →
      Inv s' (outs ++ output s l))
    {ls : List Label} : ∀ {s s' : State} {outs : List Output}, Inv s outs → (∀ l ∈ ls, ok l) →
      sys.runFrom s ls = some s' → Inv s' (outs ++ sys.collect output s ls) := by
  induction ls with
  | nil =>
    intro s s' outs h _ hrun
    cases hrun
    rwa [collect, List.append_nil]
  | cons l ls ih =>
    intro s s' outs h hok hrun
    obtain ⟨s₁, hexec, hrest⟩ := Option.bind_eq_some_iff.mp hrun
    rw [collect_cons hexec, ← List.append_assoc]
    exact ih (hstep s l s₁ outs h (hok l List.mem_cons_self) hexec)
      (fun l' hl' => hok l' (List.mem_cons_of_mem l hl')) hrest

/-! ## Guarded systems -/

/-- The system in which a step is taken only if it meets `ok`. -/
def guarded (sys : System State Label) (ok : State → Label → Prop)
    [∀ s l, Decidable (ok s l)] : System State Label where
  init := sys.init
  exec := fun s l => if ok s l then sys.exec s l else none

section guarded

variable {sys : System State Label} {ok : State → Label → Prop} [∀ s l, Decidable (ok s l)]

theorem guarded_exec {s s' : State} {l : Label} :
    (sys.guarded ok).exec s l = some s' ↔ ok s l ∧ sys.exec s l = some s' := by
  by_cases h : ok s l <;> simp [guarded]

/-- Invariant rule for the runs whose steps all meet the guard. -/
theorem Reachable.guarded_invariant {Inv : State → Prop}
    (hinit : Inv sys.init)
    (hstep : ∀ s l s', Inv s → ok s l → sys.exec s l = some s' → Inv s')
    {s : State} (h : (sys.guarded ok).Reachable s) : Inv s := by
  induction h with
  | init => exact hinit
  | step l _ hexec ih =>
    obtain ⟨hok, hexec⟩ := guarded_exec.mp hexec
    exact hstep _ l _ ih hok hexec

/-- A run of the guarded system is a run of the system. -/
theorem run_of_guarded {ls : List Label} {s' : State} : ∀ {s : State},
    (sys.guarded ok).runFrom s ls = some s' → sys.runFrom s ls = some s' := by
  induction ls with
  | nil => exact fun h => h
  | cons l ls ih =>
    intro s h
    obtain ⟨m, hm, hrest⟩ := Option.bind_eq_some_iff.mp h
    exact Option.bind_eq_some_iff.mpr ⟨m, (guarded_exec.mp hm).2, ih hrest⟩

theorem guarded_of_run {ls : List Label} {s : State} (h : sys.run ls = some s)
    (hsome : ((sys.guarded ok).run ls).isSome = true) : (sys.guarded ok).run ls = some s := by
  obtain ⟨s', hs'⟩ := Option.isSome_iff_exists.mp hsome
  exact hs'.trans ((run_of_guarded hs').symm.trans h)

/-- A run is known by facts that can be evaluated. -/
theorem exists_run {ls : List Label} {P : State → Prop} {Fact : Type*} (facts : State → Fact)
    (known : Fact) (hknown : (sys.run ls).map facts = some known)
    (h : ∀ s, sys.run ls = some s → facts s = known → P s) : ∃ s, sys.run ls = some s ∧ P s := by
  obtain ⟨s, hrun, hfacts⟩ := Option.map_eq_some_iff.mp hknown
  exact ⟨s, hrun, h s hrun hfacts⟩

theorem guarded_runFrom_iff {Lost : State → Prop}
    (hkeep : ∀ s l s', sys.Reachable s → ok s l → ¬ Lost s → sys.exec s l = some s' → ¬ Lost s')
    (hlate : ∀ s l s', sys.Reachable s → ¬ ok s l → sys.exec s l = some s' → Lost s')
    (hstay : ∀ s l s', sys.Reachable s → Lost s → sys.exec s l = some s' → Lost s')
    (ls : List Label) : ∀ {s s' : State}, sys.Reachable s → sys.runFrom s ls = some s' →
      (Lost s → Lost s') ∧ (¬ Lost s → ((sys.guarded ok).runFrom s ls = some s' ↔ ¬ Lost s')) := by
  induction ls with
  | nil =>
    intro s s' _ hrun
    cases hrun
    exact ⟨fun h => h, fun h => ⟨fun _ => h, fun _ => rfl⟩⟩
  | cons l ls ih =>
    intro s s' hs hrun
    obtain ⟨m, hm, hrest⟩ := Option.bind_eq_some_iff.mp hrun
    obtain ⟨hlost, hkept⟩ := ih (.step l hs hm) hrest
    refine ⟨fun h => hlost (hstay s l m hs h hm), fun h => ?_⟩
    by_cases hok : ok s l
    · have hexec : (sys.guarded ok).exec s l = some m := guarded_exec.mpr ⟨hok, hm⟩
      rw [runFrom, hexec]
      exact hkept (hkeep s l m hs hok h hm)
    · -- the guarded run stops here and the loss stays
      have hexec : (sys.guarded ok).exec s l = none := if_neg hok
      rw [runFrom, hexec]
      refine ⟨fun hnone => ?_, fun hkept => absurd (hlost (hlate s l m hs hok hm)) hkept⟩
      cases hnone

/-- If breaking the guard causes a loss, which is permanent, and nothing else does, then a
    run ends without a loss exactly when all its steps meet the guard. -/
theorem guarded_run_iff {Lost : State → Prop} (hinit : ¬ Lost sys.init)
    (hkeep : ∀ s l s', sys.Reachable s → ok s l → ¬ Lost s → sys.exec s l = some s' → ¬ Lost s')
    (hlate : ∀ s l s', sys.Reachable s → ¬ ok s l → sys.exec s l = some s' → Lost s')
    (hstay : ∀ s l s', sys.Reachable s → Lost s → sys.exec s l = some s' → Lost s')
    {ls : List Label} {s : State} (hrun : sys.run ls = some s) :
    (sys.guarded ok).run ls = some s ↔ ¬ Lost s :=
  (guarded_runFrom_iff hkeep hlate hstay ls .init hrun).2 hinit

end guarded

end System

end Framework
