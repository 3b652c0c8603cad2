import DynamoCpp.Framework.Interleaving
import Mathlib.Data.Multiset.Count
import Mathlib.Logic.Function.Basic

/-! # Stop and kill hooks

    `Controller` of `engine.h`.  `on_stop` and `on_kill` read the flag of their signal and
    then, under the mutex, append the hook to the list of the signal, unless the flag was
    set: then they run it.  `stop_generating` and `kill` set the flag and then, under the
    mutex, take the list and run what is in it.  Every operation on a flag, every section
    under the mutex and every hook that is run is an action of its own.

    A hook is in one place only, so it runs at most once.  It is lost if it is appended to
    a list that has been taken already, and only then.
-/

namespace DynamoCpp.Pipeline

open Framework

/-! ## The model -/

inductive Signal where
  | stop
  | kill
  deriving DecidableEq

structure Controller where
  /-- `stopped_` and `killed_`. -/
  signalled  : Signal → Bool := fun _ => false
  /-- `stop_hooks_` and `kill_hooks_`. -/
  hooks      : Signal → List Nat := fun _ => []
  -- what has happened
  /-- How many hooks `on_stop` and `on_kill` were called with; this numbers them. -/
  registered : Signal → Nat := fun _ => 0
  /-- Whether `stop_generating` or `kill`, and whether `kill` was called. -/
  asked      : Signal → Bool := fun _ => false
  /-- How often a hook was run, or posted to the signal executor. -/
  runs       : Signal → Nat → Nat := fun _ _ => 0

inductive Action where
  /-- `is_stopped` or `is_killed`, for a hook to be registered. -/
  | isSignalled (σ : Signal) (fn : Nat)
  /-- The locked section of `add_hook`. -/
  | addHook (σ : Signal) (fn : Nat) (fired : Bool)
  | runHook (σ : Signal) (fn : Nat)
  /-- The exchange of `stopped_`. -/
  | stopGenerating
  /-- The exchange of `killed_`. -/
  | kill
  /-- The locked section of `run_hooks`. -/
  | runHooks (σ : Signal)
  deriving DecidableEq

/-- The hook that an action is about to register or to run. -/
def Action.hook : Action → Option (Signal × Nat)
  | .isSignalled σ fn | .addHook σ fn _ | .runHook σ fn => some (σ, fn)
  | .stopGenerating | .kill | .runHooks _ => none

/-- The signal that has been given when the action happens. -/
def Action.given : Action → Option Signal
  | .addHook σ _ true | .runHook σ _ | .runHooks σ => some σ
  | .addHook _ _ false | .isSignalled _ _ | .stopGenerating | .kill => none

inductive Call where
  | onStop
  | onKill
  | stopGenerating
  | kill

namespace Controller

def onSignal (c : Controller) (σ : Signal) : Controller × List Action :=
  ({ c with registered := Function.update c.registered σ (c.registered σ + 1) },
    [.isSignalled σ (c.registered σ)])

def start (c : Controller) : Call → Controller × List Action
  | .onStop => c.onSignal .stop
  | .onKill => c.onSignal .kill
  | .stopGenerating =>
    ({ c with asked := Function.update c.asked .stop true }, [.stopGenerating])
  | .kill => ({ c with asked := fun _ => true }, [.kill])

def act (c : Controller) : Action → Controller × List Action
  | .isSignalled σ fn => (c, [.addHook σ fn (c.signalled σ)])
  | .addHook σ fn fired =>
    if fired then (c, [.runHook σ fn])
    else ({ c with hooks := Function.update c.hooks σ (c.hooks σ ++ [fn]) }, [])
  | .runHook σ fn =>
    ({ c with
        runs := Function.update c.runs σ (Function.update (c.runs σ) fn (c.runs σ fn + 1)) }, [])
  | .stopGenerating =>
    ({ c with signalled := Function.update c.signalled .stop true },
      if c.signalled .stop then [] else [.runHooks .stop])
  | .kill =>
    -- the call of `stop_generating` comes first in any case
    ({ c with signalled := Function.update c.signalled .kill true },
      .stopGenerating :: if c.signalled .kill then [] else [.runHooks .kill])
  | .runHooks σ =>
    ({ c with hooks := Function.update c.hooks σ [] }, (c.hooks σ).map (.runHook σ))

end Controller

def controller : Program Controller Call Action where
  init := {}
  start := Controller.start
  act := Controller.act

namespace Controller

/-! ## Where a hook is -/

/-- How many pending actions have the hook. -/
def held (m : Multiset Action) (σ : Signal) (fn : Nat) : Nat :=
  m.countP fun a => a.hook = some (σ, fn)

section held

variable (m n : Multiset Action) (σ τ : Signal) (fn : Nat)

theorem held_cons (a : Action) :
    held (a ::ₘ m) σ fn = held m σ fn + if a.hook = some (σ, fn) then 1 else 0 :=
  Multiset.countP_cons _ a m

theorem held_add : held (m + n) σ fn = held m σ fn + held n σ fn :=
  Multiset.countP_add _ m n

theorem held_nil : held ([] : List Action) σ fn = 0 := rfl

theorem held_singleton (a : Action) :
    held [a] σ fn = if a.hook = some (σ, fn) then 1 else 0 := by
  rw [← Multiset.cons_coe, held_cons, held_nil, Nat.zero_add]

theorem held_of_none {m : Multiset Action} (hm : ∀ a ∈ m, a.hook = none) : held m σ fn = 0 := by
  refine Multiset.countP_eq_zero.mpr fun a ha => ?_
  rw [hm a ha]
  simp

theorem held_runHooks (fns : List Nat) :
    held (fns.map (Action.runHook σ)) τ fn = if σ = τ then fns.count fn else 0 := by
  induction fns with
  | nil =>
    rw [List.map_nil, held_nil, List.count_nil]
    split <;> rfl
  | cons n fns ih =>
    rw [List.map_cons, ← Multiset.cons_coe, held_cons, ih, List.count_cons]
    by_cases hσ : σ = τ <;> simp [Action.hook, hσ]

end held

/-- How many times a hook is somewhere: it has run, it is in the list, or a call has it. -/
def places (c : Controller) (m : Multiset Action) (σ : Signal) (fn : Nat) : Nat :=
  c.runs σ fn + (c.hooks σ).count fn + held m σ fn

variable {c : Controller} {m : Multiset Action} {a : Action} {σ : Signal}

/-- An action without a hook that leads to such actions moves nothing. -/
theorem places_unheld
    (hruns : (c.act a).1.runs = c.runs) (hhooks : (c.act a).1.hooks = c.hooks)
    (ha : a.hook = none) (hnone : ∀ b ∈ (c.act a).2, b.hook = none) (σ : Signal) (fn : Nat) :
    places (c.act a).1 (m + (c.act a).2) σ fn = places c (a ::ₘ m) σ fn := by
  have hheld : held (c.act a).2 σ fn = 0 := held_of_none σ fn hnone
  rw [places, places, hruns, hhooks, held_add, hheld, held_cons, if_neg (by simp [ha])]

/-- A call moves its hook from one place to the next. -/
theorem places_act (c : Controller) (m : Multiset Action) (a : Action) (σ : Signal) (fn : Nat) :
    places (c.act a).1 (m + (c.act a).2) σ fn = places c (a ::ₘ m) σ fn := by
  cases a with
  | isSignalled τ n =>
    simp only [act, places, held_add, held_cons, held_singleton]
    rfl
  | addHook τ n fired =>
    cases fired with
    | true =>
      simp only [act, places, if_true, held_add, held_cons, held_singleton]
      rfl
    | false =>
      simp only [act, places, Bool.false_eq_true, if_false, held_add, held_cons, held_nil,
        Action.hook, Option.some.injEq, Prod.mk.injEq, Function.update_apply]
      by_cases hσ : σ = τ
      · subst hσ
        simp only [if_true, true_and, List.count_append, List.count_singleton, beq_iff_eq]
        omega
      · simp only [hσ, Ne.symm hσ, if_false, false_and]
  | runHook τ n =>
    simp only [act, places, held_add, held_cons, held_nil, Action.hook, Option.some.injEq,
      Prod.mk.injEq, Function.update_apply]
    by_cases hσ : σ = τ
    · subst hσ
      by_cases hn : fn = n
      · subst hn
        simp only [if_true, Function.update_self, and_self]
        omega
      · simp only [if_true, Function.update_of_ne hn, Ne.symm hn, and_false, if_false]
    · simp only [hσ, Ne.symm hσ, if_false, false_and]
  | stopGenerating =>
    refine places_unheld rfl rfl rfl (fun b hb => ?_) σ fn
    simp only [act] at hb
    split at hb
    · cases hb
    · rw [List.mem_singleton.mp hb]
      rfl
  | kill =>
    refine places_unheld rfl rfl rfl (fun b hb => ?_) σ fn
    rcases List.mem_cons.mp hb with rfl | hb
    · rfl
    split at hb
    · cases hb
    · rw [List.mem_singleton.mp hb]
      rfl
  | runHooks τ =>
    simp only [act, places, held_add, held_cons, held_runHooks, Function.update_apply]
    have hnone : ¬ (Action.runHooks τ).hook = some (σ, fn) := by simp [Action.hook]
    rw [if_neg hnone]
    by_cases hσ : σ = τ
    · simp only [hσ, if_true, List.count_nil]
      omega
    · simp only [hσ, Ne.symm hσ, if_false]

/-! ## Which signals have been given -/

theorem signalled_act (h : c.signalled σ = true) (a : Action) :
    (c.act a).1.signalled σ = true := by
  cases a with
  | isSignalled τ n => exact h
  | addHook τ n fired => cases fired <;> exact h
  | runHook τ n => exact h
  | runHooks τ => exact h
  | stopGenerating | kill =>
    simp only [act, Function.update_apply]
    split
    · rfl
    · exact h

/-- The actions that follow are about signals that have been given. -/
theorem given_act
    (h : a.given = some σ → c.signalled σ = true) {b : Action} (hb : b ∈ (c.act a).2)
    (hgiven : b.given = some σ) : (c.act a).1.signalled σ = true := by
  cases a with
  | isSignalled τ n =>
    cases List.mem_singleton.mp hb
    cases hτ : c.signalled τ with
    | true =>
      rw [hτ] at hgiven
      cases hgiven
      exact hτ
    | false =>
      rw [hτ] at hgiven
      cases hgiven
  | addHook τ n fired =>
    cases fired with
    | true =>
      cases List.mem_singleton.mp hb
      exact h hgiven
    | false => cases hb
  | runHook τ n => cases hb
  | stopGenerating =>
    simp only [act] at hb
    split at hb
    · cases hb
    · cases List.mem_singleton.mp hb
      cases hgiven
      exact Function.update_self Signal.stop true c.signalled
  | kill =>
    rcases List.mem_cons.mp hb with rfl | hb
    · cases hgiven
    split at hb
    · cases hb
    · cases List.mem_singleton.mp hb
      cases hgiven
      exact Function.update_self Signal.kill true c.signalled
  | runHooks τ =>
    obtain ⟨n, _, rfl⟩ := List.mem_map.mp hb
    exact h hgiven

theorem runs_act {fn : Nat}
    (hruns : (c.act a).1.runs σ fn ≠ 0) : c.runs σ fn ≠ 0 ∨ a = .runHook σ fn := by
  cases a with
  | isSignalled | stopGenerating | kill | runHooks => exact .inl hruns
  | addHook τ n fired => cases fired <;> exact .inl hruns
  | runHook τ n =>
    by_cases hσ : σ = τ
    · subst hσ
      by_cases hn : fn = n
      · exact .inr (hn ▸ rfl)
      · simp only [act, Function.update_self, Function.update_of_ne hn] at hruns
        exact .inl hruns
    · simp only [act, Function.update_of_ne hσ] at hruns
      exact .inl hruns

/-! ## The invariant -/

structure Placed (c : Controller) (m : Multiset Action) : Prop where
  once  : ∀ σ fn, places c m σ fn = if fn < c.registered σ then 1 else 0
  given : ∀ a ∈ m, ∀ σ, a.given = some σ → c.signalled σ = true
  ran   : ∀ σ fn, c.runs σ fn ≠ 0 → c.signalled σ = true
  stop  : c.asked .stop = true ↔ c.signalled .stop = true ∨ .stopGenerating ∈ m ∨ .kill ∈ m
  kill  : c.asked .kill = true ↔ c.signalled .kill = true ∨ .kill ∈ m

theorem placed_init : Placed {} 0 where
  once := fun _ _ => rfl
  given := fun _ h => absurd h (Multiset.notMem_zero _)
  ran := fun _ _ h => absurd rfl h
  stop := by simp
  kill := by simp

namespace Placed

variable {c : Controller} {m : Multiset Action}

theorem given_add (h : Placed c m) {actions : List Action}
    (hnone : ∀ a ∈ actions, a.given = none) :
    ∀ a ∈ m + (actions : Multiset Action), ∀ σ, a.given = some σ → c.signalled σ = true := by
  intro a ha σ hσ
  rcases Multiset.mem_add.mp ha with ha | ha
  · exact h.given a ha σ hσ
  · rw [hnone a ha] at hσ
    cases hσ

theorem onSignal (h : Placed c m) (σ : Signal) :
    Placed (c.onSignal σ).1 (m + (c.onSignal σ).2) where
  once := fun τ n => by
    have honce := h.once τ n
    simp only [Controller.onSignal, places, held_add, held_singleton, Action.hook,
      Option.some.injEq, Prod.mk.injEq, Function.update_apply] at honce ⊢
    by_cases hτ : τ = σ
    · subst hτ
      simp only [true_and, if_true]
      split at honce <;> split <;> split <;> omega
    · simp only [hτ, Ne.symm hτ, false_and, if_false]
      exact honce
  given := h.given_add (by simp [Controller.onSignal, Action.given])
  ran := h.ran
  stop := by simpa [Controller.onSignal] using h.stop
  kill := by simpa [Controller.onSignal] using h.kill

theorem start (h : Placed c m) (call : Call) :
    Placed (c.start call).1 (m + (c.start call).2) := by
  cases call with
  | onStop => exact h.onSignal .stop
  | onKill => exact h.onSignal .kill
  | stopGenerating | kill =>
    refine ⟨fun σ fn => ?_, h.given_add (by simp [Controller.start, Action.given]), h.ran, ?_, ?_⟩
    · have honce := h.once σ fn
      simp only [Controller.start, places, held_add, held_singleton, Action.hook]
      exact honce
    · simp [Controller.start]
    · simp [Controller.start, h.kill]

theorem act {a : Action} (h : Placed c (a ::ₘ m)) : Placed (c.act a).1 (m + (c.act a).2) where
  once := fun σ fn => by
    have hregistered : (c.act a).1.registered = c.registered := by
      cases a with
      | addHook τ n fired => cases fired <;> rfl
      | _ => rfl
    rw [places_act, hregistered]
    exact h.once σ fn
  given := fun b hb σ hσ => by
    rcases Multiset.mem_add.mp hb with hb | hb
    · exact signalled_act (h.given b (Multiset.mem_cons_of_mem hb) σ hσ) a
    · exact given_act (h.given a (Multiset.mem_cons_self a m) σ) hb hσ
  ran := fun σ fn hruns => by
    rcases runs_act hruns with hruns | rfl
    · exact signalled_act (h.ran σ fn hruns) a
    · exact signalled_act (h.given _ (Multiset.mem_cons_self _ m) σ rfl) _
  stop := by
    have hstop := h.stop
    cases a with
    | addHook τ n fired => cases fired <;> simpa [Controller.act] using hstop
    | stopGenerating | kill =>
      simp [Controller.act] at hstop ⊢
      exact hstop
    | runHooks | isSignalled | runHook => simpa [Controller.act] using hstop
  kill := by
    have hkill := h.kill
    cases a with
    | addHook τ n fired => cases fired <;> simpa [Controller.act] using hkill
    | stopGenerating =>
      cases hstopped : c.signalled .stop <;> simpa [Controller.act, hstopped] using hkill
    | kill =>
      simp [Controller.act] at hkill ⊢
      exact hkill
    | runHooks | isSignalled | runHook => simpa [Controller.act] using hkill

end Placed

theorem placed_reachable {w : Interleaving Controller Action}
    (hw : controller.system.Reachable w) : Placed w.shared w.pending :=
  Program.reachable_invariant placed_init (fun _ _ call h => h.start call) (fun _ _ _ h => h.act) hw

/-! ## Lost hooks -/

/-- A hook is in a list that nobody takes any more. -/
def Lost (c : Controller) (m : Multiset Action) : Prop :=
  ∃ σ fn, c.signalled σ = true ∧ .runHooks σ ∉ m ∧ fn ∈ c.hooks σ

/-- A hook is appended to its list only while the signal is not given or the list has yet
    to be taken. -/
def InTime (c : Controller) (m : Multiset Action) : Action → Prop
  | .addHook σ _ false => c.signalled σ = true → .runHooks σ ∈ m
  | _ => True

instance (c : Controller) (m : Multiset Action) (a : Action) : Decidable (InTime c m a) := by
  unfold InTime
  split <;> infer_instance

theorem lost_start (c : Controller) (m : Multiset Action) (call : Call) :
    Lost (c.start call).1 (m + (c.start call).2) ↔ Lost c m := by
  cases call <;> simp [Lost, start, onSignal]

section kept

variable {c : Controller} {m n : Multiset Action}

/-- No hook is lost while the calls that take the lists are still there. -/
theorem kept_pending (hkept : ¬ Lost c m) (hpending : ∀ σ, .runHooks σ ∈ m → .runHooks σ ∈ n) :
    ¬ Lost c n :=
  fun ⟨σ, fn, hsignalled, htaken, hfn⟩ =>
    hkept ⟨σ, fn, hsignalled, fun hσ => htaken (hpending σ hσ), hfn⟩

/-- The call that gives a signal takes the list. -/
theorem kept_signalled {σ : Signal} (hkept : ¬ Lost c m)
    (hpending : ∀ τ, .runHooks τ ∈ m → .runHooks τ ∈ n)
    (hσ : c.signalled σ = false → .runHooks σ ∈ n) :
    ¬ Lost { c with signalled := Function.update c.signalled σ true } n := by
  rintro ⟨τ, fn, hsignalled, htaken, hfn⟩
  have hgiven : c.signalled τ = true := by
    by_cases hτ : τ = σ
    · subst hτ
      by_contra hnot
      exact htaken (hσ (Bool.eq_false_iff.mpr hnot))
    · simpa [Function.update_of_ne hτ] using hsignalled
  exact kept_pending hkept hpending ⟨τ, fn, hgiven, htaken, hfn⟩

/-- Nothing is lost from a list that is not full yet, or that will be taken. -/
theorem kept_addHook {σ : Signal} {fn : Nat} (hkept : ¬ Lost c m)
    (hintime : c.signalled σ = true → .runHooks σ ∈ m) :
    ¬ Lost { c with hooks := Function.update c.hooks σ (c.hooks σ ++ [fn]) } m := by
  rintro ⟨τ, n, hsignalled, htaken, hn⟩
  by_cases hτ : τ = σ
  · subst hτ
    exact htaken (hintime hsignalled)
  · simp only [Function.update_of_ne hτ] at hn
    exact hkept ⟨τ, n, hsignalled, htaken, hn⟩

theorem kept_runHooks {σ : Signal} (hkept : ¬ Lost c (.runHooks σ ::ₘ m)) :
    ¬ Lost { c with hooks := Function.update c.hooks σ [] } m := by
  rintro ⟨τ, n, hsignalled, htaken, hn⟩
  by_cases hτ : τ = σ
  · simp [hτ] at hn
  · simp only [Function.update_of_ne hτ] at hn
    exact hkept ⟨τ, n, hsignalled, by simpa [hτ] using htaken, hn⟩

/-- An action that is in time loses no hook. -/
theorem kept_act {a : Action} (hintime : InTime c (a ::ₘ m) a) (hkept : ¬ Lost c (a ::ₘ m)) :
    ¬ Lost (c.act a).1 (m + (c.act a).2) := by
  cases a with
  | isSignalled σ fn => exact kept_pending hkept (by simp [act])
  | runHook σ fn => exact kept_pending (c := c) hkept (by simp [act])
  | addHook σ fn fired =>
    cases fired with
    | true => exact kept_pending hkept (by simp [act])
    | false =>
      have hsame : ∀ τ, .runHooks τ ∈ .addHook σ fn false ::ₘ m →
          .runHooks τ ∈ m + (c.act (.addHook σ fn false)).2 := by simp [act]
      exact kept_addHook (kept_pending hkept hsame) fun hσ => hsame σ (hintime hσ)
  | stopGenerating | kill =>
    refine kept_signalled hkept (fun τ hτ => ?_) fun hσ => ?_
    · exact Multiset.mem_add.mpr (.inl (by simpa using hτ))
    · simp [act, hσ]
  | runHooks σ =>
    exact kept_pending (kept_runHooks hkept) fun τ hτ => Multiset.mem_add.mpr (.inl hτ)

end kept

/-- A hook that is appended too late is lost. -/
theorem lost_late
    (hlate : ¬ InTime c (a ::ₘ m) a) : Lost (c.act a).1 (m + (c.act a).2) := by
  cases a with
  | addHook σ fn fired =>
    cases fired with
    | true => exact absurd trivial hlate
    | false =>
      simp [InTime] at hlate
      exact ⟨σ, fn, by simpa [act] using hlate⟩
  | _ => exact absurd trivial hlate

/-- A lost hook stays lost: only the call that gives a signal takes its list. -/
theorem lost_act (hlost : Lost c (a ::ₘ m)) :
    Lost (c.act a).1 (m + (c.act a).2) := by
  obtain ⟨σ, fn, hsignalled, htaken, hfn⟩ := hlost
  refine ⟨σ, fn, signalled_act hsignalled a, ?_⟩
  cases a with
  | isSignalled | runHook =>
    simp at htaken
    simpa [act] using ⟨htaken, hfn⟩
  | addHook τ n fired =>
    simp at htaken
    cases fired with
    | true => simpa [act] using ⟨htaken, hfn⟩
    | false =>
      simp only [act, Bool.false_eq_true, if_false, Function.update_apply]
      refine ⟨by simpa using htaken, ?_⟩
      split
      · next hσ => exact List.mem_append_left _ (hσ ▸ hfn)
      · exact hfn
  | stopGenerating =>
    simp at htaken
    cases σ with
    | stop => simpa [act, hsignalled] using ⟨htaken, hfn⟩
    | kill =>
      refine ⟨?_, hfn⟩
      cases hstopped : c.signalled .stop <;> simpa [act, hstopped] using htaken
  | kill =>
    simp at htaken
    cases σ with
    | kill => simpa [act, hsignalled] using ⟨htaken, hfn⟩
    | stop =>
      refine ⟨?_, hfn⟩
      cases hkilled : c.signalled .kill <;> simpa [act, hkilled] using htaken
  | runHooks τ =>
    simp at htaken
    simpa [act, Function.update_of_ne htaken.1] using ⟨htaken.2, hfn⟩

/-! ## The contract -/

/-- Every hook has run once if its signal was asked for, and not at all otherwise. -/
def HooksRun (c : Controller) : Prop :=
  ∀ σ fn, fn < c.registered σ → c.runs σ fn = if c.asked σ then 1 else 0

theorem asked_iff (h : Placed c 0) (σ : Signal) :
    c.asked σ = true ↔ c.signalled σ = true := by
  cases σ with
  | stop => simpa using h.stop
  | kill => simpa using h.kill

/-- When all calls have completed, a hook that did not run is in its list. -/
theorem hooksRun_iff_not_lost (h : Placed c 0) : HooksRun c ↔ ¬ Lost c 0 := by
  have honce : ∀ σ fn, c.runs σ fn + (c.hooks σ).count fn = if fn < c.registered σ then 1 else 0 :=
    fun σ fn => h.once σ fn
  refine ⟨?_, fun hkept σ fn hfn => ?_⟩
  · rintro hrun ⟨σ, fn, hsignalled, _, hfn⟩
    have hcount : 0 < (c.hooks σ).count fn := List.count_pos_iff.mpr hfn
    have honce := honce σ fn
    have hregistered : fn < c.registered σ := by
      by_contra hnot
      rw [if_neg hnot] at honce
      omega
    have hran := hrun σ fn hregistered
    rw [if_pos hregistered] at honce
    rw [if_pos ((asked_iff h σ).mpr hsignalled)] at hran
    omega
  · have honce := honce σ fn
    rw [if_pos hfn] at honce
    cases hasked : c.asked σ with
    | true =>
      have hnone : (c.hooks σ).count fn = 0 := by
        refine List.count_eq_zero.mpr fun hlist => ?_
        exact hkept ⟨σ, fn, (asked_iff h σ).mp hasked, Multiset.notMem_zero _, hlist⟩
      rw [if_pos rfl]
      omega
    | false =>
      rw [if_neg Bool.false_ne_true]
      by_contra hran
      have hasked' := (asked_iff h σ).mpr (h.ran σ fn hran)
      rw [hasked] at hasked'
      cases hasked'

/-- A run in which all calls have completed has run its hooks as it should exactly when no
    call appended a hook to a list that had been taken. -/
theorem hooks_run_iff {ls : List (Turn Call)} {w : Interleaving Controller Action}
    (hrun : controller.system.run ls = some w) (hidle : w.Idle) :
    HooksRun w.shared ↔ (controller.system.guarded (Program.Meets InTime)).run ls = some w := by
  have hplaced := placed_reachable (.of_run hrun)
  rw [Program.guarded_run_iff (fun _ => placed_reachable) (by simp [Lost, controller])
    (fun c m call _ => lost_start c m call) (fun _ _ _ _ => kept_act) (fun _ _ _ _ => lost_late)
    (fun _ _ _ _ => lost_act) hrun, hidle.pending]
  rw [hidle.pending] at hplaced
  exact hooksRun_iff_not_lost hplaced

/-- Hooks registered before and after a call of `kill`. -/
theorem hooks_run_around_kill :
    ∃ w, controller.system.run
        [.call .onStop, .act 0, .act 0, .call .kill, .act 1, .act 1, .act 1, .act 1, .act 1,
          .call .onKill, .act 2, .act 2, .act 2] = some w ∧
      w.Idle ∧ HooksRun w.shared := by
  refine System.exists_run (·.threads) [[], [], []] rfl fun w hrun hthreads => ?_
  have hidle : w.Idle := by simp [Interleaving.Idle, hthreads]
  exact ⟨hidle, (hooks_run_iff hrun hidle).mpr (System.guarded_of_run hrun rfl)⟩

/-- `on_stop` reads the flag, `stop_generating` sets it and takes the list, and then the
    hook is appended. -/
theorem stop_hook_lost :
    ∃ w, controller.system.run
        [.call .onStop, .act 0, .call .stopGenerating, .act 1, .act 1, .act 0] = some w ∧
      w.Idle ∧ w.shared.asked .stop = true ∧ w.shared.registered .stop = 1 ∧
      w.shared.runs .stop 0 = 0 ∧ ¬ HooksRun w.shared := by
  refine System.exists_run (fun w => (w.threads, w.shared.asked .stop, w.shared.registered .stop,
    w.shared.runs .stop 0)) ([[], []], true, 1, 0) rfl fun w _ hfacts => ?_
  simp only [Prod.mk.injEq] at hfacts
  obtain ⟨hthreads, hasked, hregistered, hruns⟩ := hfacts
  refine ⟨by simp [Interleaving.Idle, hthreads], hasked, hregistered, hruns, fun hall => ?_⟩
  have hran := hall .stop 0 (by omega)
  rw [hruns, if_pos hasked] at hran
  cases hran

end Controller

end DynamoCpp.Pipeline
