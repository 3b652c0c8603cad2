import DynamoCpp.Framework.Interleaving
import Mathlib.Data.List.Count
import Mathlib.Logic.Function.Basic
import Mathlib.Logic.Relation

/-! # Cancellation tokens

    `CancellationToken`, `CancellationRegistration` and the states they share.  A child
    token is cancelled by a callback that it has registered on its parent and that refers
    to it weakly; the registration is kept by the state of the child and keeps the state
    of the parent.

    The sections under the mutex of a state are steps of a transition system.  `cancel`
    takes the callbacks of a token; they run one at a time, and everything else may happen
    in between, by other threads or by the callbacks themselves.  A callback that throws
    ends the call.  A state is destroyed when its last reference is released; `reset`
    releases its reference while it holds the mutex of the state.
-/

namespace DynamoCpp.Runtime

open Framework

/-! ## The model -/

inductive Callback where
  /-- Cancels a child token, if its state still exists. -/
  | child (token : Nat)
  /-- The function of a registration. -/
  | user (registration : Nat)
  deriving DecidableEq

/-- What is left of a call of `cancel`, the calls on child tokens in front. -/
inductive Todo where
  | run (fn : Callback)
  /-- `child->cancel()`, up to the end of its locked section. -/
  | enter (token : Nat)
  /-- The call returns, and with it goes a reference to the state: that of the callback
      which made it, or of the handle on which it was made. -/
  | leave (token : Nat)
  deriving DecidableEq

/-- The states of all tokens and the registrations on them, both numbered in the order in
    which they are made. -/
structure Tokens where
  count         : Nat := 0
  cancelled     : Nat → Bool := fun _ => false
  callbacks     : Nat → List Callback := fun _ => []
  /-- The token on which the `parent_link` of a state is registered. -/
  parentLink    : Nat → Option Nat := fun _ => none
  /-- How many `CancellationToken`s refer to a state. -/
  handles       : Nat → Nat := fun _ => 0
  alive         : Nat → Bool := fun _ => false
  registrations : Nat := 0
  /-- The token of a registration, and whether the `CancellationRegistration` is armed. -/
  owner         : Nat → Nat := fun _ => 0
  armed         : Nat → Bool := fun _ => false
  /-- The calls of `cancel`. -/
  running       : List (List Todo) := []
  /-- A mutex was destroyed while it was held: undefined behaviour. -/
  broken        : Bool := false
  -- what has happened
  parent        : Nat → Option Nat := fun _ => none
  called        : Nat → Bool := fun _ => false
  runs          : Nat → Nat := fun _ => 0
  /-- Dropped before the token was cancelled. -/
  droppedEarly  : Nat → Bool := fun _ => false

namespace Tokens

/-- What the calls of `cancel` have yet to do. -/
def pending (w : Tokens) : Multiset Todo := (w.running.flatten : List Todo)

/-- `CancellationState::cancel`, up to the end of its locked section. -/
def cancelState (w : Tokens) (t : Nat) : Tokens :=
  if w.cancelled t then w
  else
    { w with
      cancelled := Function.update w.cancelled t true
      callbacks := Function.update w.callbacks t [] }

/-- The callbacks which it has taken. -/
def toRun (w : Tokens) (t : Nat) : List Todo :=
  if w.cancelled t then [] else (w.callbacks t).map .run

/-- Nothing refers to the state: no token, no registration, no child and no call. -/
def unreferenced (w : Tokens) (t : Nat) : Bool :=
  w.handles t = 0 &&
    (List.range w.registrations).all (fun r => !(w.armed r && w.owner r = t)) &&
    (List.range w.count).all (fun c => !(w.alive c && w.parentLink c = some t)) &&
    !w.running.flatten.contains (.leave t)

/-- The callback of a registration is taken off the list, unless `cancel` has taken it. -/
def unregister (w : Tokens) (t : Nat) (fn : Callback) : Tokens :=
  if w.cancelled t then w
  else { w with callbacks := Function.update w.callbacks t ((w.callbacks t).erase fn) }

/-- `CancellationRegistration::reset`. -/
def reset (w : Tokens) (t : Nat) (fn : Callback) : Tokens :=
  let w := w.unregister t fn
  -- `state_.reset()` under the mutex of that state
  { w with broken := w.unreferenced t }

/-- The state is destroyed, and with it its `parent_link`. -/
def destroy (w : Tokens) (t : Nat) : Tokens :=
  let w := { w with alive := Function.update w.alive t false }
  match w.parentLink t with
  | none => w
  | some p => w.reset p (.child t)

/-- A reference to the state has gone. -/
def release (w : Tokens) (t : Nat) : Tokens :=
  if w.unreferenced t then w.destroy t else w

def newToken (w : Tokens) : Tokens :=
  { w with
    count := w.count + 1
    alive := Function.update w.alive w.count true
    handles := Function.update w.handles w.count 1 }

def dropHandle (w : Tokens) (t : Nat) : Tokens :=
  release { w with handles := Function.update w.handles t (w.handles t - 1) } t

def childToken (w : Tokens) (t : Nat) : Tokens :=
  let c := w.count
  let w := { w.newToken with parent := Function.update w.parent c (some t) }
  -- on a cancelled token the callback fires inline and there is nothing to keep
  if w.cancelled t then w.cancelState c
  else
    { w with
      callbacks := Function.update w.callbacks t (w.callbacks t ++ [.child c])
      parentLink := Function.update w.parentLink c (some t) }

def registerCallback (w : Tokens) (t : Nat) : Tokens :=
  let r := w.registrations
  let w :=
    { w with
      registrations := r + 1
      owner := Function.update w.owner r t
      droppedEarly := Function.update w.droppedEarly r false }
  -- on a cancelled token the callback fires inline, and the registration is empty
  if w.cancelled t then
    { w with
      armed := Function.update w.armed r false
      runs := Function.update w.runs r 1 }
  else
    { w with
      callbacks := Function.update w.callbacks t (w.callbacks t ++ [.user r])
      armed := Function.update w.armed r true
      runs := Function.update w.runs r 0 }

def dropRegistration (w : Tokens) (r : Nat) : Tokens :=
  reset
    { w with
      armed := Function.update w.armed r false
      droppedEarly :=
        if w.cancelled (w.owner r) then w.droppedEarly
        else Function.update w.droppedEarly r true }
    (w.owner r) (.user r)

def cancel (w : Tokens) (t : Nat) : Tokens :=
  { cancelState { w with called := Function.update w.called t true } t with
    running := w.running ++ [w.toRun t ++ [.leave t]] }

/-- The next thing of a call happens. -/
def proceed (w : Tokens) (call : Nat) : Option Tokens :=
  match w.running[call]? with
  | some (.run (.user r) :: rest) =>
    some
      { w with
        runs := Function.update w.runs r (w.runs r + 1)
        running := w.running.set call rest }
  | some (.run (.child c) :: rest) =>
    -- `weak_child.lock()`
    let front := if w.alive c then [.enter c, .leave c] else []
    some { w with running := w.running.set call (front ++ rest) }
  | some (.enter c :: rest) =>
    some { w.cancelState c with running := w.running.set call (w.toRun c ++ rest) }
  | some (.leave c :: rest) => some (release { w with running := w.running.set call rest } c)
  | _ => none

/-- The next callback of a call throws: none of the others runs, the references go. -/
def throwCallback (w : Tokens) (call : Nat) : Option Tokens :=
  match w.running[call]? with
  | some (.run (.user r) :: rest) =>
    some
      { w with
        runs := Function.update w.runs r (w.runs r + 1)
        running := w.running.set call (rest.filter fun todo => todo matches .leave _) }
  | _ => none

end Tokens

inductive TokenStep where
  | newToken
  | copyHandle (t : Nat)
  | dropHandle (t : Nat)
  | childToken (t : Nat)
  | registerCallback (t : Nat)
  | dropRegistration (r : Nat)
  | cancel (t : Nat)
  | proceed (call : Nat)
  | throwCallback (call : Nat)

/-- The methods of a token are called through a handle. -/
def TokenStep.act (w : Tokens) : TokenStep → Option Tokens
  | .newToken => some w.newToken
  | .copyHandle t =>
    if w.handles t = 0 then none
    else some { w with handles := Function.update w.handles t (w.handles t + 1) }
  | .dropHandle t => if w.handles t = 0 then none else some (w.dropHandle t)
  | .childToken t => if w.handles t = 0 then none else some (w.childToken t)
  | .registerCallback t => if w.handles t = 0 then none else some (w.registerCallback t)
  | .dropRegistration r => if w.armed r then some (w.dropRegistration r) else none
  | .cancel t => if w.handles t = 0 then none else some (w.cancel t)
  | .proceed call => w.proceed call
  | .throwCallback call => w.throwCallback call

def cancellation : System Tokens TokenStep where
  init := {}
  exec := fun w l => if w.broken then none else l.act w

/-- No callback throws, and no `reset` releases the last reference to its state. -/
def Harmless (w : Tokens) (l : TokenStep) : Prop :=
  (l matches .throwCallback _) = false ∧ ∀ w' ∈ l.act w, w'.broken = false

instance (w : Tokens) (l : TokenStep) : Decidable (Harmless w l) :=
  inferInstanceAs (Decidable (_ ∧ ∀ w' ∈ l.act w, w'.broken = false))

namespace Tokens

variable {w w' : Tokens} {P : Tokens → Prop}

/-- What the next thing of a call can be. -/
theorem proceed_cases {call : Nat} (h : w.proceed call = some w')
    (user : ∀ r running, w.pending = .run (.user r) ::ₘ (running.flatten : List Todo) →
      P { w with runs := Function.update w.runs r (w.runs r + 1), running := running })
    (lock : ∀ c others running, w.pending = .run (.child c) ::ₘ others →
      ((running.flatten : List Todo) : Multiset Todo) =
        others + ((if w.alive c then [.enter c, .leave c] else [] : List Todo) : Multiset Todo) →
      P { w with running := running })
    (enter : ∀ c others running, w.pending = .enter c ::ₘ others →
      ((running.flatten : List Todo) : Multiset Todo) = others + (w.toRun c : Multiset Todo) →
      P { w.cancelState c with running := running })
    (leave : ∀ c running, w.pending = .leave c ::ₘ (running.flatten : List Todo) →
      P (release { w with running := running } c)) : P w' := by
  unfold proceed at h
  split at h
  · next r rest hcall =>
    obtain ⟨others, hpending, hset⟩ := exists_others hcall
    refine Option.some.inj h ▸ user r _ (hpending.trans ?_)
    rw [← List.nil_append rest, hset, Multiset.coe_nil, Multiset.add_zero]
  · next c rest hcall =>
    obtain ⟨others, hpending, hset⟩ := exists_others hcall
    exact Option.some.inj h ▸ lock c others _ hpending (hset _)
  · next c rest hcall =>
    obtain ⟨others, hpending, hset⟩ := exists_others hcall
    exact Option.some.inj h ▸ enter c others _ hpending (hset _)
  · next c rest hcall =>
    obtain ⟨others, hpending, hset⟩ := exists_others hcall
    refine Option.some.inj h ▸ leave c _ (hpending.trans ?_)
    rw [← List.nil_append rest, hset, Multiset.coe_nil, Multiset.add_zero]
  · cases h

/-- What a harmless step can do. -/
theorem step_cases {l : TokenStep} (hok : Harmless w l) (hexec : cancellation.exec w l = some w')
    (newToken : P w.newToken)
    (handles : ∀ hs : Nat → Nat, (∀ t, hs t ≠ 0 → w.handles t ≠ 0) → P { w with handles := hs })
    (dropHandle : ∀ t, w.handles t ≠ 0 → P (w.dropHandle t))
    (childToken : ∀ t, w.handles t ≠ 0 → P (w.childToken t))
    (registerCallback : ∀ t, w.handles t ≠ 0 → P (w.registerCallback t))
    (dropRegistration : ∀ r, w.armed r = true → P (w.dropRegistration r))
    (cancel : ∀ t, w.handles t ≠ 0 → P (w.cancel t))
    (proceed : ∀ call, w.proceed call = some w' → P w') : P w' := by
  have hact : l.act w = some w' := (Option.ite_none_left_eq_some.mp hexec).2
  cases l with
  | newToken => exact Option.some.inj hact ▸ newToken
  | copyHandle t =>
    obtain ⟨ht, rfl⟩ := not_blocked hact
    refine handles _ fun a ha => ?_
    rw [Function.update_apply] at ha
    split at ha
    · next hat => exact hat ▸ ht
    · exact ha
  | dropHandle t =>
    obtain ⟨ht, rfl⟩ := not_blocked hact
    exact dropHandle t ht
  | childToken t =>
    obtain ⟨ht, rfl⟩ := not_blocked hact
    exact childToken t ht
  | registerCallback t =>
    obtain ⟨ht, rfl⟩ := not_blocked hact
    exact registerCallback t ht
  | dropRegistration r =>
    obtain ⟨hr, rfl⟩ := enabled hact
    exact dropRegistration r hr
  | cancel t =>
    obtain ⟨ht, rfl⟩ := not_blocked hact
    exact cancel t ht
  | proceed call => exact proceed call hact
  | throwCallback call => cases hok.1

end Tokens

end DynamoCpp.Runtime
