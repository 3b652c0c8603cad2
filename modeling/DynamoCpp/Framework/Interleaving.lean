import DynamoCpp.Framework.System
import Mathlib.Data.Multiset.AddSub

/-! # Interleaved calls

    Concurrent calls on a shared state.  A call is a stack of atomic actions: the next one
    happens, changes the shared state and is replaced by the actions that follow from it.
    Which call moves next is open.

    * The **system** of a program, in which calls begin and act in any order.
    * Its **pending** actions as a multiset: what an invariant has to know about the
      calls, and the invariant rule over it.
    * **Guards** on single actions.
-/

namespace Framework

universe u v w

/-- Calls on a shared state. -/
structure Program (Shared : Type u) (Call : Type v) (Action : Type w) where
  init  : Shared
  /-- A call begins. -/
  start : Shared → Call → Shared × List Action
  /-- An action happens and leaves the actions that come next in its call. -/
  act   : Shared → Action → Shared × List Action

/-- The shared state and what is left of the calls, in the order in which they began. -/
structure Interleaving (Shared : Type u) (Action : Type w) where
  shared  : Shared
  threads : List (List Action) := []

inductive Turn (Call : Type v) where
  | call (c : Call)
  | act (i : Nat)

variable {Shared : Type u} {Call : Type v} {Action : Type w}

namespace Interleaving

/-- The next action of a call. -/
def next (w : Interleaving Shared Action) (i : Nat) : Option Action :=
  w.threads[i]?.bind List.head?

/-- The actions that have yet to happen. -/
def pending (w : Interleaving Shared Action) : Multiset Action :=
  (w.threads.flatten : List Action)

/-- All calls have completed. -/
def Idle (w : Interleaving Shared Action) : Prop := ∀ thread ∈ w.threads, thread = []

theorem Idle.pending {w : Interleaving Shared Action} (h : w.Idle) : w.pending = 0 := by
  have hnone : w.threads.flatten = [] := List.flatten_eq_nil_iff.mpr h
  rw [Interleaving.pending, hnone]
  rfl

end Interleaving

/-- The next action of a call and all others, which stay when it is replaced. -/
theorem exists_others {threads : List (List Action)} {i : Nat} {a : Action} {rest : List Action}
    (h : threads[i]? = some (a :: rest)) :
    ∃ others : Multiset Action, (threads.flatten : Multiset Action) = a ::ₘ others ∧
      ∀ front : List Action,
        ((threads.set i (front ++ rest)).flatten : Multiset Action) = others + front := by
  obtain ⟨hlt, hthread⟩ := List.getElem?_eq_some_iff.mp h
  -- the calls before and after this one keep their actions
  have hsplit : threads.flatten =
      (threads.take i).flatten ++ (a :: rest ++ (threads.drop (i + 1)).flatten) := by
    rw [← List.flatten_cons, ← List.flatten_append, ← hthread, List.getElem_cons_drop,
      List.take_append_drop]
  refine ⟨((threads.take i).flatten ++ (rest ++ (threads.drop (i + 1)).flatten) : List Action),
    ?_, fun front => ?_⟩
  · rw [hsplit]
    exact Multiset.coe_eq_coe.mpr List.perm_middle
  · rw [List.set_eq_take_append_cons_drop, if_pos hlt, List.flatten_append, List.flatten_cons]
    simp only [← Multiset.coe_add]
    rw [Multiset.add_assoc (front : Multiset Action), Multiset.add_comm (front : Multiset Action),
      ← Multiset.add_assoc]

namespace Program

variable (p : Program Shared Call Action)

def exec (w : Interleaving Shared Action) : Turn Call → Option (Interleaving Shared Action)
  | .call c =>
    some
      { shared := (p.start w.shared c).1
        threads := w.threads ++ [(p.start w.shared c).2] }
  | .act i =>
    match w.threads[i]? with
    | some (a :: rest) =>
      some
        { shared := (p.act w.shared a).1
          threads := w.threads.set i ((p.act w.shared a).2 ++ rest) }
    | _ => none

def system : System (Interleaving Shared Action) (Turn Call) where
  init := { shared := p.init }
  exec := p.exec

variable {p}

/-! ## Pending actions -/

/-- An action that happens meets `ok`. -/
def Meets (ok : Shared → Multiset Action → Action → Prop) (w : Interleaving Shared Action) :
    Turn Call → Prop
  | .call _ => True
  | .act i => ∀ a ∈ w.next i, ok w.shared w.pending a

/-- A turn is a call that begins or an action that was pending. -/
theorem exec_cases {Post : Shared → Multiset Action → Prop} {w w' : Interleaving Shared Action}
    {l : Turn Call} (h : p.system.exec w l = some w')
    (hcall : ∀ c, (∀ ok, Meets ok w l) →
      Post (p.start w.shared c).1 (w.pending + (p.start w.shared c).2))
    (hact : ∀ a others, w.pending = a ::ₘ others →
      (∀ ok, Meets ok w l ↔ ok w.shared (a ::ₘ others) a) →
        Post (p.act w.shared a).1 (others + (p.act w.shared a).2)) :
    Post w'.shared w'.pending := by
  cases l with
  | call c =>
    have hpending : w'.pending = w.pending + (p.start w.shared c).2 := by
      cases h
      simp only [Interleaving.pending, List.flatten_append, List.flatten_singleton,
        Multiset.coe_add]
    rw [hpending]
    cases h
    exact hcall c fun _ => trivial
  | act i =>
    simp only [system, exec] at h
    split at h
    · next a rest hi =>
      cases h
      obtain ⟨others, hpending, hset⟩ := exists_others hi
      have hnext : w.next i = some a := by
        rw [Interleaving.next, hi]
        rfl
      have hpost := hact a others hpending fun ok => by
        rw [Meets, hnext, show a ::ₘ others = w.pending from hpending.symm]
        simp
      rwa [← hset] at hpost
    · cases h

/-- Invariants over the shared state and the pending actions. -/
theorem reachable_invariant {Inv : Shared → Multiset Action → Prop} (hinit : Inv p.init 0)
    (hcall : ∀ s m c, Inv s m → Inv (p.start s c).1 (m + (p.start s c).2))
    (hact : ∀ s a m, Inv s (a ::ₘ m) → Inv (p.act s a).1 (m + (p.act s a).2))
    {w : Interleaving Shared Action} (h : p.system.Reachable w) : Inv w.shared w.pending := by
  refine @System.Reachable.invariant _ _ p.system (fun w => Inv w.shared w.pending) hinit
    (fun w l w' hinv hexec => ?_) w h
  exact exec_cases hexec (fun c _ => hcall _ _ c hinv)
    fun a others hsplit _ => hact _ a others (hsplit ▸ hinv)

/-! ## Guards on actions -/

variable {ok : Shared → Multiset Action → Action → Prop} [∀ s m a, Decidable (ok s m a)]

instance (w : Interleaving Shared Action) (l : Turn Call) : Decidable (Meets ok w l) := by
  cases l with
  | call c => exact inferInstanceAs (Decidable True)
  | act i => exact inferInstanceAs (Decidable (∀ a ∈ w.next i, ok w.shared w.pending a))

/-- Invariants of the runs whose actions meet the guard. -/
theorem guarded_invariant {Inv : Shared → Multiset Action → Prop} (hinit : Inv p.init 0)
    (hcall : ∀ s m c, Inv s m → Inv (p.start s c).1 (m + (p.start s c).2))
    (hact : ∀ s a m, Inv s (a ::ₘ m) → ok s (a ::ₘ m) a → Inv (p.act s a).1 (m + (p.act s a).2))
    {w : Interleaving Shared Action} (h : (p.system.guarded (Meets ok)).Reachable w) :
    Inv w.shared w.pending := by
  refine @System.Reachable.guarded_invariant _ _ p.system (Meets ok) _
    (fun w => Inv w.shared w.pending) hinit (fun w l w' hinv hok hexec => ?_) w h
  exact exec_cases hexec (fun c _ => hcall _ _ c hinv)
    fun a others hsplit hmeets => hact _ a others (hsplit ▸ hinv) ((hmeets ok).mp hok)

/-- A run ends without a loss exactly when all its actions meet the guard, if breaking the
    guard causes a loss, which is permanent, and nothing else does. -/
theorem guarded_run_iff {Inv Lost : Shared → Multiset Action → Prop}
    (hinv : ∀ w, p.system.Reachable w → Inv w.shared w.pending) (hinit : ¬ Lost p.init 0)
    (hcall : ∀ s m c, Inv s m → (Lost (p.start s c).1 (m + (p.start s c).2) ↔ Lost s m))
    (hkeep : ∀ s a m, Inv s (a ::ₘ m) → ok s (a ::ₘ m) a → ¬ Lost s (a ::ₘ m) →
      ¬ Lost (p.act s a).1 (m + (p.act s a).2))
    (hlate : ∀ s a m, Inv s (a ::ₘ m) → ¬ ok s (a ::ₘ m) a →
      Lost (p.act s a).1 (m + (p.act s a).2))
    (hstay : ∀ s a m, Inv s (a ::ₘ m) → Lost s (a ::ₘ m) →
      Lost (p.act s a).1 (m + (p.act s a).2))
    {ls : List (Turn Call)} {w : Interleaving Shared Action} (hrun : p.system.run ls = some w) :
    (p.system.guarded (Meets ok)).run ls = some w ↔ ¬ Lost w.shared w.pending := by
  refine @System.guarded_run_iff _ _ p.system (Meets ok) _ (fun w => Lost w.shared w.pending)
    hinit (fun w l w' hw hok hkept hexec => ?_) (fun w l w' hw hok hexec => ?_)
    (fun w l w' hw hlost hexec => ?_) ls w hrun
  · exact @exec_cases _ _ _ p (fun s m => ¬ Lost s m) w w' l hexec
      (fun c _ => (hcall _ _ c (hinv w hw)).not.mpr hkept)
      fun a others hsplit hmeets =>
        hkeep _ a others (hsplit ▸ hinv w hw) ((hmeets ok).mp hok) (hsplit ▸ hkept)
  · exact exec_cases hexec (fun c hmeets => absurd (hmeets ok) hok)
      fun a others hsplit hmeets =>
        hlate _ a others (hsplit ▸ hinv w hw) ((hmeets ok).not.mp hok)
  · exact exec_cases hexec (fun c _ => (hcall _ _ c (hinv w hw)).mpr hlost)
      fun a others hsplit _ => hstay _ a others (hsplit ▸ hinv w hw) (hsplit ▸ hlost)

end Program

end Framework
