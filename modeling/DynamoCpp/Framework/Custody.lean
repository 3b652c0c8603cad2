import Mathlib.Algebra.Order.Group.Multiset
import Mathlib.Data.Multiset.Range
import Mathlib.Tactic.Abel
import DynamoCpp.Framework.System

/-! # Custody of identified items

    A component holds items and hands them over.  `held s` is the multiset of
    the identities that the state `s` holds.  A step is a transfer if what it
    held and received is what it holds and handed out.  Transfers compose, run
    through loops and show in every component that the state is a part of.

    A system that numbers new items consecutively, and whose steps neither lose
    nor invent any, holds every number exactly once.
-/

namespace Framework

universe u v w

section transfer

variable {σ : Type u} {ι : Type v} {ok : σ → Prop} {held : σ → Multiset ι}

/-- From `s` to `s'` the items `into` come in and the items `out` go out. -/
structure Transfer (ok : σ → Prop) (held : σ → Multiset ι) (s : σ) (into out : Multiset ι)
    (s' : σ) : Prop where
  keeps   : ok s'
  balance : held s + into = held s' + out

namespace Transfer

variable {s s' s'' : σ} {a b c d x : Multiset ι}

theorem refl (h : ok s) : Transfer ok held s 0 0 s := ⟨h, rfl⟩

theorem trans (h₁ : Transfer ok held s a b s') (h₂ : Transfer ok held s' c d s'') :
    Transfer ok held s (a + c) (b + d) s'' where
  keeps := h₂.keeps
  balance := by
    calc held s + (a + c) = held s + a + c := (add_assoc _ _ _).symm
      _ = held s' + c + b := by rw [h₁.balance]; abel
      _ = held s'' + (b + d) := by rw [h₂.balance]; abel

/-- First nothing is handed over, then `a` and `b` are. -/
theorem after (h₁ : Transfer ok held s 0 0 s') (h₂ : Transfer ok held s' a b s'') :
    Transfer ok held s a b s'' := by
  have h := h₁.trans h₂
  rwa [zero_add, zero_add] at h

/-- First `a` and `b` are handed over, then nothing is. -/
theorem before (h₁ : Transfer ok held s a b s') (h₂ : Transfer ok held s' 0 0 s'') :
    Transfer ok held s a b s'' := by
  have h := h₁.trans h₂
  rwa [add_zero, add_zero] at h

/-- Of what went out, `x` comes back. -/
theorem returns (h₁ : Transfer ok held s a (x + b) s') (h₂ : Transfer ok held s' x 0 s'') :
    Transfer ok held s a b s'' where
  keeps := h₂.keeps
  balance := by
    have h := (h₁.trans h₂).balance
    refine add_right_cancel (b := x) ?_
    calc held s + a + x = held s + (a + x) := add_assoc _ _ _
      _ = held s'' + (x + b + 0) := h
      _ = held s'' + b + x := by abel

/-- Everything that went out comes back. -/
theorem returns_all (h₁ : Transfer ok held s a x s') (h₂ : Transfer ok held s' x 0 s'') :
    Transfer ok held s a 0 s'' := by
  rw [← add_zero x] at h₁
  exact h₁.returns h₂

/-- A loop in which every turn takes in `f x`. -/
theorem foldl {β : Type w} {f : β → Multiset ι} {step : σ → β → σ}
    (hstep : ∀ s y, ok s → Transfer ok held s (f y) 0 (step s y)) (l : List β) :
    ∀ s, ok s → Transfer ok held s (l.map f).sum 0 (l.foldl step s) := by
  induction l with
  | nil => exact fun s hs => refl hs
  | cons y l ih =>
    intro s hs
    have hfirst := hstep s y hs
    exact hfirst.trans (ih _ hfirst.keeps)

/-- A loop in which nothing is handed over. -/
theorem foldl_keeps {β : Type w} {step : σ → β → σ}
    (hstep : ∀ s y, ok s → Transfer ok held s 0 0 (step s y)) (l : List β) :
    ∀ s, ok s → Transfer ok held s 0 0 (l.foldl step s) := by
  induction l with
  | nil => exact fun s hs => refl hs
  | cons y l ih =>
    intro s hs
    have hfirst := hstep s y hs
    exact hfirst.trans (ih _ hfirst.keeps)

/-- A transfer of a part is one of the whole if the rest stays as it is. -/
theorem lift {τ : Type w} {ok' : τ → Prop} {held' : τ → Multiset ι} {t t' : τ} {rest : Multiset ι}
    (h : Transfer ok held s a b s') (hkeeps : ok' t') (ht : held' t = held s + rest)
    (ht' : held' t' = held s' + rest) : Transfer ok' held' t a b t' where
  keeps := hkeeps
  balance := by
    rw [ht, ht', add_right_comm, h.balance, add_right_comm]

end Transfer

end transfer

/-! ## Slots -/

section slots

variable {ι : Type v} {β : Type w} {f : β → Multiset ι} {l : List β} {i : Nat} {x y : β}

/-- Putting `x` in the place of `y`. -/
theorem sum_map_set (h : l[i]? = some y) :
    ((l.set i x).map f).sum + f y = (l.map f).sum + f x := by
  induction l generalizing i with
  | nil => simp at h
  | cons z l ih =>
    cases i with
    | zero =>
      obtain rfl : z = y := by simpa using h
      simp only [List.set_cons_zero, List.map_cons, List.sum_cons]
      abel
    | succ i =>
      have ih := ih (by simpa using h)
      simp only [List.set_cons_succ, List.map_cons, List.sum_cons, add_assoc, ih]

/-- Taking the slot of `y` away. -/
theorem sum_map_eraseIdx (h : l[i]? = some y) :
    ((l.eraseIdx i).map f).sum + f y = (l.map f).sum := by
  induction l generalizing i with
  | nil => simp at h
  | cons z l ih =>
    cases i with
    | zero =>
      obtain rfl : z = y := by simpa using h
      simp only [List.eraseIdx_cons_zero, List.map_cons, List.sum_cons]
      abel
    | succ i =>
      have ih := ih (by simpa using h)
      simp only [List.eraseIdx_cons_succ, List.map_cons, List.sum_cons, add_assoc, ih]

end slots

/-! ## Numbered items -/

section numbered

variable {σ : Type u} {Label : Type v}

/-- The numbers below `n`, each once. -/
theorem count_range (n i : Nat) : (Multiset.range n).count i = if i < n then 1 else 0 := by
  split
  · next h => exact Multiset.count_eq_one_of_mem (Multiset.nodup_range n) (Multiset.mem_range.mpr h)
  · next h => exact Multiset.count_eq_zero_of_notMem fun hmem => h (Multiset.mem_range.mp hmem)

/-- A step keeps what is held, or adds the next number. -/
def Numbers (held : σ → Multiset Nat) (n : σ → Nat) (s s' : σ) : Prop :=
  (n s' = n s ∧ held s' = held s) ∨ (n s' = n s + 1 ∧ held s' = n s ::ₘ held s)

/-- If every step numbers its items, every number given is held exactly once. -/
theorem System.Reachable.held_eq_range {sys : System σ Label} {ok : σ → Prop}
    {held : σ → Multiset Nat} {n : σ → Nat} (hinit : ok sys.init) (hn : n sys.init = 0)
    (hheld : held sys.init = 0)
    (hstep : ∀ s l s', ok s → sys.exec s l = some s' → ok s' ∧ Numbers held n s s')
    {s : σ} (hs : sys.Reachable s) : ok s ∧ held s = Multiset.range (n s) := by
  induction hs with
  | init => exact ⟨hinit, by rw [hheld, hn]; rfl⟩
  | step l _ hexec ih =>
    obtain ⟨hok, ⟨hsame, hkeep⟩ | ⟨hnext, hadd⟩⟩ := hstep _ l _ ih.1 hexec
    · exact ⟨hok, by rw [hkeep, ih.2, hsame]⟩
    · exact ⟨hok, by rw [hadd, ih.2, hnext, Multiset.range_succ]⟩

end numbered

end Framework
