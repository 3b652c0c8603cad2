import Mathlib.Data.List.Basic
import Mathlib.Data.List.Nodup

/-! # Printed numbers

    A number is printed as its digits, the most significant first, each as a character of
    some alphabet.  Different digits have different characters, so different numbers have
    different texts, and a text can be read back.
-/

namespace Framework

variable {α : Type*} {b : Nat} {print : Char → α}

/-- Every character of a text is that of a digit. -/
theorem digit_of_mem_toDigits (hb : 1 < b) (n : Nat) :
    ∀ c ∈ Nat.toDigits b n, ∃ d < b, c = d.digitChar := by
  induction n using Nat.strongRecOn with
  | ind n ih =>
    intro c hc
    by_cases hn : n < b
    · rw [Nat.toDigits_of_lt_base hn, List.mem_singleton] at hc
      exact ⟨n, hn, hc⟩
    · rw [Nat.toDigits_of_base_le hb (Nat.le_of_not_lt hn), List.mem_append,
        List.mem_singleton] at hc
      rcases hc with hc | hc
      · exact ih (n / b) (Nat.div_lt_self (by omega) hb) c hc
      · exact ⟨n % b, Nat.mod_lt n (by omega), hc⟩

/-- A number with one digit has another text than one with more. -/
theorem toDigits_ne_of_lt (hb : 1 < b) {n m : Nat} (hn : n < b) (hm : b ≤ m) :
    (Nat.toDigits b n).map print ≠ (Nat.toDigits b m).map print := by
  intro heq
  have hlength := congrArg List.length heq
  rw [Nat.toDigits_of_lt_base hn, Nat.toDigits_of_base_le hb hm, List.length_map,
    List.length_map, List.length_append, List.length_singleton] at hlength
  simp at hlength

theorem toDigits_map_injective (hb : 1 < b)
    (hprint : ∀ d < b, ∀ e < b, print d.digitChar = print e.digitChar → d = e) (n : Nat) :
    ∀ m, (Nat.toDigits b n).map print = (Nat.toDigits b m).map print → n = m := by
  -- from the last digit to the first
  induction n using Nat.strongRecOn with
  | ind n ih =>
    intro m heq
    by_cases hn : n < b
    · by_cases hm : m < b
      · rw [Nat.toDigits_of_lt_base hn, Nat.toDigits_of_lt_base hm] at heq
        exact hprint n hn m hm (List.singleton_inj.mp heq)
      · exact absurd heq (toDigits_ne_of_lt hb hn (Nat.le_of_not_lt hm))
    · by_cases hm : m < b
      · exact absurd heq.symm (toDigits_ne_of_lt hb hm (Nat.le_of_not_lt hn))
      · rw [Nat.toDigits_of_base_le hb (Nat.le_of_not_lt hn),
          Nat.toDigits_of_base_le hb (Nat.le_of_not_lt hm), List.map_append, List.map_append] at heq
        obtain ⟨hinit, hlast⟩ := List.append_inj' heq rfl
        have hdiv : n / b = m / b := ih (n / b) (Nat.div_lt_self (by omega) hb) (m / b) hinit
        have hmod : n % b = m % b :=
          hprint _ (Nat.mod_lt n (by omega)) _ (Nat.mod_lt m (by omega))
            (List.singleton_inj.mp hlast)
        calc n = b * (n / b) + n % b := (Nat.div_add_mod n b).symm
          _ = b * (m / b) + m % b := by rw [hdiv, hmod]
          _ = m := Nat.div_add_mod m b

/-! ## Reading -/

/-- The number that a text says, if there is a character and all of them are digits. -/
def readDigits (b : Nat) (value : α → Option Nat) (text : List α) : Option Nat :=
  if text.isEmpty then none
  else text.foldlM (fun n c => (value c).map fun d => b * n + d) 0

theorem foldlM_toDigits {value : α → Option Nat} (hb : 1 < b)
    (hvalue : ∀ d < b, value (print d.digitChar) = some d) (n : Nat) :
    ((Nat.toDigits b n).map print).foldlM (fun n c => (value c).map fun d => b * n + d) 0 =
      some n := by
  induction n using Nat.strongRecOn with
  | ind n ih =>
    by_cases hn : n < b
    · rw [Nat.toDigits_of_lt_base hn]
      simp [hvalue n hn]
    · have hdiv := ih (n / b) (Nat.div_lt_self (by omega) hb)
      have hmod := hvalue (n % b) (Nat.mod_lt n (by omega))
      rw [Nat.toDigits_of_base_le hb (Nat.le_of_not_lt hn), List.map_append, List.foldlM_append,
        hdiv]
      simp [hmod, Nat.div_add_mod]

/-- What was printed is read back. -/
theorem readDigits_toDigits {value : α → Option Nat} (hb : 1 < b)
    (hvalue : ∀ d < b, value (print d.digitChar) = some d) (n : Nat) :
    readDigits b value ((Nat.toDigits b n).map print) = some n := by
  have hne : ((Nat.toDigits b n).map print).isEmpty = false := by
    simp [Nat.toDigits_ne_nil]
  rw [readDigits, hne]
  exact foldlM_toDigits hb hvalue n

end Framework
