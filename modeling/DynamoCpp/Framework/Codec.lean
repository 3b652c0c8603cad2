import Mathlib.Data.List.Basic

/-! # Codecs over keyed fields

    A record is encoded field by field into a list of entries ordered by key, and decoded
    by looking its keys up again.  What a key is looked up to depends only on the last
    entry written under it, so a record is read back field by field.
-/

namespace Framework

/-! ## Fields -/

/-- Entries ordered by key. -/
abbrev Fields (K V : Type) : Type := List (K × V)

namespace Fields

variable {K V : Type} [DecidableEq K]

def find : Fields K V → K → Option V
  | [], _ => none
  | (k', v) :: m, k => if k = k' then some v else find m k

@[simp] theorem find_nil (k : K) : find ([] : Fields K V) k = none := rfl

theorem find_append (m m' : Fields K V) (k : K) :
    find (m ++ m') k = (find m k).or (find m' k) := by
  induction m with
  | nil => rfl
  | cons entry m ih =>
    rw [List.cons_append, find, find]
    split
    · rfl
    · exact ih

variable [LT K] [DecidableLT K]

/-- Inserts an entry or replaces the one under the key. -/
def set : Fields K V → K → V → Fields K V
  | [], k, v => [(k, v)]
  | (k', v') :: m, k, v =>
    if k = k' then (k, v) :: m
    else if k < k' then (k, v) :: (k', v') :: m
    else (k', v') :: set m k v

/-- The fields with these entries. -/
def ofList (entries : List (K × V)) : Fields K V :=
  entries.foldl (fun m entry => m.set entry.1 entry.2) []

@[simp] theorem find_set_self (m : Fields K V) (k : K) (v : V) :
    (m.set k v).find k = some v := by
  induction m with
  | nil => simp [set, find]
  | cons entry m ih =>
    unfold set
    split
    · simp [find]
    · next hne =>
      split
      · simp [find]
      · simp [find, hne, ih]

@[simp] theorem find_set_of_ne (m : Fields K V) {k k' : K} (v : V) (h : k' ≠ k) :
    (m.set k v).find k' = m.find k' := by
  induction m with
  | nil => simp [set, find, h]
  | cons entry m ih =>
    unfold set
    split
    · next heq =>
      -- the entry that is replaced is not the one that is looked up
      have hne : k' ≠ entry.1 := fun heq' => h (heq'.trans heq.symm)
      simp [find, h, hne]
    · split
      · simp [find, h]
      · simp [find, ih]

end Fields

/-! ## Restored values -/

variable {α β V E : Type}

@[simp] theorem ok_bind (a : α) (f : α → Except E β) : (Except.ok a >>= f) = f a := rfl

/-- What is decoded from an encoded value, as far as `keep` keeps the value. -/
def Restores (encode : α → V) (decode : V → Except E α) (keep : α → α) : Prop :=
  ∀ v, decode (encode v) = .ok (keep v)

theorem Restores.mapM {encode : α → V} {decode : V → Except E α} {keep : α → α}
    (h : Restores encode decode keep) (vs : List α) :
    (vs.map encode).mapM decode = .ok (vs.map keep) := by
  induction vs with
  | nil => rfl
  | cons v vs ih =>
    rw [List.map_cons, List.mapM_cons, h v, ih]
    rfl

end Framework
