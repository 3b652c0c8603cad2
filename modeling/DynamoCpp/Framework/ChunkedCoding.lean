import Mathlib.Data.List.Basic

/-! # Chunked coding

    A text is sent in chunks, each as a line with its size, the data, and the end of a line.
    A chunk of size zero ends the text.  The coding is over any alphabet, with any way to
    print sizes that can be read back and has no carriage return in it.

    The data may hold anything, also what looks like a chunk: the receiver counts, it does
    not search.
-/

namespace Framework.Chunked

variable {α : Type*} [DecidableEq α] (cr lf : α)

/-! ## Lines -/

/-- What stands before and after the first end of a line. -/
def cutLine : List α → Option (List α × List α)
  | [] => none
  | c :: s =>
    if c = cr ∧ s.head? = some lf then some ([], s.tail)
    else (cutLine s).map fun r => (c :: r.1, r.2)

theorem cutLine_append {line : List α} (h : cr ∉ line) (s : List α) :
    cutLine cr lf (line ++ cr :: lf :: s) = some (line, s) := by
  induction line with
  | nil => simp [cutLine]
  | cons c line ih =>
    have hc : c ≠ cr := fun heq => h (heq ▸ List.mem_cons_self)
    rw [List.cons_append, cutLine, if_neg fun hcr => hc hcr.1,
      ih fun hmem => h (List.mem_cons_of_mem _ hmem)]
    rfl

/-- What stands after the end of a line. -/
def afterLineEnd : List α → Option (List α)
  | c :: d :: s => if c = cr ∧ d = lf then some s else none
  | _ => none

/-! ## The receiver -/

section receiver

variable (size : List α → Option Nat)

/-- The chunks before the last one, and what follows the coding. -/
def decodeLoop : Nat → List α → Option (List (List α) × List α)
  | 0, _ => none
  | fuel + 1, s =>
    match cutLine cr lf s with
    | none => none
    | some (line, s) =>
      match size line with
      | none => none
      | some n =>
        -- the data is counted, whatever is in it
        if s.length < n then none
        else
          match afterLineEnd cr lf (s.drop n) with
          | none => none
          | some rest =>
            if n = 0 then some ([], rest)
            else (decodeLoop fuel rest).map fun r => (s.take n :: r.1, r.2)

/-- Every chunk has characters of its own, so that there are fewer chunks than characters. -/
def decode (s : List α) : Option (List (List α) × List α) :=
  decodeLoop cr lf size (s.length + 1) s

end receiver

/-! ## The sender -/

section sender

variable (print : Nat → List α)

def frame (data : List α) : List α := print data.length ++ cr :: lf :: (data ++ [cr, lf])

def encode (chunks : List (List α)) : List α :=
  chunks.flatMap (frame cr lf print) ++ frame cr lf print []

variable {cr lf print} {size : List α → Option Nat}

/-- The receiver takes one frame. -/
theorem decodeLoop_frame (hsize : ∀ n, size (print n) = some n) (hprint : ∀ n, cr ∉ print n)
    (fuel : Nat) (data s : List α) :
    decodeLoop cr lf size (fuel + 1) (frame cr lf print data ++ s) =
      if data = [] then some ([], s)
      else (decodeLoop cr lf size fuel s).map fun r => (data :: r.1, r.2) := by
  have hframe : frame cr lf print data ++ s =
      print data.length ++ cr :: lf :: (data ++ cr :: lf :: s) := by
    simp [frame]
  -- the size has no carriage return, so that the first one ends its line
  rw [hframe, decodeLoop, cutLine_append cr lf (hprint _)]
  dsimp only
  rw [hsize]
  dsimp only
  rw [if_neg (by simp), List.drop_left]
  simp [afterLineEnd]

theorem decodeLoop_encode (hsize : ∀ n, size (print n) = some n) (hprint : ∀ n, cr ∉ print n)
    (rest : List α) {chunks : List (List α)} : ∀ {fuel : Nat}, (∀ c ∈ chunks, c ≠ []) →
      chunks.length < fuel →
      decodeLoop cr lf size fuel (encode cr lf print chunks ++ rest) = some (chunks, rest) := by
  induction chunks with
  | nil =>
    intro fuel _ hfuel
    obtain ⟨fuel, rfl⟩ := Nat.exists_eq_succ_of_ne_zero (Nat.ne_of_gt hfuel)
    exact decodeLoop_frame hsize hprint fuel [] rest
  | cons c chunks ih =>
    intro fuel hne hfuel
    obtain ⟨fuel, rfl⟩ := Nat.exists_eq_succ_of_ne_zero (Nat.ne_zero_of_lt hfuel)
    obtain ⟨hc, hne⟩ := List.forall_mem_cons.mp hne
    have hencode : encode cr lf print (c :: chunks) ++ rest =
        frame cr lf print c ++ (encode cr lf print chunks ++ rest) := by
      simp [encode]
    rw [hencode, decodeLoop_frame hsize hprint, if_neg hc,
      ih hne (Nat.lt_of_succ_lt_succ hfuel)]
    rfl

omit [DecidableEq α] in
theorem length_le_encode (chunks : List (List α)) :
    chunks.length ≤ (encode cr lf print chunks).length := by
  have hframes : chunks.length ≤ (chunks.flatMap (frame cr lf print)).length := by
    induction chunks with
    | nil => exact Nat.zero_le _
    | cons c chunks ih =>
      rw [List.flatMap_cons, List.length_append, List.length_cons, frame, List.length_append,
        List.length_cons]
      omega
  rw [encode, List.length_append]
  exact Nat.le_trans hframes (Nat.le_add_right _ _)

/-- **The coding is exact.**  Chunks that are not empty are decoded as they were, and what
    follows them is left. -/
theorem decode_encode (hsize : ∀ n, size (print n) = some n) (hprint : ∀ n, cr ∉ print n)
    {chunks : List (List α)} (hne : ∀ c ∈ chunks, c ≠ []) (rest : List α) :
    decode cr lf size (encode cr lf print chunks ++ rest) = some (chunks, rest) := by
  refine decodeLoop_encode hsize hprint rest hne ?_
  have hle := @length_le_encode α cr lf print chunks
  rw [List.length_append]
  omega

end sender

end Framework.Chunked
