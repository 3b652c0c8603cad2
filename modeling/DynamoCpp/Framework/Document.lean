import DynamoCpp.Framework.Codec

/-! # Documents and their texts

    A document is an object with named fields; a field is a scalar or an array of objects
    whose fields are scalars.  Strings are byte strings, but the text of a document is UTF-8:
    a text codec writes a document exactly if all its strings are, and reads back what it
    has written.  The last part builds such a codec from self-delimiting codes.
-/

namespace Framework

/-! ## UTF-8 -/

def IsUtf8 (s : List UInt8) : Prop := s.toByteArray.IsValidUTF8

instance (s : List UInt8) : Decidable (IsUtf8 s) :=
  inferInstanceAs (Decidable s.toByteArray.IsValidUTF8)

/-! ## Documents -/

inductive Scalar where
  | bool (b : Bool)
  | int (i : Int)
  | string (s : List UInt8)
  deriving DecidableEq

/-- An object whose fields are scalars. -/
abbrev Record (κ : Type) : Type := Fields κ Scalar

inductive FieldValue (κ : Type) where
  | scalar (v : Scalar)
  | array (items : List (Record κ))

abbrev Document (κ : Type) : Type := Fields κ (FieldValue κ)

def Scalar.strings : Scalar → List (List UInt8)
  | .string s => [s]
  | _ => []

def Record.strings {κ : Type} (r : Record κ) : List (List UInt8) := r.flatMap (·.2.strings)

def FieldValue.strings {κ : Type} : FieldValue κ → List (List UInt8)
  | .scalar v => v.strings
  | .array items => items.flatMap Record.strings

def Document.strings {κ : Type} (d : Document κ) : List (List UInt8) := d.flatMap (·.2.strings)

/-! ### Reading fields -/

section reading

variable {κ : Type} [DecidableEq κ]

def Scalar.toInt? : Scalar → Option Int
  | .int i => some i
  | _ => none

def Scalar.toString? : Scalar → Option (List UInt8)
  | .string s => some s
  | _ => none

def Scalar.toBool? : Scalar → Option Bool
  | .bool b => some b
  | _ => none

def FieldValue.toScalar? : FieldValue κ → Option Scalar
  | .scalar v => some v
  | .array _ => none

/-- The scalars of a document. -/
def Document.scalar? (d : Document κ) (k : κ) : Option Scalar :=
  (d.find k).bind FieldValue.toScalar?

/-- A field that must be there. -/
def Document.string? (d : Document κ) (k : κ) : Option (List UInt8) :=
  (d.scalar? k).bind Scalar.toString?

def Document.int? (d : Document κ) (k : κ) : Option Int := (d.scalar? k).bind Scalar.toInt?

/-- A field with a default; if it is there, it must have the right type. -/
def Document.intD (d : Document κ) (k : κ) (fallback : Int) : Option Int :=
  match d.find k with
  | none => some fallback
  | some field => field.toScalar?.bind Scalar.toInt?

def Document.boolD (d : Document κ) (k : κ) (fallback : Bool) : Option Bool :=
  match d.find k with
  | none => some fallback
  | some field => field.toScalar?.bind Scalar.toBool?

def Document.stringD (d : Document κ) (k : κ) (fallback : List UInt8) : Option (List UInt8) :=
  match d.find k with
  | none => some fallback
  | some field => field.toScalar?.bind Scalar.toString?

def Document.array? (d : Document κ) (k : κ) : Option (List (Record κ)) :=
  match d.find k with
  | some (.array items) => some items
  | _ => none

def Record.string? (r : Record κ) (k : κ) : Option (List UInt8) :=
  (r.find k).bind Scalar.toString?

def Record.intD (r : Record κ) (k : κ) (fallback : Int) : Option Int :=
  match r.find k with
  | none => some fallback
  | some v => v.toInt?

end reading

/-! ## Text codecs -/

/-- Writing and reading documents as texts. -/
structure TextCodec (κ : Type) where
  /-- Fails on a string that is not UTF-8. -/
  dump        : Document κ → Option (List UInt8)
  parse       : List UInt8 → Option (Document κ)
  dump_isSome : ∀ d, (dump d).isSome ↔ ∀ s ∈ d.strings, IsUtf8 s
  /-- What is written is read back. -/
  parse_dump  : ∀ {d text}, dump d = some text → parse text = some d

/-! ## Self-delimiting codes -/

/-- A code whose words can be read off the front of a string. -/
structure Code (α : Type) where
  put      : α → List UInt8
  take     : List UInt8 → Option (α × List UInt8)
  take_put : ∀ a rest, take (put a ++ rest) = some (a, rest)

namespace Code

variable {α β : Type}

def takeNat : List UInt8 → Option (Nat × List UInt8)
  | [] => none
  | b :: rest => if b = 0 then some (0, rest) else (takeNat rest).map fun r => (r.1 + 1, r.2)

/-- Numbers in unary. -/
def nat : Code Nat where
  put n := List.replicate n 1 ++ [0]
  take := takeNat
  take_put n rest := by
    induction n with
    | zero => rfl
    | succ n ih =>
      rw [List.replicate_succ, List.cons_append, List.cons_append, takeNat, if_neg (by decide), ih]
      rfl

/-- A code for `α` gives one for the values that embed into it. -/
def map (code : Code α) (into : β → α) (back : α → β) (h : ∀ b, back (into b) = b) : Code β where
  put b := code.put (into b)
  take s := (code.take s).map fun r => (back r.1, r.2)
  take_put b rest := by
    rw [code.take_put, Option.map_some, h]

def prod (code : Code α) (code' : Code β) : Code (α × β) where
  put p := code.put p.1 ++ code'.put p.2
  take s := (code.take s).bind fun r => (code'.take r.2).map fun r' => ((r.1, r'.1), r'.2)
  take_put p rest := by
    rw [List.append_assoc, code.take_put, Option.bind_some, code'.take_put]
    rfl

def sum (code : Code α) (code' : Code β) : Code (α ⊕ β) where
  put
    | .inl a => 0 :: code.put a
    | .inr b => 1 :: code'.put b
  take
    | [] => none
    | b :: s =>
      if b = 0 then (code.take s).map fun r => (.inl r.1, r.2)
      else (code'.take s).map fun r => (.inr r.1, r.2)
  take_put x rest := by
    cases x with
    | inl a => simp [code.take_put]
    | inr b => simp [code'.take_put]

def takeList (code : Code α) : Nat → List UInt8 → Option (List α × List UInt8)
  | 0, s => some ([], s)
  | n + 1, s => (code.take s).bind fun r => (takeList code n r.2).map fun r' => (r.1 :: r'.1, r'.2)

theorem takeList_put (code : Code α) : ∀ (as : List α) (rest : List UInt8),
    code.takeList as.length (as.flatMap code.put ++ rest) = some (as, rest)
  | [], _ => rfl
  | a :: as, rest => by
    rw [List.length_cons, takeList, List.flatMap_cons, List.append_assoc, code.take_put,
      Option.bind_some, takeList_put code as rest]
    rfl

/-- Lists, with their length first. -/
def list (code : Code α) : Code (List α) where
  put as := nat.put as.length ++ as.flatMap code.put
  take s := (nat.take s).bind fun r => code.takeList r.1 r.2
  take_put as rest := by
    rw [List.append_assoc, nat.take_put, Option.bind_some, takeList_put]

def byte : Code UInt8 where
  put b := [b]
  take
    | [] => none
    | b :: rest => some (b, rest)
  take_put _ _ := rfl

def bool : Code Bool := byte.map (fun b => if b then 1 else 0) (· == 1) (by decide)

def int : Code Int :=
  (nat.sum nat).map (fun i => if 0 ≤ i then .inl i.toNat else .inr (-i).toNat)
    (fun | .inl n => n | .inr n => -n) (by
      intro i
      by_cases h : 0 ≤ i
      · rw [if_pos h]
        exact Int.toNat_of_nonneg h
      · rw [if_neg h]
        show -((-i).toNat : Int) = i
        omega)

def scalar : Code Scalar :=
  (bool.sum (int.sum byte.list)).map
    (fun | .bool b => .inl b | .int i => .inr (.inl i) | .string s => .inr (.inr s))
    (fun | .inl b => .bool b | .inr (.inl i) => .int i | .inr (.inr s) => .string s)
    (fun v => by cases v <;> rfl)

def document {κ : Type} (name : Code κ) : Code (Document κ) :=
  (name.prod ((scalar.sum (name.prod scalar).list.list).map
    (fun | .scalar v => .inl v | .array items => .inr items)
    (fun | .inl v => .scalar v | .inr items => .array items)
    (fun f => by cases f <;> rfl))).list

/-- The text codec of a code for the names of fields.  Its texts are no JSON; it shows that
    there are codecs. -/
def textCodec {κ : Type} (name : Code κ) : TextCodec κ where
  dump d := if ∀ s ∈ d.strings, IsUtf8 s then some ((document name).put d) else none
  parse text := ((document name).take text).map (·.1)
  dump_isSome d := by
    split
    · next h => exact iff_of_true rfl h
    · next h => exact iff_of_false Bool.false_ne_true h
  parse_dump {d text} h := by
    split at h
    · have htake := (document name).take_put d []
      rw [List.append_nil, Option.some.inj h] at htake
      rw [htake]
      rfl
    · cases h

end Code

end Framework
