import DynamoCpp.Basic
import DynamoCpp.Framework.Codec

/-! # JSON values and their conversions

    The part of `nlohmann::json` that the codecs of the wire types use: values, the members
    of an object and the conversions of scalars and vectors; and the helpers of
    `llm/protocols/json.h` for optional fields, for which absent and null are both
    "no value" and present fields must convert.
-/

open Framework

namespace DynamoCpp.Llm

/-! ## Values -/

/-- `nlohmann::json`.  The members of an object are ordered by key, which is a text. -/
inductive Json where
  | null
  | boolean (b : Bool)
  | unsigned (n : UInt64)
  | integer (n : Int64)
  | float (x : Float)
  | string (s : Bytes)
  | array (items : List Json)
  | object (members : List (String × Json))

abbrev Members : Type := Fields String Json

/-- The exceptions of the conversions. -/
inductive JsonError where
  /-- `nlohmann::json::type_error` with its id. -/
  | typeError (id : Nat) (what : Bytes)
  /-- `std::invalid_argument`; the value, if there is one, is dumped after the text. -/
  | invalidArgument (what : Bytes) (dumped : Option Json := none)

namespace Json

def typeName : Json → Bytes
  | .null => str "null"
  | .boolean _ => str "boolean"
  | .unsigned _ | .integer _ | .float _ => str "number"
  | .string _ => str "string"
  | .array _ => str "array"
  | .object _ => str "object"

def isNull : Json → Bool
  | .null => true
  | _ => false

def isString : Json → Bool
  | .string _ => true
  | _ => false

def isArray : Json → Bool
  | .array _ => true
  | _ => false

def isObject : Json → Bool
  | .object _ => true
  | _ => false

/-- A value that is not an object has no members. -/
def find (j : Json) (key : String) : Option Json :=
  match j with
  | .object members => Fields.find members key
  | _ => none

/-- The elements that a loop over the value visits. -/
def items : Json → List Json
  | .null => []
  | .array items => items
  | .object members => members.map Prod.snd
  | j => [j]

/-- The type error of a conversion. -/
def mustBe (type : Bytes) (j : Json) : JsonError :=
  .typeError 302 (str "type must be " ++ type ++ str ", but is " ++ j.typeName)

end Json

/-! ## Conversions -/

class ToJson (α : Type) where
  toJson : α → Json

export ToJson (toJson)

/-- `from_json` reads a value into an object.  The default is the default-constructed
    object. -/
class FromJson (α : Type) extends Inhabited α where
  fromJson : Json → α → Except JsonError α

export FromJson (fromJson)

section

variable {α : Type}

/-- `get<T>()` reads into a default-constructed object. -/
def Json.get [FromJson α] (j : Json) : Except JsonError α := fromJson j default

/-- `value(key, fallback)` -/
def Json.value [FromJson α] (j : Json) (key : String) (fallback : α) : Except JsonError α :=
  match j with
  | .object members =>
    match Fields.find members key with
    | some member => member.get
    | none => .ok fallback
  | _ => .error (.typeError 306 (str "cannot use value() with " ++ j.typeName))

/-- `nlohmann::json::object()` -/
def Members.empty : Members := []

/-- `nlohmann::json{{key, value}, ...}` -/
def Members.ofList (entries : List (String × Json)) : Members := Fields.ofList entries

/-- `j[key] = value` -/
def Members.set (j : Members) (key : String) (value : Json) : Members := Fields.set j key value

def Members.setOpt [ToJson α] (j : Members) (key : String) (v : Option α) : Members :=
  match v with
  | some v => j.set key (toJson v)
  | none => j

/-- `v.has_value() ? nlohmann::json(*v) : nlohmann::json(nullptr)` -/
def Json.nullable [ToJson α] : Option α → Json
  | some v => toJson v
  | none => .null

/-- The value of a member that is written unless it is null. -/
def Json.unlessNull (j : Json) : Option Json := if j.isNull then none else some j

/-- What a lookup has found, if it is not null. -/
def Json.readOpt [FromJson α] : Option Json → Except JsonError (Option α)
  | some member => if member.isNull then .ok none else member.get.map some
  | none => .ok none

def Json.readOr [FromJson α] (fallback : α) : Option Json → Except JsonError α
  | some member => if member.isNull then .ok fallback else member.get
  | none => .ok fallback

def getOpt [FromJson α] (j : Json) (key : String) : Except JsonError (Option α) :=
  Json.readOpt (j.find key)

def getOr [FromJson α] (j : Json) (key : String) (fallback : α) : Except JsonError α :=
  Json.readOr fallback (j.find key)

end

/-! ## Scalars and vectors -/

instance : ToJson Json where
  toJson j := j

instance : FromJson Json where
  -- a default-constructed value is null
  default := .null
  fromJson j _ := .ok j

instance : ToJson Bool where
  toJson b := .boolean b

instance : FromJson Bool where
  default := false
  fromJson j _ :=
    match j with
    | .boolean b => .ok b
    | _ => .error (j.mustBe (str "boolean"))

instance : ToJson Bytes where
  toJson s := .string s

instance : FromJson Bytes where
  default := []
  fromJson j _ :=
    match j with
    | .string s => .ok s
    | _ => .error (j.mustBe (str "string"))

/-- The conversion to an arithmetic type.  A boolean converts to the types that are not
    themselves the type of a JSON number. -/
def getNumber {α : Type} (ofUnsigned : UInt64 → α) (ofInteger : Int64 → α)
    (ofFloat : Float → α) (ofBoolean : Option (Bool → α)) (j : Json) : Except JsonError α :=
  match j, ofBoolean with
  -- numbers are converted as by a cast, without a check of the range
  | .unsigned n, _ => .ok (ofUnsigned n)
  | .integer n, _ => .ok (ofInteger n)
  | .float x, _ => .ok (ofFloat x)
  | .boolean b, some ofBoolean => .ok (ofBoolean b)
  | _, _ => .error (j.mustBe (str "number"))

instance : ToJson UInt32 where
  toJson n := .unsigned n.toUInt64

instance : FromJson UInt32 where
  default := 0
  fromJson j _ :=
    getNumber UInt64.toUInt32 (·.toUInt64.toUInt32) Float.toUInt32 (some Bool.toUInt32) j

instance : ToJson UInt64 where
  toJson n := .unsigned n

instance : FromJson UInt64 where
  default := 0
  fromJson j _ := getNumber id Int64.toUInt64 Float.toUInt64 none j

instance : ToJson Int32 where
  toJson n := .integer n.toInt64

instance : FromJson Int32 where
  default := 0
  fromJson j _ :=
    getNumber (·.toInt64.toInt32) Int64.toInt32 Float.toInt32
      (some fun b => if b then 1 else 0) j

instance : ToJson Int64 where
  toJson n := .integer n

instance : FromJson Int64 where
  default := 0
  fromJson j _ := getNumber UInt64.toInt64 id Float.toInt64 none j

instance : ToJson Float where
  toJson x := .float x

instance : FromJson Float where
  default := 0
  fromJson j _ := getNumber UInt64.toFloat Int64.toFloat id none j

/-- The type `float`, which JSON keeps as a `double`.  Nothing is known of its values but
    that they are converted back unchanged. -/
class SingleFloat (F : Type) extends Inhabited F where
  widen        : F → Float
  narrow       : Float → F
  ofUInt64     : UInt64 → F
  ofInt64      : Int64 → F
  ofBool       : Bool → F
  narrow_widen : ∀ x, narrow (widen x) = x

instance (priority := low) {F : Type} [SingleFloat F] : ToJson F where
  toJson x := .float (SingleFloat.widen x)

instance (priority := low) {F : Type} [SingleFloat F] : FromJson F where
  fromJson j _ :=
    getNumber SingleFloat.ofUInt64 SingleFloat.ofInt64 SingleFloat.narrow
      (some SingleFloat.ofBool) j

instance {α : Type} [ToJson α] : ToJson (List α) where
  toJson vs := .array (vs.map toJson)

instance {α : Type} [FromJson α] : FromJson (List α) where
  default := []
  fromJson j _ :=
    match j with
    | .array items => items.mapM Json.get
    | _ => .error (j.mustBe (str "array"))

/-! ## Reading back -/

/-- A value is read back as far as `keep` keeps it, and is not written as null. -/
class Restored (α : Type) [ToJson α] [FromJson α] (keep : outParam (α → α)) : Prop where
  get_toJson    : Restores toJson Json.get keep
  isNull_toJson : ∀ v : α, (toJson v).isNull = false

instance : Restored Bool id := ⟨fun _ => rfl, fun _ => rfl⟩

instance : Restored Bytes id := ⟨fun _ => rfl, fun _ => rfl⟩

instance : Restored UInt32 id where
  get_toJson := fun n => by
    show Except.ok n.toUInt64.toUInt32 = .ok n
    rw [UInt32.toUInt32_toUInt64]
  isNull_toJson := fun _ => rfl

instance : Restored UInt64 id := ⟨fun _ => rfl, fun _ => rfl⟩

instance : Restored Int32 id where
  get_toJson := fun n => by
    show Except.ok n.toInt64.toInt32 = .ok n
    rw [Int32.toInt32_toInt64]
  isNull_toJson := fun _ => rfl

instance : Restored Int64 id := ⟨fun _ => rfl, fun _ => rfl⟩

instance : Restored Float id := ⟨fun _ => rfl, fun _ => rfl⟩

instance (priority := low) {F : Type} [SingleFloat F] : Restored F id where
  get_toJson := fun x => by
    show Except.ok (SingleFloat.narrow (SingleFloat.widen x)) = .ok x
    rw [SingleFloat.narrow_widen]
  isNull_toJson := fun _ => rfl

section

variable {α : Type} [ToJson α]

@[simp] theorem Members.find_empty (key : String) : Fields.find Members.empty key = none := rfl

@[simp] theorem Members.find_ofList (entries : List (String × Json)) (key : String) :
    Fields.find (Members.ofList entries) key =
      Fields.find (entries.foldl (fun m entry => Fields.set m entry.1 entry.2) []) key := rfl

@[simp] theorem Members.find_set_self (m : Members) (key : String) (value : Json) :
    Fields.find (m.set key value) key = some value := Fields.find_set_self ..

@[simp] theorem Members.find_set_of_ne (m : Members) {key key' : String} (value : Json)
    (h : key' ≠ key) : Fields.find (m.set key value) key' = Fields.find m key' :=
  Fields.find_set_of_ne _ _ h

@[simp] theorem Members.find_setOpt_self (m : Members) (key : String) (v : Option α) :
    Fields.find (m.setOpt key v) key = (v.map toJson).or (Fields.find m key) := by
  cases v with
  | none => rfl
  | some v => exact find_set_self ..

@[simp] theorem Members.find_setOpt_of_ne (m : Members) {key key' : String} (v : Option α)
    (h : key' ≠ key) : Fields.find (m.setOpt key v) key' = Fields.find m key' := by
  cases v with
  | none => rfl
  | some v => exact find_set_of_ne _ _ h

variable [FromJson α] {keep : α → α} [Restored α keep]

instance : Restored (List α) (List.map keep) where
  get_toJson := Restored.get_toJson.mapM
  isNull_toJson := fun _ => rfl

@[simp] theorem Json.readOpt_map (v : Option α) :
    Json.readOpt (v.map toJson) = .ok (v.map keep) := by
  cases v with
  | none => rfl
  | some v =>
    show (if (toJson v).isNull then _ else (toJson v).get.map some) = _
    rw [Restored.isNull_toJson, Restored.get_toJson v]
    rfl

@[simp] theorem Json.readOpt_nullable (v : Option α) :
    Json.readOpt (some (Json.nullable v)) = .ok (v.map keep) := by
  cases v with
  | none => rfl
  | some v => exact readOpt_map (some v)

@[simp] theorem Json.readOr_some (v fallback : α) :
    Json.readOr fallback (some (toJson v)) = .ok (keep v) := by
  show (if (toJson v).isNull then _ else (toJson v).get) = _
  rw [Restored.isNull_toJson, Restored.get_toJson v]
  rfl

end

namespace Json

@[simp] theorem find_object (m : Members) (key : String) :
    (Json.object m).find key = Fields.find m key := rfl

@[simp] theorem getOpt_object {α : Type} [FromJson α] (m : Members) (key : String) :
    getOpt (α := α) (.object m) key = readOpt (Fields.find m key) := rfl

@[simp] theorem getOr_object {α : Type} [FromJson α] (m : Members) (key : String)
    (fallback : α) : getOr (.object m) key fallback = readOr fallback (Fields.find m key) := rfl

/-- A raw member is taken as it is; one that is absent is null. -/
@[simp] theorem value_object (m : Members) (key : String) :
    (Json.object m).value key Json.null = .ok ((Fields.find m key).getD .null) := by
  simp only [Json.value]
  cases Fields.find m key with
  | none => rfl
  | some member => rfl

@[simp] theorem isObject_object (m : Members) : (Json.object m).isObject = true := rfl

/-- A member that was written from a value is read as that value. -/
theorem value_of_find {α : Type} [ToJson α] [FromJson α] {keep : α → α} [Restored α keep]
    {m : Members} {key : String} {v : α} (h : Fields.find m key = some (toJson v))
    (fallback : α) : (Json.object m).value key fallback = .ok (keep v) := by
  simp only [value, h]
  exact Restored.get_toJson v

@[simp] theorem getD_unlessNull (j : Json) : (j.unlessNull.map toJson).getD .null = j := by
  cases j <;> rfl

end Json

end DynamoCpp.Llm
