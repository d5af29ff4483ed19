import RecordLayout.Number.Binary64

/-!
# JSON values

The value type of documents and profiles.  Whole numbers and floating point numbers are different
kinds of value, and the fields of an object keep the order in which they were first written.

## Main definitions

* `Json` is the type of values;
* `Json.Fields.put` writes a field, `Json.Fields.get?` reads one;
* `Json.asInt?`, `Json.asText?` and the like view a value as one kind of thing;
* `Json.equals` is numeric equality extended to all values;
* `Json.isComposite` marks the values that cannot be part of a look-up key.

## Main results

* `Json.Fields.get?_put_self`, `Json.Fields.get?_put_of_ne`: a field reads back what was written
  last, and writing one field leaves the others alone;
* `Json.Fields.sizeOf_lt_of_get?`: the value of a field is smaller than the fields.
-/

namespace RecordLayout

/-- A JSON value. -/
inductive Json where
  | null
  | bool (b : Bool)
  | int (n : Int)
  | float (x : Binary64)
  | text (s : String)
  | array (items : List Json)
  | object (fields : List (String × Json))
  deriving Inhabited, Repr

namespace Json

/-- The fields of an object, in the order in which they were first written. -/
abbrev Fields := List (String × Json)

namespace Fields

/-- The value of a field. -/
def get? : Fields → String → Option Json
  | [], _ => none
  | (k, v) :: fields, key => if k = key then some v else get? fields key

/-- The fields after writing one: a field that is there keeps its place, a new one goes last. -/
def put : Fields → String → Json → Fields
  | [], key, value => [(key, value)]
  | (k, v) :: fields, key, value =>
    if k = key then (k, value) :: fields else (k, v) :: put fields key value

/-- The names of the fields. -/
def keys (fields : Fields) : List String := fields.map (·.1)

/-- The names of the fields that are not among the known ones, ascending. -/
def unknown (known : List String) (fields : Fields) : List String :=
  (fields.keys.filter fun k => !known.contains k).mergeSort fun a b => decide (a ≤ b)

/-- Whether a field is there. -/
def has (fields : Fields) (key : String) : Bool := (fields.get? key).isSome

@[simp] theorem get?_put_self (fields : Fields) (key : String) (value : Json) :
    (fields.put key value).get? key = some value := by
  induction fields with
  | nil => simp [put, get?]
  | cons f fields ih =>
    obtain ⟨k, v⟩ := f
    by_cases h : k = key
    · simp [put, get?, h]
    · simp [put, get?, h, ih]

theorem get?_put_of_ne (fields : Fields) {key other : String} (value : Json) (h : key ≠ other) :
    (fields.put key value).get? other = fields.get? other := by
  induction fields with
  | nil => simp [put, get?, h]
  | cons f fields ih =>
    obtain ⟨k, v⟩ := f
    by_cases hk : k = key
    · subst hk; simp [put, get?, h]
    · by_cases ho : k = other
      · subst ho; simp [put, get?, hk]
      · simp [put, get?, hk, ho, ih]

theorem mem_of_get? {fields : Fields} {key : String} {value : Json}
    (h : fields.get? key = some value) : (key, value) ∈ fields := by
  induction fields with
  | nil => simp [get?] at h
  | cons f fields ih =>
    obtain ⟨k, v⟩ := f
    by_cases hk : k = key
    · simp_all [get?]
    · simp only [get?, hk, if_false] at h
      exact List.mem_cons_of_mem _ (ih h)

/-- The value of a field is smaller than the fields, so a walk over a value ends. -/
theorem sizeOf_lt_of_get? {fields : Fields} {key : String} {value : Json}
    (h : fields.get? key = some value) : sizeOf value < sizeOf fields := by
  have h₁ := List.sizeOf_lt_of_mem (mem_of_get? h)
  have h₂ : sizeOf (key, value) = 1 + sizeOf key + sizeOf value := rfl
  omega

end Fields

/-- The whole number that a value is. -/
def asInt? : Json → Option Int
  | .int n => some n
  | _ => none

/-- The text that a value is. -/
def asText? : Json → Option String
  | .text s => some s
  | _ => none

/-- The truth value that a value is. -/
def asBool? : Json → Option Bool
  | .bool b => some b
  | _ => none

/-- The items of a value that is an array. -/
def asArray? : Json → Option (List Json)
  | .array items => some items
  | _ => none

/-- The fields of a value that is an object. -/
def asObject? : Json → Option Fields
  | .object fields => some fields
  | _ => none

/-- Arrays and objects are composite: a value that holds other values can change, so it serves
neither as a look-up key nor as a part of one. -/
def isComposite : Json → Bool
  | .array _ | .object _ => true
  | _ => false

/-- The number that a value stands for where numbers are compared: truth values count as 1 and 0,
and a floating point number counts as the integer it equals. -/
def number? : Json → Option Int
  | .bool b => some (if b then 1 else 0)
  | .int n => some n
  | .float x => x.toInt?
  | _ => none

/-- Equality of simple values as look-up keys: numbers of different kinds are equal when they stand
for the same number, and what stands for no whole number is compared within its kind. -/
def equals (v w : Json) : Bool :=
  match v.number?, w.number? with
  | some m, some n => m == n
  | none, none =>
    match v, w with
    | .null, .null => true
    | .text s, .text t => s == t
    | .float x, .float y => x.equals y
    | _, _ => false
  | _, _ => false

end Json

end RecordLayout
