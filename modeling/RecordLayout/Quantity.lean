import RecordLayout.Json.Spelling

/-!
# Quantities

A number that comes from outside may have been written as a flag.  A flag counts as one or zero
wherever the number is used, but it is still a flag where the number is shown.

## Main definitions

* `Quantity` is a number as it was written, and `Quantity.value` is what it counts as;
* `Quantity.constant` is the written constant, and `Quantity.text` shows it;
* `Quantity.shown` is the way a number is shown that was, or was not, written as a flag.

## Main results

* `value_shown`: a number is shown as itself, when only one or zero is said to be a flag.
-/

namespace RecordLayout

/-- A number as it was written. -/
inductive Quantity where
  | int (n : Int)
  | flag (b : Bool)
  deriving DecidableEq, Repr, Inhabited

namespace Quantity

/-- What a quantity counts as. -/
def value : Quantity → Int
  | .int n => n
  | .flag b => if b then 1 else 0

/-- Whether a quantity was written as a flag. -/
def isFlag : Quantity → Bool
  | .int _ => false
  | .flag _ => true

/-- The constant that was written. -/
def constant : Quantity → Json
  | .int n => .int n
  | .flag b => .bool b

/-- A quantity in a message. -/
def text (q : Quantity) : String := q.constant.quoted

/-- The number `n` as it is shown: as a truth value if it was written as a flag. -/
def shown (n : Int) (isFlag : Bool) : Quantity := if isFlag then .flag (n != 0) else .int n

@[simp] theorem value_int (n : Int) : (Quantity.int n).value = n := rfl

@[simp] theorem isFlag_int (n : Int) : (Quantity.int n).isFlag = false := rfl

@[simp] theorem number?_constant (q : Quantity) : q.constant.number? = some q.value := by
  cases q <;> rfl

@[simp] theorem shown_false (n : Int) : shown n false = .int n := rfl

theorem value_shown {n : Int} {isFlag : Bool} (h : isFlag = true → n = 0 ∨ n = 1) :
    (shown n isFlag).value = n := by
  cases isFlag with
  | false => rfl
  | true => rcases h rfl with rfl | rfl <;> rfl

@[simp] theorem shown_value_isFlag (q : Quantity) : shown q.value q.isFlag = q := by
  cases q with
  | int n => rfl
  | flag b => cases b <;> rfl

end Quantity

end RecordLayout
