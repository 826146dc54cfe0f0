import MyGpt.Characters
/-!
# Json — JSON values as Python has them

What `json.loads` returns, the truth of a value, `dict.get`, and what `int` makes of one.
-/
namespace MyGpt

/-- A value of `json.loads`; a number with a point or an exponent is a float, and NaN and the infinities are floats without a
value.  The keys of an object are distinct. -/
inductive Json
  | null
  | bool (b : Bool)
  | int (n : Int)
  | float (value : Option Rat)
  | str (s : String)
  | arr (items : List Json)
  | obj (fields : List (String × Json))

namespace Json

/-- `bool(value)`. -/
def truthy : Json → Bool
  | null => false
  | bool b => b
  | int n => n ≠ 0
  | float value => value ≠ some 0
  | str s => s ≠ ""
  | arr items => !items.isEmpty
  | obj fields => !fields.isEmpty

def field (fields : List (String × Json)) (key : String) : Option Json := (fields.find? (fun kv => kv.1 == key)).map (·.2)

def isNull : Json → Bool
  | null => true
  | _ => false

/-- `dict.get(key)`: nothing for a missing key and for a null. -/
def get (fields : List (String × Json)) (key : String) : Option Json := (field fields key).filter (!·.isNull)

/-! ## numbers -/

/-- The digits of an `int` literal, with single underscores between them. -/
def digits (acc : Nat) : Chat.Text → Option Nat
  | [] => some acc
  | '_' :: c :: rest => (Chat.digitValue c).bind (fun d => digits (10 * acc + d) rest)
  | c :: rest => (Chat.digitValue c).bind (fun d => digits (10 * acc + d) rest)

/-- `sys.get_int_max_str_digits()`. -/
def maxStrDigits : Nat := 4300

def number : Chat.Text → Option Nat
  | [] => none
  | c :: rest =>
    if maxStrDigits < ((c :: rest).filter (· ≠ '_')).length then none
    else (Chat.digitValue c).bind (fun d => digits d rest)

/-- `int(s)` of a string. -/
def intOfStr (s : String) : Option Int :=
  match Chat.strip s.toList with
  | '-' :: rest => (number rest).map (fun n => -(n : Int))
  | '+' :: rest => (number rest).map (fun n => (n : Int))
  | text => (number text).map (fun n => (n : Int))

/-- `int(value)`; nothing when it raises. -/
def toInt : Json → Option Int
  | bool b => some (if b then 1 else 0)
  | int n => some n
  | float value => value.map (fun q => q.num.tdiv q.den)
  | str s => intOfStr s
  | _ => none

/-- `value == n`. -/
def eqInt (n : Int) : Json → Bool
  | bool b => (if b then 1 else 0) = n
  | int m => m = n
  | float value => value = some (n : Rat)
  | _ => false

/-- The value is the number `n`. -/
def isNumber (n : Int) : Json → Bool
  | int m => m = n
  | float value => value = some (n : Rat)
  | _ => false

theorem toInt_of_isNumber {n : Int} {value : Json} (h : value.isNumber n = true) : value.toInt = some n := by
  cases value with
  | int m => exact congrArg some (of_decide_eq_true h)
  | float q =>
    have hq : q = some (n : Rat) := of_decide_eq_true h
    rw [hq]
    show some ((n : Rat).num.tdiv (n : Rat).den) = some n
    rw [Rat.num_intCast, Rat.den_intCast]
    simp
  | _ => cases h

theorem eqInt_of_isNumber {n : Int} {value : Json} (h : value.isNumber n = true) : value.eqInt n = true := by
  cases value with
  | int m => exact h
  | float q => exact h
  | _ => cases h

example : toInt (.str " 1_0 ") = some 10 := by decide

end Json
end MyGpt
