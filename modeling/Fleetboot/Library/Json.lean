import Fleetboot.Library.Text
import Mathlib.Algebra.Group.Nat.Defs
import Mathlib.Algebra.Group.Int.Defs

/-!
# JSON values as Python reads them

`json.loads` yields `None`, booleans, integers, floats, strings, lists and dictionaries. The
model keeps the distinction between integers and floats, since `isinstance` sees it, and
gives floats exactly: a binary64 value is an integer times a power of two, an infinity or
not a number.

`Exception` lists the exceptions that the modelled code raises.
-/

set_option autoImplicit false

namespace Python

/-- The exceptions the code raises, with the text that `str(err)` gives. -/
inductive Exception
  | valueError (message : String)
  | typeError (message : String)
  | attributeError (message : String)
  | overflowError (message : String)
  | osError (message : String)
  | assertionError (message : String)
  | integrityError (message : String)
  | recursionError (message : String)
  deriving DecidableEq

/-- `str(err)`. -/
def Exception.message : Exception → String
  | valueError message | typeError message | attributeError message
  | overflowError message | osError message | assertionError message
  | integrityError message | recursionError message => message

/-- A sequence of fallible steps succeeds when each step does. -/
theorem bind_eq_ok {ε α β : Type} {x : Except ε α} {f : α → Except ε β} {b : β} :
    (x >>= f) = .ok b ↔ ∃ a, x = .ok a ∧ f a = .ok b := by
  cases x with
  | error err => exact ⟨fun h => (by cases h), fun ⟨_, h, _⟩ => (by cases h)⟩
  | ok a => exact ⟨fun h => ⟨a, rfl, h⟩, fun ⟨_, h, hf⟩ => (by cases h; exact hf)⟩

theorem eq_ok_of_toOption {ε α : Type} {x : Except ε α} {a : α} (h : x.toOption = some a) :
    x = .ok a := by
  cases x with
  | error err => cases h
  | ok b => exact congrArg Except.ok (Option.some.inj h)

/-! ## Numbers -/

/-- A binary64 value. -/
inductive Float64
  | nan
  | inf (negative : Bool)
  | finite (mantissa exponent : Int)
  deriving DecidableEq

namespace Float64

/-- Round `m * 2 ^ e` to 53 bits, ties to even. -/
def roundMantissa (m : Nat) (e : Int) : Nat × Int :=
  let bits := Nat.log2 m + 1
  if bits ≤ 53 then (m, e)
  else
    let shift := bits - 53
    let q := m / 2 ^ shift
    let r := m % 2 ^ shift
    let half := 2 ^ (shift - 1)
    (if half < r || (r == half && q % 2 == 1) then q + 1 else q, e + shift)

/-- `x * n` for a float and a small positive integer. -/
def timesNat (x : Float64) (n : Nat) : Float64 :=
  match x with
  | nan => nan
  | inf negative => inf negative
  | finite m e =>
    let (q, e') := roundMantissa (m.natAbs * n) e
    if q ≠ 0 ∧ 1024 ≤ Nat.log2 q + e' then inf (decide (m < 0))
    else finite (if m < 0 then -q else q) e'

/-- `int(x)`: towards zero. -/
def toInt : Float64 → Except Exception Int
  | nan => .error (.valueError "cannot convert float NaN to integer")
  | inf _ => .error (.overflowError "cannot convert float infinity to integer")
  | finite m e => .ok (if 0 ≤ e then m * 2 ^ e.toNat else m.tdiv (2 ^ (-e).toNat))

/-- `x <= 0`. -/
def nonpos : Float64 → Bool
  | nan => false
  | inf negative => negative
  | finite m _ => decide (m ≤ 0)

/-- `bool(x)`. -/
def truthy : Float64 → Bool
  | finite m _ => decide (m ≠ 0)
  | _ => true

end Float64

/-- `sys.get_int_max_str_digits()`. -/
def maxStrDigits : Nat := 4300

/-- `str(n)` refuses integers of more than `maxStrDigits` digits. -/
@[irreducible] def strOfInt (n : Int) : Except Exception String :=
  if n.natAbs < 10 ^ maxStrDigits then .ok (toString n)
  else .error (.valueError ("Exceeds the limit (4300 digits) for integer string conversion; " ++
    "use sys.set_int_max_str_digits() to increase the limit"))

theorem strOfInt_of_lt {n : Int} (h : n.natAbs < 10 ^ maxStrDigits) :
    strOfInt n = .ok (toString n) := by
  unfold strOfInt
  rw [if_pos h]

theorem strOfInt_cases (n : Int) :
    strOfInt n = .ok (toString n) ∨ ∃ message, strOfInt n = .error (.valueError message) := by
  unfold strOfInt
  split
  · exact .inl rfl
  · exact .inr ⟨_, rfl⟩

/-- The digits of a numeral, in which single underscores may stand between digits. -/
def numeralDigits [Unicode] : List Char → Option (List Nat)
  | [] => none
  | [c] => (Unicode.decimal c).map fun d => [d]
  | c :: '_' :: rest => do
    let d ← Unicode.decimal c
    let ds ← numeralDigits rest
    return d :: ds
  | c :: rest => do
    let d ← Unicode.decimal c
    let ds ← numeralDigits rest
    return d :: ds

/-- `int(text)`. -/
def intOfText [Unicode] (text : String) : Except Exception Int :=
  let (negative, numeral) := match stripChars text.toList with
    | '-' :: rest => (true, rest)
    | '+' :: rest => (false, rest)
    | cs => (false, cs)
  match numeralDigits numeral with
  | none => .error (.valueError ("invalid literal for int() with base 10: " ++ repr text))
  | some digits =>
    if maxStrDigits < digits.length then
      .error (.valueError ("Exceeds the limit (4300 digits) for integer string conversion: " ++
        "value has " ++ toString digits.length ++
        " digits; use sys.set_int_max_str_digits() to increase the limit"))
    else
      let n : Nat := digits.foldl (fun n d => 10 * n + d) 0
      .ok (if negative then -(n : Int) else n)

/-! ## Values -/

inductive Json
  | null
  | bool (value : Bool)
  | int (value : Int)
  | float (value : Float64)
  | str (value : String)
  | arr (items : List Json)
  | obj (fields : List (String × Json))

namespace Json

/-- `d.get(key)` on the fields of an object. -/
def get? (fields : List (String × Json)) (key : String) : Option Json :=
  (fields.find? fun field => field.1 == key).map Prod.snd

theorem get?_cons (field : String × Json) (fields : List (String × Json)) (key : String) :
    get? (field :: fields) key = if field.1 = key then some field.2 else get? fields key := by
  unfold get?
  by_cases hkey : field.1 = key
  · rw [List.find?_cons_of_pos (by simpa using hkey), if_pos hkey, Option.map_some]
  · rw [List.find?_cons_of_neg (by simpa using hkey), if_neg hkey]

theorem get?_eq_none_iff {fields : List (String × Json)} {key : String} :
    get? fields key = none ↔ key ∉ fields.map Prod.fst := by
  unfold get?
  rw [Option.map_eq_none_iff, List.find?_eq_none]
  constructor
  · intro h hkey
    obtain ⟨field, hfield, rfl⟩ := List.mem_map.mp hkey
    exact h field hfield (by simp)
  · intro h field hfield hkey
    exact h (List.mem_map.mpr ⟨field, hfield, by simpa using hkey⟩)

/-- `d.get(key, default)`. -/
def getD (fields : List (String × Json)) (key : String) (default : Json) : Json :=
  (get? fields key).getD default

/-- `bool(value)`. -/
def truthy : Json → Bool
  | null => false
  | bool value => value
  | int value => decide (value ≠ 0)
  | float value => value.truthy
  | str value => value != ""
  | arr items => !items.isEmpty
  | obj fields => !fields.isEmpty

/-- `type(value).__name__`. -/
def typeName : Json → String
  | null => "NoneType"
  | bool _ => "bool"
  | int _ => "int"
  | float _ => "float"
  | str _ => "str"
  | arr _ => "list"
  | obj _ => "dict"

/-- `int(value)`. -/
def toInt [Unicode] : Json → Except Exception Int
  | bool value => .ok (if value then 1 else 0)
  | int value => .ok value
  | float value => value.toInt
  | str value => intOfText value
  | value => .error (.typeError ("int() argument must be a string, a bytes-like object or a " ++
      "real number, not " ++ "'" ++ value.typeName ++ "'"))

mutual

/-- `repr(value)`, given the `repr` of a float. -/
def reprWith [Unicode] (reprFloat : Float64 → String) : Json → String
  | null => "None"
  | bool value => if value then "True" else "False"
  | int value => toString value
  | float value => reprFloat value
  | str value => repr value
  | arr items => "[" ++ ", ".intercalate (reprItems reprFloat items) ++ "]"
  | obj fields => "\x7b" ++ ", ".intercalate (reprFields reprFloat fields) ++ "\x7d"

def reprItems [Unicode] (reprFloat : Float64 → String) : List Json → List String
  | [] => []
  | item :: items => reprWith reprFloat item :: reprItems reprFloat items

def reprFields [Unicode] (reprFloat : Float64 → String) : List (String × Json) → List String
  | [] => []
  | (key, value) :: fields =>
    (repr key ++ ": " ++ reprWith reprFloat value) :: reprFields reprFloat fields

end

/-- A string, or `None`. -/
def ofOption : Option String → Json
  | none => null
  | some value => str value

end Json

end Python
