import Mathlib.Data.Rat.Defs
import Mathlib.Algebra.Order.Ring.Rat
import Mathlib.Data.Rat.Floor
import XSocialTrader.Core.Text
import XSocialTrader.Lib.FixedWidth
import XSocialTrader.Lib.Json

/-! Python values and built-in conversions as the repository uses them. Floats are a
type with the operations the code applies to them, so results that do not depend on
rounding hold for doubles and for exact rationals alike. -/
namespace XSocialTrader

/-- The exceptions that the modelled functions raise or let through. -/
inductive PyExc where
  | typeError
  | valueError
  | overflowError
  | unicodeDecodeError
  | unicodeEncodeError
  | jsonDecodeError
  | keyError
  | attributeError
  | recursionError
  | validationError
  | validationContextError
  | integrityError (constraint : String)
  | operationalError
  | brokerError
  | redisError
  | openAiCompatibleError (message : String)
  | twitterApiIoError (message : String)
  | connectionError
  deriving DecidableEq, Repr

/-- The `float` operations of the modelled code. `fits n` is false where `float(n)` raises
`OverflowError`, `parse s` is `none` where `float(s)` raises `ValueError`, `fixed2` is
`f"\x7bx:.2f\x7d"` and `repr` is `str(x)`. The comparisons are the IEEE ones, so none of them
need hold of an unordered value. -/
class PyFloat (F : Type) where
  ofInt : ℤ → F
  fits : ℤ → Bool
  add : F → F → F
  sub : F → F → F
  mul : F → F → F
  div : F → F → F
  lt : F → F → Bool
  le : F → F → Bool
  eq : F → F → Bool
  eqInt : F → ℤ → Bool
  parse : String → Option F
  fixed2 : F → String
  repr : F → String

/-- A value that equals another one is not a NaN, so it equals itself. -/
class LawfulPyFloat (F : Type) [PyFloat F] : Prop where
  eq_self_of_eq : ∀ x y : F, PyFloat.eq x y = true → PyFloat.eq y y = true

/-- `float(n)` for an `int`. -/
def floatOfInt {F : Type} [PyFloat F] (n : ℤ) : Except PyExc F :=
  if PyFloat.fits F n then .ok (PyFloat.ofInt n) else .error .overflowError

/-- Digits with single underscores between them, as Python number literals allow. -/
def decimalDigits (cs : List Char) : Option ℕ :=
  let groups := cs.splitOn '_'
  if groups.all fun g => !g.isEmpty && g.all Char.isDigit then
    some (groups.flatten.foldl (fun n c => 10 * n + (c.toNat - 48)) 0)
  else none

/-- Digits with an optional fraction, as an exact rational. -/
def decimalMantissa (cs : List Char) : Option ℚ :=
  match cs.splitOn '.' with
  | [whole] => (decimalDigits whole).map fun n => (n : ℚ)
  | [[], frac] => (decimalDigits frac).map fun n => (n : ℚ) / 10 ^ (frac.filter Char.isDigit).length
  | [whole, []] => (decimalDigits whole).map fun n => (n : ℚ)
  | [whole, frac] => (decimalDigits whole).bind fun n => (decimalDigits frac).map fun m =>
      (n : ℚ) + (m : ℚ) / 10 ^ (frac.filter Char.isDigit).length
  | _ => none

/-- The power of ten that an exponent stands for. -/
def decimalScale (cs : List Char) : Option ℚ :=
  match cs with
  | '-' :: cs => (decimalDigits cs).map fun n => 1 / 10 ^ n
  | '+' :: cs => (decimalDigits cs).map fun n => 10 ^ n
  | cs => (decimalDigits cs).map fun n => 10 ^ n

/-- A mantissa with an optional exponent. -/
def unsignedDecimal (cs : List Char) : Option ℚ :=
  match (cs.map Char.toLower).splitOn 'e' with
  | [mantissa] => decimalMantissa mantissa
  | [mantissa, exponent] =>
    (decimalMantissa mantissa).bind fun m => (decimalScale exponent).map fun x => m * x
  | _ => none

def signedDecimal (cs : List Char) : Option ℚ :=
  match cs with
  | '-' :: cs => (unsignedDecimal cs).map fun q => -q
  | '+' :: cs => unsignedDecimal cs
  | cs => unsignedDecimal cs

/-- `float(s)` on finite decimals in ASCII digits, read exactly. -/
def rationalOfString (s : String) : Option ℚ := signedDecimal (stripChars s.toList)

/-- `n` units of `10 ^ (-k)` in decimal notation. -/
def decimalText (negative : Bool) (k n : ℕ) : String :=
  (if negative then "-" else "") ++ toString (n / 10 ^ k) ++ "." ++
    String.ofList (FixedWidth.digits k (n % 10 ^ k))

/-- The nearest integer, ties to the even one. -/
def roundHalfEven (q : ℚ) : ℤ :=
  let n := q.floor
  let d := q - n
  if d < 1 / 2 then n else if 1 / 2 < d then n + 1 else if n % 2 = 0 then n else n + 1

/-- The shortest decimal with a fraction of at most 17 digits. -/
def rationalRepr (q : ℚ) : String :=
  let k := ((List.range 17).map (· + 1)).find? fun k => (q * 10 ^ k).den == 1
  decimalText (q < 0) (k.getD 17) (|q| * 10 ^ k.getD 17).floor.natAbs

/-- Exact rational arithmetic: every integer is representable and nothing is rounded. -/
instance : PyFloat ℚ where
  ofInt n := (n : ℚ)
  fits _ := true
  add x y := x + y
  sub x y := x - y
  mul x y := x * y
  div x y := x / y
  lt x y := decide (x < y)
  le x y := decide (x ≤ y)
  eq x y := decide (x = y)
  eqInt x n := decide (x = (n : ℚ))
  parse := rationalOfString
  fixed2 x := decimalText (x < 0) 2 (roundHalfEven (|x| * 100)).natAbs
  repr := rationalRepr

instance : LawfulPyFloat ℚ := ⟨fun _ y _ => decide_eq_true (rfl : y = y)⟩

section Exact

@[simp] theorem floatOfInt_rat (n : ℤ) : (floatOfInt n : Except PyExc ℚ) = .ok (n : ℚ) := rfl

@[simp] theorem ofInt_rat (n : ℤ) : (PyFloat.ofInt n : ℚ) = (n : ℚ) := rfl

@[simp] theorem add_rat (x y : ℚ) : PyFloat.add x y = x + y := rfl

@[simp] theorem sub_rat (x y : ℚ) : PyFloat.sub x y = x - y := rfl

@[simp] theorem mul_rat (x y : ℚ) : PyFloat.mul x y = x * y := rfl

@[simp] theorem div_rat (x y : ℚ) : PyFloat.div x y = x / y := rfl

@[simp] theorem lt_rat (x y : ℚ) : PyFloat.lt x y = decide (x < y) := rfl

@[simp] theorem le_rat (x y : ℚ) : PyFloat.le x y = decide (x ≤ y) := rfl

end Exact

/-- `float(s)` of a text that may hold lone surrogates. -/
def floatOfText {F : Type} [PyFloat F] (s : Json.Text) : Option F :=
  (Json.string? s).bind PyFloat.parse

/-- What `yaml.safe_load` and the JSON columns hold. An escape in a YAML scalar may name a lone
surrogate, so a text is a list of code points. A date keeps its `str()` text. -/
inductive PyValue (F : Type) where
  | none
  | bool (b : Bool)
  | int (n : ℤ)
  | float (x : F)
  | text (s : Json.Text)
  | date (text : String)
  | list (items : List (PyValue F))
  | dict (items : List (PyValue F × PyValue F))

namespace PyValue

/-- A `str` without lone surrogates. -/
def str {F : Type} (s : String) : PyValue F := .text (Json.text s)

variable {F : Type} [PyFloat F]

/-- `bool` is a subclass of `int`. -/
def boolInt (b : Bool) : ℤ := if b then 1 else 0

/-- `float(value)`. -/
def toFloat : PyValue F → Except PyExc F
  | .bool b => .ok (PyFloat.ofInt (boolInt b))
  | .int n => floatOfInt n
  | .float x => .ok x
  | .text s => match floatOfText s with
    | some x => .ok x
    | Option.none => .error .valueError
  | .none | .date _ | .list _ | .dict _ => .error .typeError

/-- `actual == value` for an `actual` that is a `str` or a `float`. -/
def eqScalar : PyValue F → PyValue F → Bool
  | .text s, .text t => s == t
  | .float x, .float y => PyFloat.eq x y
  | .float x, .int n => PyFloat.eqInt x n
  | .float x, .bool b => PyFloat.eqInt x (boolInt b)
  | _, _ => false

omit [PyFloat F] in
/-- Keys that `json.dumps` can write. -/
def isJsonKey : PyValue F → Bool
  | .none | .bool _ | .int _ | .float _ | .text _ => true
  | .date _ | .list _ | .dict _ => false

def isStrKey : PyValue F → Bool
  | .text _ => true
  | _ => false

def isNumberKey : PyValue F → Bool
  | .bool _ | .int _ | .float _ => true
  | _ => false

/-- `sorted` can compare the keys: at most one, or all text, or all numbers. -/
def keysSortable (keys : List (PyValue F)) : Bool :=
  decide (keys.length ≤ 1) || keys.all isStrKey || keys.all isNumberKey

mutual

/-- `json.dumps(value, sort_keys=True, default=str)` returns, long integers apart. -/
def dumpable : PyValue F → Bool
  | .list items => dumpableList items
  | .dict items => keysSortable (items.map Prod.fst) && dumpableItems items
  | _ => true

def dumpableList : List (PyValue F) → Bool
  | [] => true
  | v :: vs => dumpable v && dumpableList vs

def dumpableItems : List (PyValue F × PyValue F) → Bool
  | [] => true
  | (k, v) :: items => isJsonKey k && dumpable v && dumpableItems items

end

mutual

/-- The JSON column type can write the value, long integers apart: `json.dumps(value)` without
`default`. -/
def storable : PyValue F → Bool
  | .list items => storableList items
  | .dict items => storableItems items
  | .date _ => false
  | _ => true

def storableList : List (PyValue F) → Bool
  | [] => true
  | v :: vs => storable v && storableList vs

def storableItems : List (PyValue F × PyValue F) → Bool
  | [] => true
  | (k, v) :: items => isJsonKey k && storable v && storableItems items

end

/-- `str(n)` writes at most 4300 digits. -/
def intDigitsFit (n : ℤ) : Bool := decide ((Nat.toDigits 10 n.natAbs).length ≤ 4300)

mutual

/-- `json.dumps` can write every integer of the value. -/
def digitsFit : PyValue F → Bool
  | .int n => intDigitsFit n
  | .list items => digitsFitList items
  | .dict items => digitsFitItems items
  | _ => true

def digitsFitList : List (PyValue F) → Bool
  | [] => true
  | v :: vs => digitsFit v && digitsFitList vs

def digitsFitItems : List (PyValue F × PyValue F) → Bool
  | [] => true
  | (k, v) :: items => digitsFit k && digitsFit v && digitsFitItems items

end

omit [PyFloat F] in
@[simp] theorem isJsonKey_str (s : String) : (str s : PyValue F).isJsonKey = true := rfl

omit [PyFloat F] in
theorem storable_list (items : List (PyValue F)) :
    (PyValue.list items).storable = items.all storable := by
  rw [storable]
  induction items with
  | nil => rfl
  | cons v vs ih => rw [storableList, List.all_cons, ih]

omit [PyFloat F] in
theorem dumpable_list (items : List (PyValue F)) :
    (PyValue.list items).dumpable = items.all dumpable := by
  rw [dumpable]
  induction items with
  | nil => rfl
  | cons v vs ih => rw [dumpableList, List.all_cons, ih]

omit [PyFloat F] in
theorem digitsFit_list (items : List (PyValue F)) :
    (PyValue.list items).digitsFit = items.all digitsFit := by
  rw [digitsFit]
  induction items with
  | nil => rfl
  | cons v vs ih => rw [digitsFitList, List.all_cons, ih]

omit [PyFloat F] in
@[simp] theorem digitsFit_str (s : String) : (str s : PyValue F).digitsFit = true := rfl

omit [PyFloat F] in
@[simp] theorem dumpable_str (s : String) : (str s : PyValue F).dumpable = true := rfl

omit [PyFloat F] in
@[simp] theorem storable_str (s : String) : (str s : PyValue F).storable = true := rfl

end PyValue

/-- A `dict[str, Any]` literal. -/
def record {F : Type} (fields : List (String × PyValue F)) : PyValue F :=
  .dict (fields.map fun f => (.str f.1, f.2))

theorem PyValue.storable_record {F : Type} (fields : List (String × PyValue F)) :
    (record fields).storable = fields.all fun f => f.2.storable := by
  have hitems : ∀ fields : List (String × PyValue F),
      PyValue.storableItems (fields.map fun f => (PyValue.str f.1, f.2)) =
        fields.all fun f => f.2.storable := by
    intro fields
    induction fields with
    | nil => simp [PyValue.storableItems]
    | cons f fields ih => simp [PyValue.storableItems, ih]
  rw [record, PyValue.storable, hitems]

theorem PyValue.dumpable_record {F : Type} (fields : List (String × PyValue F)) :
    (record fields).dumpable = fields.all fun f => f.2.dumpable := by
  have hkeys : PyValue.keysSortable (fields.map fun f => (PyValue.str f.1 : PyValue F)) = true := by
    simp [PyValue.keysSortable, PyValue.isStrKey, PyValue.str]
  have hitems : ∀ fields : List (String × PyValue F),
      PyValue.dumpableItems (fields.map fun f => (PyValue.str f.1, f.2)) =
        fields.all fun f => f.2.dumpable := by
    intro fields
    induction fields with
    | nil => simp [PyValue.dumpableItems]
    | cons f fields ih => simp [PyValue.dumpableItems, ih]
  rw [record, PyValue.dumpable, List.map_map, hitems]
  exact (congrArg (· && _) hkeys).trans (Bool.true_and _)

theorem PyValue.digitsFit_record {F : Type} (fields : List (String × PyValue F)) :
    (record fields).digitsFit = fields.all fun f => f.2.digitsFit := by
  have hitems : PyValue.digitsFitItems (fields.map fun f => (PyValue.str f.1, f.2)) =
      fields.all fun f => f.2.digitsFit := by
    induction fields with
    | nil => simp [PyValue.digitsFitItems]
    | cons f fields ih => simp [PyValue.digitsFitItems, ih]
  rw [record, PyValue.digitsFit, hitems]

end XSocialTrader
