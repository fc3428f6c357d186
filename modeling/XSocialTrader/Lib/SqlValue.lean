import Mathlib.Algebra.Ring.Int.Defs
import Mathlib.Data.List.Basic
import Mathlib.Data.List.DropRight

/-! Values of an SQL database as SQLite keeps them: storage classes, the affinity of a column,
which converts what is stored in it, and three-valued conditions over rows. -/
namespace Sql

/-- The conversions of floating-point values. `toText` writes one as a text, `ofText` reads a
decimal literal that has no other characters around it, and `toInt` is the integer of 64 bits
that a value is exactly. -/
class SqlFormat (F : Type*) where
  toText : F → String
  ofText : List Char → Option F
  toInt : F → Option ℤ

/-- What the database needs of the type of its floating-point values. -/
class SqlReal (F : Type*) extends SqlFormat F where
  ofInt : ℤ → F
  lt : F → F → Bool
  le : F → F → Bool

/-- A value of a column, by its storage class. -/
inductive Value (F : Type*) where
  | null
  | int (n : ℤ)
  | real (x : F)
  | text (s : String)
  | blob (bytes : List UInt8)
  deriving DecidableEq, Repr

/-- What a column makes of the values that are stored in it. -/
inductive Affinity where
  | text | integer | numeric | real | blob
  deriving DecidableEq, Repr

inductive Operator where
  | eq | gt | ge | le
  deriving DecidableEq, Repr

/-! ## Affinity -/

/-- SQLite integers have 64 bits. -/
def InRange (n : ℤ) : Prop := -2 ^ 63 ≤ n ∧ n < 2 ^ 63

instance (n : ℤ) : Decidable (InRange n) := inferInstanceAs (Decidable (_ ∧ _))

def isSpace (c : Char) : Bool := c == ' ' || (decide (9 ≤ c.toNat) && decide (c.toNat ≤ 13))

/-- A text without the spaces around it. -/
def trimmed (s : String) : List Char := (s.toList.dropWhile isSpace).rdropWhile isSpace

def digits (cs : List Char) : Option ℤ :=
  if cs ≠ [] ∧ cs.all Char.isDigit then some (Nat.ofDigitChars 10 cs 0) else none

/-- The integer that a text is a literal of, when it fits. -/
def intLiteral (s : String) : Option ℤ :=
  let literal := match trimmed s with
    | '-' :: cs => (digits cs).map fun n => -n
    | '+' :: cs => digits cs
    | cs => digits cs
  literal.filter fun n => decide (InRange n)

section Affinity

variable {F : Type*} [SqlReal F]

def realLiteral (s : String) : Option F := SqlFormat.ofText (trimmed s)

namespace Value

omit [SqlReal F] in
def isNull : Value F → Bool
  | .null => true
  | _ => false

omit [SqlReal F] in
def isInt : Value F → Bool
  | .int _ => true
  | _ => false

/-- The number that a text is a literal of; any other value as it is. -/
def toNumber : Value F → Value F
  | .text s =>
    match intLiteral s, (realLiteral s : Option F) with
    | some n, _ => .int n
    | none, some x => .real x
    | none, none => .text s
  | v => v

/-- An integer in place of a real that is one. -/
def narrowed : Value F → Value F
  | .real x => ((SqlFormat.toInt x).map int).getD (.real x)
  | v => v

def widened : Value F → Value F
  | .int n => .real (SqlReal.ofInt n)
  | v => v

def written : Value F → Value F
  | .int n => .text (toString n)
  | .real x => .text (SqlFormat.toText x)
  | v => v

/-- What is stored of a value in a column. -/
def storeAs (v : Value F) : Affinity → Value F
  | .text => v.written
  | .integer | .numeric => v.toNumber.narrowed
  | .real => v.toNumber.widened
  | .blob => v

/-- What a text turns into. -/
theorem toNumber_text (s : String) : (text s : Value F).toNumber =
    match intLiteral s, (realLiteral s : Option F) with
    | some n, _ => .int n
    | none, some x => .real x
    | none, none => .text s := rfl

theorem toNumber_cases (v : Value F) : v.toNumber = v ∨ (∃ n, v.toNumber = int n) ∨
    ∃ x, v.toNumber = real x := by
  cases v with
  | text s =>
    rw [toNumber_text]
    cases intLiteral s with
    | some n => exact Or.inr (Or.inl ⟨n, rfl⟩)
    | none =>
      cases (realLiteral s : Option F) with
      | some x => exact Or.inr (Or.inr ⟨x, rfl⟩)
      | none => exact Or.inl rfl
  | _ => exact Or.inl rfl

theorem narrowed_cases (v : Value F) : v.narrowed = v ∨ ∃ n, v.narrowed = int n := by
  cases v with
  | real x =>
    rw [narrowed]
    cases SqlFormat.toInt x with
    | none => exact Or.inl rfl
    | some n => exact Or.inr ⟨n, rfl⟩
  | _ => exact Or.inl rfl

theorem toNumber_toNumber (v : Value F) : v.toNumber.toNumber = v.toNumber := by
  rcases v.toNumber_cases with h | ⟨n, h⟩ | ⟨x, h⟩
  · rw [h, h]
  · rw [h]
    rfl
  · rw [h]
    rfl

theorem isNull_toNumber (v : Value F) : v.toNumber.isNull = v.isNull := by
  cases v with
  | text s =>
    rcases (text s : Value F).toNumber_cases with h | ⟨n, h⟩ | ⟨x, h⟩ <;> rw [h] <;> rfl
  | _ => rfl

theorem isNull_narrowed (v : Value F) : v.narrowed.isNull = v.isNull := by
  rcases v.narrowed_cases with h | ⟨n, h⟩
  · rw [h]
  · cases v <;> first | rfl | rw [h]; rfl

@[simp] theorem isNull_storeAs (v : Value F) (a : Affinity) :
    (v.storeAs a).isNull = v.isNull := by
  have hwidened (w : Value F) : w.widened.isNull = w.isNull := by cases w <;> rfl
  cases a with
  | text => cases v <;> rfl
  | integer => exact (isNull_narrowed _).trans (isNull_toNumber v)
  | numeric => exact (isNull_narrowed _).trans (isNull_toNumber v)
  | real => exact (hwidened _).trans (isNull_toNumber v)
  | blob => rfl

/-- What is stored is stored as it is. -/
theorem storeAs_storeAs (v : Value F) (a : Affinity) : (v.storeAs a).storeAs a = v.storeAs a := by
  have hnumber := v.toNumber_toNumber
  have hnarrowed (w : Value F) (hw : w.toNumber = w) :
      w.narrowed.toNumber.narrowed = w.narrowed := by
    rcases w.narrowed_cases with h | ⟨n, h⟩
    · rw [h, hw, h]
    · rw [h]
      rfl
  cases a with
  | text => cases v <;> rfl
  | integer => exact hnarrowed _ hnumber
  | numeric => exact hnarrowed _ hnumber
  | real =>
    show v.toNumber.widened.toNumber.widened = v.toNumber.widened
    generalize v.toNumber = w at hnumber
    cases w with
    | text s => exact congrArg widened hnumber
    | _ => rfl
  | blob => rfl

omit [SqlReal F] in
/-- The driver binds integers of 64 bits only. -/
def Bindable : Value F → Prop
  | .int n => InRange n
  | _ => True

omit [SqlReal F] in
instance : (v : Value F) → Decidable v.Bindable
  | .int n => inferInstanceAs (Decidable (InRange n))
  | .null | .real _ | .text _ | .blob _ => isTrue trivial

end Value

end Affinity

/-! ## Conditions -/

section Conditions

variable {F : Type*} [SqlReal F]

def Operator.onInts : Operator → ℤ → ℤ → Bool
  | .eq, m, n => m == n
  | .gt, m, n => decide (n < m)
  | .ge, m, n => decide (n ≤ m)
  | .le, m, n => decide (m ≤ n)

def Operator.onReals : Operator → F → F → Bool
  | .eq, x, y => SqlReal.le x y && SqlReal.le y x
  | .gt, x, y => SqlReal.lt y x
  | .ge, x, y => SqlReal.le y x
  | .le, x, y => SqlReal.le x y

def Operator.onTexts : Operator → String → String → Bool
  | .eq, s, t => s == t
  | .gt, s, t => decide (t < s)
  | .ge, s, t => decide (t ≤ s)
  | .le, s, t => decide (s ≤ t)

def Operator.onBlobs : Operator → List UInt8 → List UInt8 → Bool
  | .eq, s, t => s == t
  | .gt, s, t => decide (t < s)
  | .ge, s, t => decide (t ≤ s)
  | .le, s, t => decide (s ≤ t)

/-- NULL makes a comparison unknown; every text stands above every number, and every blob above
every text. -/
def Value.compare (op : Operator) : Value F → Value F → Option Bool
  | .null, _ => none
  | _, .null => none
  | .int m, .int n => some (op.onInts m n)
  | .int m, .real y => some (op.onReals (SqlReal.ofInt m) y)
  | .real x, .int n => some (op.onReals x (SqlReal.ofInt n))
  | .real x, .real y => some (op.onReals x y)
  | .text s, .text t => some (op.onTexts s t)
  | .blob b, .blob c => some (op.onBlobs b c)
  | .blob _, _ => some (op == .gt || op == .ge)
  | _, .blob _ => some (op == .le)
  | .text _, _ => some (op == .gt || op == .ge)
  | _, .text _ => some (op == .le)

/-- A row gives a value to each column; columns that it does not have are NULL. -/
abbrev Row (F : Type*) := String → Value F

/-- The conditions that CHECK constraints are written in. -/
inductive Cond (F : Type*) where
  | compare (op : Operator) (column : String) (literal : Value F)
  | isIn (column : String) (literals : List (Value F))
  | isNull (column : String)
  | isNotNull (column : String)
  | and (p q : Cond F)
  | or (p q : Cond F)

/-- Conjunction where `none` is the unknown truth value. -/
def andThen : Option Bool → Option Bool → Option Bool
  | some false, _ => some false
  | _, some false => some false
  | some true, some true => some true
  | _, _ => none

/-- Disjunction where `none` is the unknown truth value. -/
def orElse : Option Bool → Option Bool → Option Bool
  | some true, _ => some true
  | _, some true => some true
  | some false, some false => some false
  | _, _ => none

def Cond.eval (row : Row F) : Cond F → Option Bool
  | .compare op column literal => (row column).compare op literal
  | .isIn column literals =>
    literals.foldr (fun v known => orElse ((row column).compare .eq v) known) (some false)
  | .isNull column => some (row column).isNull
  | .isNotNull column => some !(row column).isNull
  | .and p q => andThen (p.eval row) (q.eval row)
  | .or p q => orElse (p.eval row) (q.eval row)

@[simp] theorem andThen_some (b c : Bool) : andThen (some b) (some c) = some (b && c) := by
  cases b <;> cases c <;> rfl

@[simp] theorem orElse_some (b c : Bool) : orElse (some b) (some c) = some (b || c) := by
  cases b <;> cases c <;> rfl

theorem compare_text_eq {v : Value F} {s : String} :
    v.compare .eq (.text s) = some true ↔ v = .text s := by
  cases v <;> simp [Value.compare, Operator.onTexts]

theorem Cond.eval_isIn_text {row : Row F} {name s : String} {values : List String}
    (h : row name = .text s) :
    (Cond.isIn name (values.map .text)).eval row = some (decide (s ∈ values)) := by
  show (values.map Value.text).foldr _ (some false) = _
  induction values with
  | nil => simp
  | cons v values ih =>
    rw [List.map_cons, List.foldr_cons, ih, h]
    simp [Value.compare, Operator.onTexts, Bool.beq_eq_decide_eq]

theorem compare_eq_comm (v w : Value F) : v.compare .eq w = w.compare .eq v := by
  cases v <;> cases w <;>
    simp [Value.compare, Operator.onInts, Operator.onReals, Operator.onTexts, Operator.onBlobs,
      Bool.and_comm, Bool.beq_comm] <;> decide

end Conditions

end Sql
