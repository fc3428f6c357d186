import Mathlib.Algebra.Order.Field.Basic
import Mathlib.Data.Sign.Basic

/-! An ordered field with two infinities and NaN, under the IEEE rules for the operations and
the comparisons. Nothing is rounded and zero has no sign. -/

inductive Extended (K : Type*) where
  | fin (x : K)
  | posInf
  | negInf
  | nan
  deriving DecidableEq

namespace Extended

variable {K : Type*} [Field K] [LinearOrder K]

def sign : Extended K → SignType
  | .fin x => SignType.sign x
  | .posInf => 1
  | .negInf => -1
  | .nan => 0

/-- The infinity of a sign; without a sign there is none. -/
def signedInf : SignType → Extended K
  | .pos => .posInf
  | .neg => .negInf
  | .zero => .nan

def neg : Extended K → Extended K
  | .fin x => .fin (-x)
  | .posInf => .negInf
  | .negInf => .posInf
  | .nan => .nan

def add : Extended K → Extended K → Extended K
  | .fin x, .fin y => .fin (x + y)
  | .nan, _ | _, .nan | .posInf, .negInf | .negInf, .posInf => .nan
  | .posInf, _ | _, .posInf => .posInf
  | .negInf, _ | _, .negInf => .negInf

def sub (x y : Extended K) : Extended K := x.add y.neg

/-- Zero times an infinity is NaN. -/
def mul : Extended K → Extended K → Extended K
  | .fin x, .fin y => .fin (x * y)
  | x, y => signedInf (x.sign * y.sign)

/-- A quotient by zero is left to the caller's guard; here it is NaN. -/
def div : Extended K → Extended K → Extended K
  | .fin x, .fin y => if y = 0 then .nan else .fin (x / y)
  | .fin _, .posInf | .fin _, .negInf => .fin 0
  | .posInf, .fin y => signedInf (SignType.sign y)
  | .negInf, .fin y => signedInf (-SignType.sign y)
  | _, _ => .nan

/-- NaN is unordered. -/
def lt : Extended K → Extended K → Bool
  | .fin x, .fin y => decide (x < y)
  | .negInf, .fin _ | .negInf, .posInf | .fin _, .posInf => true
  | _, _ => false

def le : Extended K → Extended K → Bool
  | .fin x, .fin y => decide (x ≤ y)
  | .negInf, .fin _ | .negInf, .posInf | .fin _, .posInf => true
  | .posInf, .posInf | .negInf, .negInf => true
  | _, _ => false

def eq : Extended K → Extended K → Bool
  | .fin x, .fin y => decide (x = y)
  | .posInf, .posInf | .negInf, .negInf => true
  | _, _ => false

/-- A number or the upper infinity. -/
def BoundedBelow (x : Extended K) : Prop := (∃ q, x = .fin q) ∨ x = .posInf

omit [Field K] [LinearOrder K] in
@[simp] theorem boundedBelow_fin (x : K) : (fin x).BoundedBelow := Or.inl ⟨x, rfl⟩

omit [Field K] [LinearOrder K] in
@[simp] theorem boundedBelow_posInf : (posInf : Extended K).BoundedBelow := Or.inr rfl

omit [Field K] [LinearOrder K] in
@[simp] theorem not_boundedBelow_negInf : ¬ (negInf : Extended K).BoundedBelow := by
  simp [BoundedBelow]

omit [Field K] [LinearOrder K] in
@[simp] theorem not_boundedBelow_nan : ¬ (nan : Extended K).BoundedBelow := by
  simp [BoundedBelow]

omit [LinearOrder K] in
@[simp] theorem add_fin (x y : K) : (fin x).add (fin y) = fin (x + y) := rfl

@[simp] theorem mul_fin (x y : K) : (fin x).mul (fin y) = fin (x * y) := rfl

omit [Field K] in
@[simp] theorem lt_fin (x y : K) : (fin x).lt (fin y) = decide (x < y) := rfl

omit [Field K] in
@[simp] theorem le_fin (x y : K) : (fin x).le (fin y) = decide (x ≤ y) := rfl

omit [Field K] in
@[simp] theorem lt_nan (x : Extended K) : x.lt nan = false := by cases x <;> rfl

omit [Field K] in
@[simp] theorem nan_lt (x : Extended K) : nan.lt x = false := by cases x <;> rfl

omit [Field K] in
@[simp] theorem posInf_lt (x : Extended K) : posInf.lt x = false := by cases x <;> rfl

omit [LinearOrder K] in
/-- A lower bound survives a sum only if both terms have one. -/
theorem boundedBelow_add_iff (x y : Extended K) :
    (x.add y).BoundedBelow ↔ x.BoundedBelow ∧ y.BoundedBelow := by
  cases x <;> cases y <;> simp [add]

/-- A positive number times an infinity is that infinity. -/
theorem mul_of_pos {x : K} (hx : 0 < x) {y : Extended K} (hy : ∀ q, y ≠ fin q) :
    (fin x).mul y = y := by
  have hsign : (fin x).sign = SignType.pos := sign_pos hx
  cases y with
  | fin q => exact absurd rfl (hy q)
  | posInf => exact congrArg (fun s => signedInf (s * 1)) hsign
  | negInf => exact congrArg (fun s => signedInf (s * -1)) hsign
  | nan => exact congrArg (fun s => signedInf (s * 0)) hsign

theorem zero_mul_of_infinite {y : Extended K} (hy : ∀ q, y ≠ fin q) : (fin 0).mul y = nan := by
  have hsign : (fin (0 : K)).sign = SignType.zero := sign_zero
  cases y with
  | fin q => exact absurd rfl (hy q)
  | posInf => exact congrArg (fun s => signedInf (s * 1)) hsign
  | negInf => exact congrArg (fun s => signedInf (s * -1)) hsign
  | nan => exact congrArg (fun s => signedInf (s * 0)) hsign

/-- A product with a number that is not negative keeps a lower bound, except at zero times
infinity. -/
theorem boundedBelow_mul_iff {x : K} (hx : 0 ≤ x) (y : Extended K) :
    ((fin x).mul y).BoundedBelow ↔ (∃ q, y = fin q) ∨ y = posInf ∧ x ≠ 0 := by
  by_cases hy : ∃ q, y = fin q
  · obtain ⟨q, rfl⟩ := hy
    simp
  · have hinf : ∀ q, y ≠ fin q := fun q hq => hy ⟨q, hq⟩
    rcases hx.eq_or_lt with rfl | hpos
    · rw [zero_mul_of_infinite hinf]
      simp [hy]
    · rw [mul_of_pos hpos hinf]
      simp [BoundedBelow, hpos.ne']

omit [Field K] in
/-- Against a finite limit, what has a lower bound is not greater only if it is a number that is
not greater. -/
theorem fin_lt_eq_false_iff {l : K} {x : Extended K} (hx : x.BoundedBelow) :
    (fin l).lt x = false ↔ ∃ q, x = fin q ∧ q ≤ l := by
  rcases hx with ⟨q, rfl⟩ | rfl
  · simp
  · simp [lt]

end Extended
