import XSocialTrader.Core.Values
import XSocialTrader.Lib.Extended

/-! `float` with its infinities, its NaN and the range in which `float(n)` returns. Finite
values are exact rationals. -/
namespace XSocialTrader

/-- `nan`, `inf` and `infinity`, whatever the case. -/
def extendedWord (cs : List Char) : Option (Extended ℚ) :=
  let word := String.ofList (cs.map Char.toLower)
  if word = "nan" then some .nan
  else if word = "inf" ∨ word = "infinity" then some .posInf
  else none

/-- `float(s)`. -/
def extendedOfString (s : String) : Option (Extended ℚ) :=
  let special := match stripChars s.toList with
    | '-' :: cs => (extendedWord cs).map Extended.neg
    | '+' :: cs => extendedWord cs
    | cs => extendedWord cs
  special.or ((rationalOfString s).map Extended.fin)

def extendedText (finite : ℚ → String) : Extended ℚ → String
  | .fin q => finite q
  | .posInf => "inf"
  | .negInf => "-inf"
  | .nan => "nan"

/-- An integer that rounds to 2 ^ 1024 or beyond has no `float`. -/
instance : PyFloat (Extended ℚ) where
  ofInt n := .fin n
  fits n := decide (n.natAbs < 2 ^ 1024 - 2 ^ 970)
  add := Extended.add
  sub := Extended.sub
  mul := Extended.mul
  div := Extended.div
  lt := Extended.lt
  le := Extended.le
  eq := Extended.eq
  eqInt x n := Extended.eq x (.fin n)
  parse := extendedOfString
  fixed2 := extendedText PyFloat.fixed2
  repr := extendedText PyFloat.repr

instance : LawfulPyFloat (Extended ℚ) where
  eq_self_of_eq x y h := by
    cases x <;> cases y <;> simp [PyFloat.eq, Extended.eq] at h ⊢

section Exact

@[simp] theorem ofInt_extended (n : ℤ) : (PyFloat.ofInt n : Extended ℚ) = .fin (n : ℚ) := rfl

@[simp] theorem add_extended (x y : Extended ℚ) : PyFloat.add x y = x.add y := rfl

@[simp] theorem sub_extended (x y : Extended ℚ) : PyFloat.sub x y = x.sub y := rfl

@[simp] theorem mul_extended (x y : Extended ℚ) : PyFloat.mul x y = x.mul y := rfl

@[simp] theorem div_extended (x y : Extended ℚ) : PyFloat.div x y = x.div y := rfl

@[simp] theorem lt_extended (x y : Extended ℚ) : PyFloat.lt x y = x.lt y := rfl

@[simp] theorem le_extended (x y : Extended ℚ) : PyFloat.le x y = x.le y := rfl

end Exact

/-- `float(10 ** 400)` raises. -/
example : PyFloat.fits (Extended ℚ) (10 ^ 400) = false := by decide +kernel

end XSocialTrader
