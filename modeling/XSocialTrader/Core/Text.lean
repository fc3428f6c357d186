import Mathlib.Data.List.Basic
import Mathlib.Data.Int.Notation

/-! Python text functions. -/
namespace XSocialTrader

/-- `c.isspace()`. -/
def isPySpace (c : Char) : Bool :=
  let n := c.toNat
  (9 ≤ n && n ≤ 13) || (28 ≤ n && n ≤ 32) || n == 0x85 || n == 0xa0 || n == 0x1680 ||
    (0x2000 ≤ n && n ≤ 0x200a) || n == 0x2028 || n == 0x2029 || n == 0x202f || n == 0x205f ||
    n == 0x3000

/-- `cs.strip()`. -/
def stripChars (cs : List Char) : List Char :=
  ((cs.dropWhile isPySpace).reverse.dropWhile isPySpace).reverse

/-- `s.strip()`. -/
def pyStrip (s : String) : String := String.ofList (stripChars s.toList)

/-- The case mappings and decimal digits of Python's Unicode database. -/
structure UnicodeText where
  lower : String → String
  upper : String → String
  decimal : Char → Option ℕ

/-- The part of the database that ASCII text needs. -/
def asciiText : UnicodeText where
  lower s := s.map Char.toLower
  upper s := s.map Char.toUpper
  decimal c := if c.isDigit then some (c.toNat - 48) else none

/-- Digits with single underscores between them. -/
def intDigits (text : UnicodeText) (cs : List Char) : Option ℕ :=
  let groups := cs.splitOn '_'
  let digits := groups.flatten.map text.decimal
  if groups.all (fun g => !g.isEmpty) && digits.all Option.isSome && digits.length ≤ 4300 then
    some (digits.foldl (fun n d => 10 * n + d.getD 0) 0)
  else none

/-- `int(s)`; `none` is `ValueError`. -/
def pyInt (text : UnicodeText) (s : String) : Option ℤ :=
  match stripChars s.toList with
  | '-' :: cs => (intDigits text cs).map fun n => -(n : ℤ)
  | '+' :: cs => (intDigits text cs).map fun n => (n : ℤ)
  | cs => (intDigits text cs).map fun n => (n : ℤ)

end XSocialTrader
