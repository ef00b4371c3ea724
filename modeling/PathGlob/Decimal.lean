import PathGlob.Text

namespace PathGlob

/-- The number `digits * 10 ^ exponent`, with its sign; there are two zeros. -/
structure Decimal where
  negative : Bool
  digits : Nat
  exponent : Int
  deriving DecidableEq, Repr

def roundHalfEven (num den : Nat) : Nat :=
  let whole := num / den
  let twice := 2 * (num % den)
  if twice < den ∨ (twice = den ∧ whole % 2 = 0) then whole else whole + 1

def quotient (factor base : Nat) (exponent : Int) : Nat × Nat :=
  (factor * base.pow exponent.toNat, base.pow (-exponent).toNat)

namespace Decimal

def natOf (digits : Text) : Nat :=
  digits.foldl (fun n c => 10 * n + (c.toNat - '0'.toNat)) 0

def unsigned : Text → Bool × Text
  | '-' :: rest => (true, rest)
  | '+' :: rest => (false, rest)
  | text => (false, text)

def read (text : Text) : Decimal :=
  let (negative, size) := unsigned text
  let whole := size.takeWhile Char.isDigit
  let afterWhole := size.dropWhile Char.isDigit
  let (fraction, afterFraction) := match afterWhole with
    | '.' :: rest => (rest.takeWhile Char.isDigit, rest.dropWhile Char.isDigit)
    | rest => ([], rest)
  let (below, power) := unsigned (afterFraction.drop 1)
  let power : Int := natOf power
  ⟨negative, natOf (whole ++ fraction), (if below then -power else power) - fraction.length⟩

/-- The digits, with the decimal point behind `point` of them. -/
def positional (digits : Text) (point : Int) : Text :=
  if point ≤ 0 then '0' :: '.' :: (List.replicate (-point).toNat '0' ++ digits)
  else
    let whole := point.toNat
    let missing := List.replicate (whole - digits.length) '0'
    let fraction := digits.drop whole
    digits.take whole ++ missing ++ '.' :: (if fraction.isEmpty then ['0'] else fraction)

def exponential (digits : Text) (exponent : Int) : Text :=
  let size := Nat.toDigits 10 exponent.natAbs
  let fraction := if digits.length ≤ 1 then [] else '.' :: digits.drop 1
  digits.take 1 ++ fraction ++ 'e' :: (if exponent < 0 then '-' else '+') ::
    (if size.length < 2 then '0' :: size else size)

def layout (d : Decimal) : Text :=
  let sign := if d.negative then ['-'] else []
  if d.digits = 0 then sign ++ ['0', '.', '0']
  else
    let all := Nat.toDigits 10 d.digits
    let point : Int := all.length + d.exponent
    let digits := (all.reverse.dropWhile (· == '0')).reverse
    sign ++ (if -4 < point ∧ point ≤ 16 then positional digits point
      else exponential digits (point - 1))

example : (read "1.50".toList).layout = "1.5".toList := by decide +kernel
example : (read "-20e0".toList).layout = "-20.0".toList := by decide +kernel
example : (read "0.0001".toList).layout = "0.0001".toList := by decide +kernel
example : (read "12E-6".toList).layout = "1.2e-05".toList := by decide +kernel
example : (read "1e+16".toList).layout = "1e+16".toList := by decide +kernel
example : (read "-0.0".toList).layout = "-0.0".toList := by decide +kernel

end Decimal

end PathGlob
