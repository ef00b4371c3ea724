import PathGlob.Decimal

namespace PathGlob

/-- The number `mantissa * 2 ^ exponent` with its sign, or an infinity. -/
inductive Double where
  | finite (negative : Bool) (mantissa : Nat) (exponent : Int)
  | infinite (negative : Bool)
  deriving DecidableEq, Repr

namespace Double

def isZero : Double → Bool
  | finite _ mantissa _ => mantissa == 0
  | infinite _ => false

def ofInt (n : Int) : Double := finite (n < 0) n.natAbs 0

def sameSize (a : Nat) (i : Int) (b : Nat) (j : Int) : Bool :=
  let low := min i j
  a * Nat.pow 2 (i - low).toNat == b * Nat.pow 2 (j - low).toNat

def same : Double → Double → Bool
  | finite s a i, finite t b j => sameSize a i b j && (s == t || a == 0)
  | infinite s, infinite t => s == t
  | _, _ => false

def atLeast (num den base : Nat) (exponent : Int) : Bool :=
  let (power, unit) := quotient 1 base exponent
  power * den ≤ num * unit

def lastPlace (num den : Nat) : Int :=
  let size : Int := (num.log2 : Int) - den.log2
  max (if atLeast num den 2 size then size - 52 else size - 53) (-1074)

/-- The nearest number, a half to the even side. Beyond the largest one lies infinity; the first
tests only keep the powers small. -/
def ofDecimal (d : Decimal) : Double :=
  let size : Int := (Nat.toDigits 10 d.digits).length + d.exponent
  if d.digits = 0 ∨ size < -400 then finite d.negative 0 0
  else if 400 < size then infinite d.negative
  else
    let (num, den) := quotient d.digits 10 d.exponent
    let place := lastPlace num den
    let (up, down) := quotient den 2 place
    let mantissa := roundHalfEven (num * down) up
    if place > 971 ∨ (place = 971 ∧ Nat.pow 2 53 ≤ mantissa) then infinite d.negative
    else finite d.negative mantissa place

def scale (num den : Nat) : Int :=
  let size : Int := (Nat.toDigits 10 num).length - (Nat.toDigits 10 den).length
  if atLeast num den 10 size then size + 1 else size

/-- The decimal of `count` digits that is read back as the number, the nearest one first. -/
def withDigits (x : Double) (negative : Bool) (num den count : Nat) : Option Decimal :=
  let exponent := scale num den - count
  let (up, down) := quotient den 10 exponent
  let nearest := roundHalfEven (num * down) up
  let floor := num * down / up
  [nearest, floor, floor + 1].findSome? fun digits =>
    let d : Decimal := ⟨negative, digits, exponent⟩
    if (ofDecimal d).same x then some d else none

/-- Seventeen digits are always enough. -/
def shortest (x : Double) : Decimal :=
  match x with
  | infinite negative => ⟨negative, 0, 0⟩
  | finite negative mantissa exponent =>
      let (num, den) := quotient mantissa 2 exponent
      if mantissa = 0 then ⟨negative, 0, 0⟩
      else
        ((List.range 17).findSome? fun n => withDigits x negative num den (n + 1)).getD
          ⟨negative, num, 0⟩

def shown (x : Double) : Text :=
  match x with
  | infinite negative => if negative then "-inf".toList else "inf".toList
  | x => x.shortest.layout

def echo (text : Text) : Text := (ofDecimal (Decimal.read text)).shown

example : echo "1.5".toList = "1.5".toList := by decide +kernel
example : echo "5e-324".toList = "5e-324".toList := by decide +kernel
example : echo "1.7976931348623157e308".toList = "1.7976931348623157e+308".toList := by
  decide +kernel
example : echo "0.1000000000000000055511151231257827".toList = "0.1".toList := by decide +kernel
example : echo "9007199254740993.0".toList = "9007199254740992.0".toList := by decide +kernel
example : echo "1e23".toList = "1e+23".toList := by decide +kernel

end Double

end PathGlob
