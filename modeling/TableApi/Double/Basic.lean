/-! Finite doubles in exact arithmetic on natural numbers. Every operation rounds its exact result
to the nearest double, a half to the even mantissa. -/
namespace TableApi

/-- The number `±mantissa · 2 ^ exponent`: 53 binary digits at most, an exponent from -1074 to 971. -/
structure Double where
  negative : Bool
  mantissa : Nat
  exponent : Int
  deriving DecidableEq, Repr, Inhabited

namespace Double

def zero : Double := ⟨false, 0, -1074⟩

/-- The quotient rounded to the nearest integer, a half to the even one. -/
def roundDiv (num den : Nat) : Nat :=
  let quotient := num / den
  let rest := num % den
  if den < 2 * rest ∨ (den = 2 * rest ∧ quotient % 2 = 1) then quotient + 1 else quotient

/-- Numerator and denominator of `num / den / 2 ^ exponent`. -/
def scaled (num den : Nat) (exponent : Int) : Nat × Nat :=
  (num * Nat.pow 2 (-exponent).toNat, den * Nat.pow 2 exponent.toNat)

/-- The exponent at which `num / den` has 53 binary digits, or the least one there is. -/
def exponentOf (num den : Nat) : Int :=
  let guess : Int := (num.log2 : Int) - den.log2 - 53
  let (n, d) := scaled num den guess
  max (if n / d < Nat.pow 2 53 then guess else guess + 1) (-1074)

/-- The double nearest to `num / den`; none when that lies past the largest. -/
def ofRatio (negative : Bool) (num den : Nat) : Option Double :=
  if num = 0 then some ⟨negative, 0, -1074⟩
  else
    let exponent := exponentOf num den
    let (n, d) := scaled num den exponent
    let mantissa := roundDiv n d
    let carried := mantissa = Nat.pow 2 53
    let result : Double :=
      ⟨negative, if carried then Nat.pow 2 52 else mantissa, if carried then exponent + 1 else exponent⟩
    if result.exponent ≤ 971 then some result else none

def ofNat (n : Nat) : Option Double :=
  ofRatio false n 1

def numerator (x : Double) : Nat :=
  x.mantissa * Nat.pow 2 x.exponent.toNat

def denominator (x : Double) : Nat :=
  Nat.pow 2 (-x.exponent).toNat

def mul (x y : Double) : Option Double :=
  ofRatio (x.negative != y.negative) (x.numerator * y.numerator) (x.denominator * y.denominator)

def div (x y : Double) : Option Double :=
  ofRatio (x.negative != y.negative) (x.numerator * y.denominator) (x.denominator * y.numerator)

def neg (x : Double) : Double :=
  { x with negative := !x.negative }

def powerOfTen (k : Nat) : Option Double :=
  ofNat (Nat.pow 10 k)

/-- `x` divided by the greatest power of ten among the doubles. -/
def stepDown (x : Double) : Option Double :=
  (powerOfTen 308).bind x.div

/-- `x · 10 ^ exponent` by one operation with a rounded power of ten, after divisions by `10 ^ 308`
as long as the power would be smaller than the doubles reach. -/
def timesTenTo (x : Double) (exponent : Int) : Option Double :=
  if exponent < -308 then
    if x.mantissa = 0 then some x else x.stepDown.bind (timesTenTo · (exponent + 308))
  else if exponent < 0 then (powerOfTen (-exponent).toNat).bind x.div
  else if exponent ≤ 308 then (powerOfTen exponent.toNat).bind x.mul
  else if x.mantissa = 0 then some x
  else none
termination_by exponent.natAbs

end Double

end TableApi
