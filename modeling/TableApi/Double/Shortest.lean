import TableApi.Double.Basic

/-! The shortest decimal text of a double: the fewest digits that lie nearer to it than to any other
double, and of those the nearest. -/
namespace TableApi.Double

/-- The largest `k` with `10 ^ k ≤ num / den`. -/
def decimalExponent (num den : Nat) : Int :=
  if den ≤ num then ((Nat.toDigits 10 (num / den)).length : Int) - 1
  else
    let places := (Nat.toDigits 10 (den / num)).length
    if den ≤ num * Nat.pow 10 (places - 1) then 1 - (places : Int) else -(places : Int)

/-- Four times the numerators of the ends of the interval of reals that round to `x`. -/
def bounds (x : Double) : Nat × Nat :=
  let unit := Nat.pow 2 x.exponent.toNat
  let below := if x.mantissa = Nat.pow 2 52 ∧ -1074 < x.exponent then 1 else 2
  ((4 * x.mantissa - below) * unit, (4 * x.mantissa + 2) * unit)

/-- Whether `digits · 10 ^ place` rounds to `x`. -/
def roundsTo (x : Double) (digits : Nat) (place : Int) : Bool :=
  let (low, high) := x.bounds
  let value := 4 * digits * Nat.pow 10 place.toNat * x.denominator
  let unit := Nat.pow 10 (-place).toNat
  if x.mantissa % 2 = 0 then low * unit ≤ value && value ≤ high * unit
  else low * unit < value && value < high * unit

/-- The neighbour of `x` with the given count of digits that rounds to it, if there is one. -/
def withDigits (x : Double) (count : Nat) : Option (Nat × Int) :=
  let place := decimalExponent x.numerator x.denominator - count + 1
  let num := x.numerator * Nat.pow 10 (-place).toNat
  let den := x.denominator * Nat.pow 10 place.toNat
  let lower := num / den
  let nearest := roundDiv num den
  let other := if nearest = lower then lower + 1 else lower
  if x.roundsTo nearest place then some (nearest, place)
  else if x.roundsTo other place then some (other, place)
  else none

def shortestDigits (x : Double) : Nat × Int :=
  ((List.range' 1 17).findSome? x.withDigits).getD (x.mantissa, x.exponent)

/-- Digits without zeros at the end and the place of the decimal point behind the first of them. -/
def decimalForm (x : Double) : List Char × Int :=
  if x.mantissa = 0 then (['0'], 1)
  else
    let (digits, place) := x.shortestDigits
    let all := Nat.toDigits 10 digits
    ((all.reverse.dropWhile (· = '0')).reverse, all.length + place)

/-- Positional below `10 ^ 16` and from `10 ^ -5` on, always with a decimal point; otherwise with an
exponent. -/
def render (x : Double) : String :=
  let (digits, point) := x.decimalForm
  let count : Int := digits.length
  let body :=
    if 0 < point ∧ point ≤ 16 then
      if count ≤ point then digits ++ List.replicate (point - count).toNat '0' ++ ['.', '0']
      else digits.take point.toNat ++ '.' :: digits.drop point.toNat
    else if -5 < point ∧ point ≤ 0 then '0' :: '.' :: (List.replicate (-point).toNat '0' ++ digits)
    else
      let fraction := if digits.length ≤ 1 then [] else '.' :: digits.drop 1
      let power := point - 1
      digits.take 1 ++ fraction ++ 'e' :: (if power < 0 then '-' else '+') :: Nat.toDigits 10 power.natAbs
  String.ofList (if x.negative then '-' :: body else body)

end TableApi.Double
