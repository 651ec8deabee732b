/-!
# Floating point numbers of 64 bits

`Double.ofDecimal?` gives the number nearest to a decimal, and `Double.text` the decimal with the
fewest digits that is nearest to no other number. Both go by exact fractions. Of two numbers that
are equally near to a decimal the one with an even mantissa is taken, and of two decimals that are
equally near to a number the greater one.
-/

namespace PascalUnits.Toml

/-- The least power of `base` that is greater than a positive fraction. A numerator or denominator
of `n` digits lies between two powers of the base, so only two powers come into question. -/
def magnitude (base : Nat) (x : Rat) : Int :=
  let guess : Int := (Nat.toDigits base x.num.natAbs).length - (Nat.toDigits base x.den).length
  if x < (base : Rat) ^ guess then guess else guess + 1

/-- The whole number nearest to a fraction that is not negative, the even one of two. -/
def roundToEven (x : Rat) : Nat :=
  let below := x.floor.toNat
  if x - below < 1 / 2 ∨ x - below = 1 / 2 ∧ below % 2 = 0 then below else below + 1

/-- A floating point number. A finite one is `mantissa * 2 ^ exponent` or the opposite of that. -/
inductive Double where
  | finite (negative : Bool) (mantissa : Nat) (exponent : Int)
  | infinite (negative : Bool)
  | notANumber
  deriving DecidableEq, Repr

namespace Double

/-- The least exponent of a number. -/
def leastExponent : Int :=
  -1074

/-- The number nearest to a fraction that is not negative, with the given sign. There is none if the
fraction is too large. -/
def nearest? (negative : Bool) (x : Rat) : Option Double :=
  if x = 0 then some (.finite negative 0 leastExponent)
  else
    let exponent := max (magnitude 2 x - 53) leastExponent
    let mantissa := roundToEven (x / 2 ^ exponent)
    if (2 : Rat) ^ (1024 : Int) ≤ mantissa * 2 ^ exponent then none
    else if mantissa = Nat.pow 2 53 then some (.finite negative (Nat.pow 2 52) (exponent + 1))
    else some (.finite negative mantissa exponent)

/-- The number nearest to `digits * 10 ^ exponent`, with the given sign. There is none if that is
too large. Numbers far out of range are told by the number of their digits. -/
def ofDecimal? (negative : Bool) (digits : Nat) (exponent : Int) : Option Double :=
  let size := (Nat.toDigits 10 digits).length + exponent
  if digits = 0 ∨ size < -330 then nearest? negative 0
  else if 310 < size then none
  else nearest? negative (digits * (10 : Rat) ^ exponent)

/-- Whether a decimal is nearer to the number `mantissa * 2 ^ exponent` than to any other. The
number below a power of two is only half as far from it as the one above. -/
def isNear (mantissa : Nat) (exponent : Int) (decimal : Rat) : Bool :=
  let value : Rat := mantissa * 2 ^ exponent
  let half : Rat := 2 ^ (exponent - 1)
  let below := if mantissa = Nat.pow 2 52 ∧ leastExponent < exponent then half / 2 else half
  let within := value - below < decimal ∧ decimal < value + half
  let onEdge := decimal = value - below ∨ decimal = value + half
  within ∨ onEdge ∧ mantissa % 2 = 0

/-- The better one of the two multiples of `10 ^ place` around a number, as a multiple, if one of
them is near to the number. -/
def decimalAt? (mantissa : Nat) (exponent place : Int) : Option Nat :=
  let value : Rat := mantissa * 2 ^ exponent
  let step : Rat := 10 ^ place
  let below := (value / step).floor.toNat
  let isBelowNear := isNear mantissa exponent (below * step)
  let isAboveNear := isNear mantissa exponent ((below + 1) * step)
  let isAboveNearer : Bool := (below + 1) * step - value ≤ value - below * step
  if isAboveNear && (isAboveNearer || !isBelowNear) then some (below + 1)
  else if isBelowNear then some below
  else none

/-- The decimal with the fewest digits that is near to a positive number: its digits, and the power
of ten that the last one counts. Seventeen digits are always enough. A step more than nine is ten,
which is one of the next greater steps. -/
def shortest (mantissa : Nat) (exponent : Int) : Nat × Int :=
  let size := magnitude 10 (mantissa * 2 ^ exponent)
  let found := (List.range 17).findSome? fun (count : Nat) =>
    let place := size - (count + 1)
    (decimalAt? mantissa exponent place).map fun digits => (digits, place)
  match found with
  | some (10, place) => (1, place + 1)
  | some decimal => decimal
  | none => (0, 0)

/-- A decimal with a point and no exponent. -/
def decimalText (digits : Nat) (place : Int) : String :=
  if 0 ≤ place then toString (digits * Nat.pow 10 place.toNat) ++ ".0"
  else
    let places := place.natAbs
    let shown := (toString digits).toList.leftpad (places + 1) '0'
    let whole := shown.take (shown.length - places)
    String.ofList (whole ++ '.' :: shown.drop whole.length)

/-- The text of a number. -/
def text : Double → String
  | .finite negative mantissa exponent =>
    let sign := if negative then "-" else ""
    if mantissa = 0 then sign ++ "0.0"
    else
      let (digits, place) := shortest mantissa exponent
      sign ++ decimalText digits place
  | .infinite negative => if negative then "-inf" else "inf"
  | .notANumber => "NaN"

end Double

end PascalUnits.Toml
