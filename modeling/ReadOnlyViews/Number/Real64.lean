import ReadOnlyViews.Text.Basic

/-!
Numbers of 64 bits with a binary exponent: the nearest one to a decimal, and the shortest decimal
that reads back as a given one.  All of it is exact integer arithmetic.
-/

namespace ReadOnlyViews

/-- A 64-bit floating number; a finite one is `mantissa * 2 ^ exponent`. -/
inductive Real64 where
  | nan
  | infinite (negative : Bool)
  | finite (negative : Bool) (mantissa : Nat) (exponent : Int)
  deriving DecidableEq, Repr

namespace Real64

/-- A quotient rounded to the nearest whole number, a half to the even neighbour. -/
def roundQuotient (num den : Nat) : Nat :=
  let q := num / den
  let r := num % den
  if 2 * r > den || (2 * r == den && q % 2 == 1) then q + 1 else q

/-- A power of two. -/
def twoTo (power : Nat) : Nat := Nat.pow 2 power

/-- A power of ten. -/
def tenTo (power : Nat) : Nat := Nat.pow 10 power

/-- A quotient multiplied by a power of two, as a pair of numerator and denominator. -/
def scaled (num den : Nat) (power : Int) : Nat × Nat :=
  if power ≥ 0 then (num * twoTo power.toNat, den) else (num, den * twoTo (-power).toNat)

/-- The number nearest to a positive quotient. -/
def ofQuotient (negative : Bool) (num den : Nat) : Real64 :=
  let guess : Int := (Nat.log2 num : Int) - (Nat.log2 den : Int) - 52
  let (n, d) := scaled num den (-guess)
  let normal := if n / d < twoTo 52 then guess - 1 else guess
  let exponent := if normal < -1074 then -1074 else normal
  let (n, d) := scaled num den (-exponent)
  let mantissa := roundQuotient n d
  let (mantissa, exponent) :=
    if mantissa == twoTo 53 then (twoTo 52, exponent + 1) else (mantissa, exponent)
  if exponent > 971 then infinite negative else finite negative mantissa exponent

/-- The number nearest to `digits * 10 ^ exponent`.  Far outside the range of finite numbers the
power of ten is not computed. -/
def ofDecimal (negative : Bool) (digits : Nat) (exponent : Int) : Real64 :=
  let length : Int := (Nat.toDigits 10 digits).length
  if digits == 0 || length + exponent < -330 then finite negative 0 (-1074)
  else if length + exponent > 320 then infinite negative
  else if exponent ≥ 0 then ofQuotient negative (digits * tenTo exponent.toNat) 1
  else ofQuotient negative digits (tenTo (-exponent).toNat)

/-- Whether the number is zero, of either sign. -/
def isZero : Real64 → Bool
  | finite _ mantissa _ => mantissa == 0
  | _ => false

/-- A decimal `digits * 10 ^ exponent`. -/
structure Decimal where
  digits : Nat
  exponent : Int
  deriving DecidableEq, Repr

/-- The decimals with `count` digits around `num / den` that lie strictly between the bounds, or on
one of them when `closed`; of two the nearer one, and of two equally near ones the even one.  `top`
is the power of ten of the first digit. -/
def onGrid? (num low high den : Nat) (closed : Bool) (top : Int) (count : Nat) : Option Decimal :=
  let power : Int := top - count + 1
  let up := if power ≥ 0 then 1 else tenTo (-power).toNat
  let unit := den * (if power ≥ 0 then tenTo power.toNat else 1)
  let inside (c : Nat) : Bool :=
    let x := c * unit
    (low * up < x && x < high * up) || (closed && (x == low * up || x == high * up))
  let floor := num * up / unit
  match inside floor, inside (floor + 1) with
  | true, true => some ⟨roundQuotient (num * up) unit, power⟩
  | true, false => some ⟨floor, power⟩
  | false, true => some ⟨floor + 1, power⟩
  | false, false => none

/-- The power of ten of the first digit of a positive quotient. -/
def topPower (num den : Nat) : Int :=
  if num ≥ den then ((Nat.toDigits 10 (num / den)).length : Int) - 1
  else
    let up := (Nat.toDigits 10 (den / num)).length
    if num * tenTo up ≥ den * 10 then 1 - (up : Int) else if num * tenTo up ≥ den then -(up : Int)
    else -(up : Int) - 1

/-- The shortest decimal that reads back as `mantissa * 2 ^ exponent`. -/
def shortest (mantissa : Nat) (exponent : Int) : Decimal :=
  let (num, den) := scaled (4 * mantissa) 4 exponent
  let factor := num / (4 * mantissa)
  let below := if mantissa == twoTo 52 && exponent > -1074 then 1 else 2
  let low := num - below * factor
  let high := num + 2 * factor
  let top := topPower num den
  ((List.range 17).findSome? fun n =>
    onGrid? num low high den (mantissa % 2 == 0) top (n + 1)).getD ⟨mantissa, 0⟩

/-- The decimal without the zeros at its end. -/
def significant (d : Decimal) : Text × Int :=
  let digits := Nat.toDigits 10 d.digits
  let kept := (digits.reverse.dropWhile (· == '0')).reverse
  (kept, digits.length + d.exponent)

/-- The text of a magnitude: positional from `10 ^ -4` up to below `10 ^ 16`, always with a point;
outside with an exponent of a sign and at least two digits. -/
def magnitudeText (mantissa : Nat) (exponent : Int) : Text :=
  if mantissa == 0 then "0.0" else
  let (digits, point) := significant (shortest mantissa exponent)
  if -4 < point && point ≤ 16 then
    if point ≤ 0 then "0." ++ List.replicate (-point).toNat '0' ++ digits
    else if digits.length ≤ point.toNat then
      digits ++ List.replicate (point.toNat - digits.length) '0' ++ ".0"
    else digits.take point.toNat ++ "." ++ digits.drop point.toNat
  else
    let power := point - 1
    let fraction := digits.drop 1
    digits.take 1 ++ (if fraction.isEmpty then ([] : Text) else '.' :: fraction) ++ ['e'] ++
      [if power < 0 then '-' else '+'] ++ Text.ofNatPadded 2 power.natAbs

/-- The text of a number. -/
def text : Real64 → Text
  | nan => "nan"
  | infinite negative => if negative then "-inf" else "inf"
  | finite negative mantissa exponent =>
    if negative then '-' :: magnitudeText mantissa exponent else magnitudeText mantissa exponent

end Real64

end ReadOnlyViews
