import BlockIR.Number.Decimal
import BlockIR.Number.Ratio

/-! Finite binary floating-point numbers with 53 significant bits, computed exactly: every operation
is a quotient of integers rounded once, to the nearest number, of two the even one. -/

namespace BlockIR

/-- The number `± mantissa · 2 ^ exponent`. In a rounded number the mantissa is below `2 ^ 53`, the
exponent is at least `-1074`, and no leading bit is wasted unless the exponent is at its least. -/
structure Binary64 where
  negative : Bool
  mantissa : Nat
  exponent : Int
deriving DecidableEq

namespace Binary64

def leastExponent : Int := -1074

def greatestExponent : Int := 971

def binaryOrder (r : Ratio) : Int :=
  let e : Int := (r.1.log2 : Int) - r.2.log2
  if (r.scale 2 (-e)).atLeastOne then e else e - 1

def ofRatio (negative : Bool) (r : Ratio) : Binary64 :=
  if r.1 = 0 then ⟨negative, 0, leastExponent⟩
  else
    let e := max (binaryOrder r - 52) leastExponent
    let m := (r.scale 2 (-e)).round
    if m = Nat.pow 2 53 then ⟨negative, Nat.pow 2 52, e + 1⟩ else ⟨negative, m, e⟩

/-- The number nearest to a decimal one, unless that is `2 ^ 1024` or more. The number of digits
settles it for a decimal that is far below the least or far above the greatest. -/
def ofScientific? (s : Decimal.Scientific) : Option Binary64 :=
  let order := s.exponent + (Decimal.digits s.mantissa).length
  if s.mantissa = 0 || order < -400 then some ⟨s.negative, 0, leastExponent⟩
  else if 400 < order then none
  else
    let x := ofRatio s.negative (Ratio.scale 10 s.exponent (s.mantissa, 1))
    if x.exponent ≤ greatestExponent then some x else none

def magnitude (x : Binary64) : Ratio :=
  Ratio.scale 2 x.exponent (x.mantissa, 1)

def toInt? (x : Binary64) : Option Int :=
  let (n, d) := x.magnitude
  if n % d = 0 then some (if x.negative then -(n / d : Int) else n / d) else none

def ofNat (n : Nat) : Binary64 :=
  ofRatio false (n, 1)

def add (x y : Binary64) : Binary64 :=
  let (a, b) := x.magnitude
  let (c, d) := y.magnitude
  ofRatio false (a * d + c * b, b * d)

def div (x y : Binary64) : Binary64 :=
  let (a, b) := x.magnitude
  let (c, d) := y.magnitude
  ofRatio false (a * d, b * c)

end Binary64

end BlockIR
