import BlockIR.Number.Binary64

namespace BlockIR.Binary64

def zeros (n : Nat) : List Char :=
  List.replicate n '0'

def sign (x : Binary64) : String :=
  if x.negative then "-" else ""

def fixed (places : Nat) (x : Binary64) : String :=
  let unit := Nat.pow 10 places
  let n := (Ratio.scale 10 places x.magnitude).round
  let fraction := Decimal.digits (n % unit)
  String.join
    [ x.sign, Decimal.ofNat (n / unit), ".",
      String.ofList (zeros (places - fraction.length) ++ fraction) ]

/-- Whether the decimal `k · 10 ^ e` rounds to `x`, for a positive `x`: it lies between the points
half way to the neighbours of `x`, and those points count if the mantissa is even. In quarters of
the last binary place, `x` is `4 · mantissa`, the upper point two above it, and the lower point two
below it, or one where the spacing halves. -/
def reads (x : Binary64) (k : Nat) (e : Int) : Bool :=
  let halves := x.mantissa = Nat.pow 2 52 && leastExponent < x.exponent
  let low := 4 * x.mantissa - (if halves then 1 else 2)
  let high := 4 * x.mantissa + 2
  let (n, d) := Ratio.scale 2 (-x.exponent) (Ratio.scale 10 e (4 * k, 1))
  if x.mantissa % 2 = 0 then low * d ≤ n && n ≤ high * d else low * d < n && n < high * d

def decimalOrder (r : Ratio) : Nat → Int → Int
  | 0, e => e
  | fuel + 1, e => if (r.scale 10 (-e)).atLeastOne then e else decimalOrder r fuel (e - 1)

def shortestFrom (x : Binary64) (order : Int) (count : Nat) : Nat → Nat × Int
  | 0 => (x.magnitude.round, 0)
  | fuel + 1 =>
    let e := order - count + 1
    let r := x.magnitude.scale 10 (-e)
    let below := r.1 / r.2
    if x.reads r.round e then (r.round, e)
    else if x.reads below e then (below, e)
    else if x.reads (below + 1) e then (below + 1, e)
    else shortestFrom x order (count + 1) fuel

def shortest (x : Binary64) : List Char × Int :=
  let (n, d) := x.magnitude
  let guess : Int := ((n.log2 : Int) - d.log2) * 3 / 10 + 2
  let (k, e) := shortestFrom x (decimalOrder (n, d) 40 guess) 1 17
  let ds := Decimal.digits k
  ((ds.reverse.dropWhile (· = '0')).reverse, e + ds.length - 1)

def pointed : List Char → List Char → List Char
  | whole, [] => whole
  | whole, fraction => whole ++ '.' :: fraction

def plainForm (ds : List Char) (e : Int) : List Char :=
  if e < 0 then pointed ['0'] (zeros (-e - 1).toNat ++ ds)
  else
    let n := e.toNat + 1
    pointed (ds.take n ++ zeros (n - ds.length)) (ds.drop n)

def exponentForm (ds : List Char) (e : Int) : List Char :=
  let es := Decimal.digits e.natAbs
  pointed (ds.take 1) (ds.drop 1) ++ 'e' :: (if e < 0 then '-' else '+') ::
    (zeros (2 - es.length) ++ es)

def display (x : Binary64) : String :=
  if x.mantissa = 0 then x.sign ++ "0"
  else
    let (ds, e) := x.shortest
    x.sign ++ String.ofList (if e < -4 || 6 ≤ e then exponentForm ds e else plainForm ds e)

end BlockIR.Binary64
