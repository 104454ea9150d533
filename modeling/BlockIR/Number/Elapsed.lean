import BlockIR.Number.Binary64.Display

namespace BlockIR

structure Elapsed where
  nanoseconds : Int64
deriving DecidableEq

namespace Elapsed

def inUnits (n unit : Nat) : Binary64 :=
  (Binary64.ofNat (n / unit)).add ((Binary64.ofNat (n % unit)).div (Binary64.ofNat unit))

def display (d : Elapsed) : String :=
  let n := d.nanoseconds.toInt
  if 60000000000 ≤ n then (inUnits n.toNat 60000000000).fixed 2 ++ "min"
  else if 1000000000 ≤ n then (inUnits n.toNat 1000000000).fixed 2 ++ "s"
  else if 1000000 ≤ n then ((Binary64.ofNat n.toNat).div (.ofNat 1000000)).fixed 1 ++ "ms"
  else if 1000 ≤ n then ((Binary64.ofNat n.toNat).div (.ofNat 1000)).fixed 1 ++ "μs"
  else Decimal.ofInt n ++ "ns"

end Elapsed

end BlockIR
