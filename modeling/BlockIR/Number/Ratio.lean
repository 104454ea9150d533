namespace BlockIR

abbrev Ratio := Nat × Nat

namespace Ratio

def scale (base : Nat) (e : Int) (r : Ratio) : Ratio :=
  if 0 ≤ e then (r.1 * Nat.pow base e.toNat, r.2) else (r.1, r.2 * Nat.pow base (-e).toNat)

def round (r : Ratio) : Nat :=
  let q := r.1 / r.2
  let rest := r.1 % r.2
  if 2 * rest < r.2 then q
  else if r.2 < 2 * rest then q + 1
  else if q % 2 = 0 then q else q + 1

def atLeastOne (r : Ratio) : Bool :=
  r.2 ≤ r.1

end Ratio

end BlockIR
