namespace BlockIR.Decimal

def digitChar (d : Nat) : Char :=
  Char.ofNat (48 + d)

def digitValue? (c : Char) : Option Nat :=
  if '0' ≤ c ∧ c ≤ '9' then some (c.toNat - 48) else none

def isDigit (c : Char) : Bool :=
  decide ('0' ≤ c ∧ c ≤ '9')

def digits (n : Nat) : List Char :=
  if n < 10 then [digitChar n] else digits (n / 10) ++ [digitChar (n % 10)]
termination_by n

def ofNat (n : Nat) : String :=
  String.ofList (digits n)

def ofInt : Int → String
  | .ofNat n => ofNat n
  | .negSucc n => "-" ++ ofNat (n + 1)

def value (cs : List Char) : Nat :=
  cs.foldl (fun n c => n * 10 + (digitValue? c).getD 0) 0

inductive Fault where
  | malformed
  | outOfRange
deriving DecidableEq, Repr

def magnitude (base : Nat) : Nat → List Char → Except Fault Nat
  | n, [] => .ok n
  | n, c :: cs =>
    match digitValue? c with
    | none => .error .malformed
    | some d =>
      if base ≤ d then .error .malformed
      else if Nat.pow 2 64 ≤ n * base + d then .error .outOfRange
      else magnitude base (n * base + d) cs

def splitSign : List Char → Bool × List Char
  | '-' :: cs => (true, cs)
  | '+' :: cs => (false, cs)
  | cs => (false, cs)

def signed (negative : Bool) (n : Nat) : Except Fault Int64 :=
  if negative then
    if n ≤ Nat.pow 2 63 then .ok (Int64.ofInt (-n)) else .error .outOfRange
  else if n < Nat.pow 2 63 then .ok (Int64.ofInt n) else .error .outOfRange

def readInt64 (s : String) : Except Fault Int64 :=
  match splitSign s.toList with
  | (_, []) => .error .malformed
  | (negative, cs) => magnitude 10 0 cs >>= signed negative

/-- Reads a 64-bit integer whose base is told by its first digit: `0` makes it octal. -/
def readPrefixedInt64 (s : String) : Except Fault Int64 :=
  match splitSign s.toList with
  | (_, []) => .error .malformed
  | (negative, '0' :: cs) => magnitude 8 0 cs >>= signed negative
  | (negative, cs) => magnitude 10 0 cs >>= signed negative

structure Scientific where
  negative : Bool
  mantissa : Nat
  exponent : Int
deriving DecidableEq, Repr

def readExponent? : List Char → Option Int
  | [] => some 0
  | c :: cs =>
    if c = 'e' ∨ c = 'E' then
      match splitSign cs with
      | (_, []) => none
      | (negative, ds) =>
        if ds.all isDigit then some (if negative then -(value ds : Int) else value ds) else none
    else none

def readScientific? (cs : List Char) : Option Scientific :=
  let (negative, body) := splitSign cs
  let whole := body.takeWhile isDigit
  let (fraction, tail) :=
    match body.dropWhile isDigit with
    | '.' :: rest => (rest.takeWhile isDigit, rest.dropWhile isDigit)
    | rest => ([], rest)
  if whole.isEmpty && fraction.isEmpty then none
  else (readExponent? tail).map fun e =>
    ⟨negative, value (whole ++ fraction), e - fraction.length⟩

end BlockIR.Decimal
