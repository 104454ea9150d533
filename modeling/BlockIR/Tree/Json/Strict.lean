import BlockIR.Tree.Json

/-! Reading a tree from JSON to the letter of its grammar. As in the other reader, numbers keep their
text, the last of repeated keys wins, and what follows the first value is not looked at; but numbers
may be of any size. -/

namespace BlockIR.Json.Strict

abbrev Reader (α : Type) := List Char → Option (α × List Char)

def isBlank (c : Char) : Bool :=
  c = ' ' || c = '\t' || c = '\n' || c = '\r'

def skipBlank (cs : List Char) : List Char :=
  cs.dropWhile isBlank

def digits4 : Reader Nat
  | a :: b :: c :: d :: rest => do
    let a ← Hex.value? a
    let b ← Hex.value? b
    let c ← Hex.value? c
    let d ← Hex.value? d
    return (((a * 16 + b) * 16 + c) * 16 + d, rest)
  | _ => none

def lowHalf : Reader Nat
  | '\\' :: 'u' :: rest => digits4 rest
  | _ => none

def half (n : Nat) (cs : List Char) : Char × List Char :=
  match (lowHalf cs).bind fun (m, rest) => (pair? n m).map (·, rest) with
  | some r => r
  | none => (Utf8.replacement, cs)

def escapedUnit (cs : List Char) : Option (Char × List Char) := do
  let (n, rest) ← digits4 cs
  if isHighSurrogate n || isLowSurrogate n then return half n rest
  else return (Char.ofNat n, rest)

def escapedChar? : Char → Option Char
  | '"' => some '"'
  | '\\' => some '\\'
  | '/' => some '/'
  | 'b' => some '\x08'
  | 'f' => some '\x0c'
  | 'n' => some '\n'
  | 'r' => some '\r'
  | 't' => some '\t'
  | _ => none

def stringBody : Nat → Reader (List Char)
  | 0, _ => none
  | _ + 1, [] => none
  | _ + 1, '"' :: rest => some ([], rest)
  | fuel + 1, '\\' :: 'u' :: rest => do
    let (c, rest) ← escapedUnit rest
    let (cs, rest) ← stringBody fuel rest
    return (c :: cs, rest)
  | fuel + 1, '\\' :: e :: rest => do
    let c ← escapedChar? e
    let (cs, rest) ← stringBody fuel rest
    return (c :: cs, rest)
  | fuel + 1, c :: rest =>
    if c = '\\' || c.toNat < 32 then none
    else do
      let (cs, rest) ← stringBody fuel rest
      return (c :: cs, rest)

def string : Reader String
  | '"' :: rest => do
    let (cs, rest) ← stringBody (rest.length + 1) rest
    return (String.ofList cs, rest)
  | _ => none

def digits : Reader (List Char) := fun cs =>
  let ds := cs.takeWhile Decimal.isDigit
  if ds.isEmpty then none else some (ds, cs.dropWhile Decimal.isDigit)

def oneOf (choices : List Char) : List Char → List Char × List Char
  | c :: rest => if choices.contains c then ([c], rest) else ([], c :: rest)
  | [] => ([], [])

def natural : Reader (List Char)
  | '0' :: rest => some (['0'], rest)
  | cs => digits cs

def fraction : Reader (List Char)
  | '.' :: rest => (digits rest).map fun (ds, rest) => ('.' :: ds, rest)
  | cs => some ([], cs)

def exponent (cs : List Char) : Option (List Char × List Char) :=
  match oneOf ['e', 'E'] cs with
  | ([], _) => some ([], cs)
  | (e, rest) =>
    let (sign, rest) := oneOf ['+', '-'] rest
    (digits rest).map fun (ds, rest) => (e ++ sign ++ ds, rest)

def number : Reader Tree := fun cs => do
  let (sign, rest) := oneOf ['-'] cs
  let (ds, rest) ← natural rest
  let (fs, rest) ← fraction rest
  let (es, rest) ← exponent rest
  return (.number (.written (String.ofList (sign ++ ds ++ fs ++ es))), rest)

def word (expected : List Char) (t : Tree) : Reader Tree := fun cs =>
  if expected.isPrefixOf cs then some (t, cs.drop expected.length) else none

def items {α : Type} (item : Reader α) (close : Char) : Nat → Reader (List α)
  | 0, _ => none
  | fuel + 1, cs => do
    let (a, rest) ← item (skipBlank cs)
    match skipBlank rest with
    | ',' :: rest =>
      let (as, rest) ← items item close fuel rest
      return (a :: as, rest)
    | c :: rest => if c = close then return ([a], rest) else none
    | [] => none

def bracketed {α : Type} (item : Reader α) (close : Char) : Reader (List α) := fun cs =>
  match skipBlank cs with
  | [] => none
  | c :: rest => if c = close then some ([], rest) else items item close (cs.length + 1) (c :: rest)

def entry (value : Reader Tree) : Reader (String × Tree) := fun cs => do
  let (key, rest) ← string cs
  match skipBlank rest with
  | ':' :: rest =>
    let (t, rest) ← value rest
    return ((key, t), rest)
  | _ => none

def value (depth : Nat) : Reader Tree := fun cs =>
  match skipBlank cs with
  | '"' :: rest => (string ('"' :: rest)).map fun (s, rest) => (.text s, rest)
  | 't' :: rest => word ['r', 'u', 'e'] (.bool true) rest
  | 'f' :: rest => word ['a', 'l', 's', 'e'] (.bool false) rest
  | 'n' :: rest => word ['u', 'l', 'l'] .null rest
  | '[' :: rest =>
    match depth with
    | 0 => none
    | depth + 1 => (bracketed (value depth) ']' rest).map fun (ts, rest) => (.list ts, rest)
  | '\x7b' :: rest =>
    match depth with
    | 0 => none
    | depth + 1 =>
      (bracketed (entry (value depth)) '\x7d' rest).map fun (es, rest) => (objectOf es, rest)
  | c :: rest => number (c :: rest)
  | [] => none

def read? (source : String) : Option Tree :=
  (value maxDepth source.toList).map (·.1)

end BlockIR.Json.Strict
