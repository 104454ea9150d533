import BlockIR.Tree

namespace BlockIR

inductive NumberKind where
  | word
  | machine
  | real
deriving DecidableEq

namespace NumberKind

def realOf (text : String) : Numeral :=
  match Decimal.readScientific? text.toList with
  | none => .written text
  | some n =>
    match Binary64.ofScientific? n with
    | some x => .real x
    | none => .infinite n.negative

def convert : NumberKind → Numeral → Numeral
  | word, .written text =>
    match Decimal.readInt64 text with
    | .ok n => .word n
    | .error _ => realOf text
  | machine, .written text =>
    match Decimal.readInt64 text with
    | .ok n => .machine n
    | .error _ => realOf text
  | real, .written text => realOf text
  | _, n => n

end NumberKind

namespace Tree

def allTexts? : List Tree → Option (List Text)
  | [] => some []
  | text s :: ts => (allTexts? ts).map (s :: ·)
  | _ :: _ => none

def listOf (kind : NumberKind) (items : List Tree) : Tree :=
  if kind = .machine && !items.isEmpty then
    match allTexts? items with
    | some ss => texts ss
    | none => list items
  else list items

mutual

def withNumbers (kind : NumberKind) : Tree → Tree
  | number n => number (kind.convert n)
  | list items => listOf kind (itemsWithNumbers kind items)
  | object fields => object (fieldsWithNumbers kind fields)
  | t => t

def itemsWithNumbers (kind : NumberKind) : List Tree → List Tree
  | [] => []
  | t :: ts => withNumbers kind t :: itemsWithNumbers kind ts

def fieldsWithNumbers (kind : NumberKind) : List (String × Tree) → List (String × Tree)
  | [] => []
  | (k, t) :: es => (k, withNumbers kind t) :: fieldsWithNumbers kind es

end

end Tree

end BlockIR
