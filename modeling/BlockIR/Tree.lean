import BlockIR.Number.Binary64.Display
import BlockIR.Table
import BlockIR.Text.Order

namespace BlockIR

/-- A number of a tree: as it was written, or already a 64-bit integer (of the machine's own width or
of a fixed one), a real number, too great for one, or no number at all. -/
inductive Numeral where
  | written (text : String)
  | machine (n : Int64)
  | word (n : Int64)
  | real (x : Binary64)
  | infinite (negative : Bool)
  | undefined
deriving DecidableEq

inductive Tree where
  | null
  | bool (b : Bool)
  | number (n : Numeral)
  | text (s : Text)
  | texts (items : List Text)
  | list (items : List Tree)
  | object (fields : List (String × Tree))

namespace Numeral

def kind : Numeral → String
  | written _ => "json.Number"
  | machine _ => "int"
  | word _ => "int64"
  | real _ | infinite _ | undefined => "float64"

def display : Numeral → String
  | written text => text
  | machine n => Decimal.ofInt n.toInt
  | word n => Decimal.ofInt n.toInt
  | real x => x.display
  | infinite negative => if negative then "-Inf" else "+Inf"
  | undefined => "NaN"

def toInt64? : Numeral → Option Int64
  | written text => (Decimal.readInt64 text).toOption
  | machine n => some n
  | word n => some n
  | real x => x.toInt?.bind fun n =>
      if Int64.minValue.toInt ≤ n ∧ n ≤ Int64.maxValue.toInt then some (Int64.ofInt n) else none
  | infinite _ => none
  | undefined => none

end Numeral

namespace Tree

def kind : Tree → String
  | null => "<nil>"
  | bool _ => "bool"
  | number n => n.kind
  | text _ => "string"
  | texts _ => "[]string"
  | list _ => "[]interface \x7b\x7d"
  | object _ => "map[string]interface \x7b\x7d"

def displayBool (b : Bool) : String :=
  if b then "true" else "false"

def displayList (items : List String) : String :=
  "[" ++ String.intercalate " " items ++ "]"

def displayFields (fields : Table String String) : String :=
  let sorted := fields.mergeSort fun e f => Text.le e.1 f.1
  "map[" ++ String.intercalate " " (sorted.map fun f => f.1 ++ ":" ++ f.2) ++ "]"

mutual

def display : Tree → String
  | null => "<nil>"
  | bool b => displayBool b
  | number n => n.display
  | text s => s.shown
  | texts items => displayList (items.map Text.shown)
  | list items => displayList (displayItems items)
  | object fields => displayFields (displayEntries fields)

def displayItems : List Tree → List String
  | [] => []
  | t :: ts => display t :: displayItems ts

def displayEntries : List (String × Tree) → Table String String
  | [] => []
  | (k, t) :: es => (k, display t) :: displayEntries es

end

def field? (fields : Table String Tree) (key : String) : Option Tree :=
  Table.get? fields key

def items? : Tree → Option (List Tree)
  | texts ss => some (ss.map text)
  | list ts => some ts
  | _ => none

end Tree

end BlockIR
