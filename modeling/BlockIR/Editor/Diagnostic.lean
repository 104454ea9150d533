import BlockIR.Listing
import BlockIR.Report

namespace BlockIR.Editor

structure Point where
  line : UInt32
  character : UInt32
deriving DecidableEq

structure Range where
  start : Point
  stop : Point
deriving DecidableEq

def Range.ofLine (line column length : Int) : Range :=
  let l := UInt32.ofNat (max line 1 - 1).toNat
  let c := (max column 1 - 1).toNat
  ⟨⟨l, .ofNat c⟩, ⟨l, .ofNat (c + (max length 1).toNat)⟩⟩

def Range.ofName (x : Listing.Name) : Range :=
  ofLine x.pos.line x.pos.column x.text.size

structure Diagnostic where
  range : Range
  code : String
  source : String
  message : String
deriving DecidableEq

structure NegativeIndex where
  index : Int
deriving DecidableEq

def NegativeIndex.message (e : NegativeIndex) : String :=
  String.join ["runtime error: index out of range [", Decimal.ofInt e.index, "]"]

namespace Diagnostic

def severity : Nat := 1

def dropFront? (front cs : List Char) : Option (List Char) :=
  if front.isPrefixOf cs then some (cs.drop front.length) else none

def index? (key segment : String) : Option Int := do
  let cs ← dropFront? (key.toList ++ ['[']) segment.toList
  let ds ← dropFront? [']'] cs.reverse
  let n ← (Decimal.readInt64 (String.ofList ds.reverse)).toOption
  return n.toInt

def item? {α : Type} (xs : List α) (i : Int) : Except NegativeIndex (Option α) :=
  if i < 0 then .error ⟨i⟩ else .ok xs[i.toNat]?

def opName? (f : Listing.Func) (i : Int) : Except NegativeIndex (Option Listing.Name) := do
  match ← item? f.body i with
  | some (.instr i) => return some i.op
  | _ => return none

def nameAt? (l : Listing) (path : List String) : Except NegativeIndex (Option Listing.Name) := do
  match path[0]? >>= index? "functions" with
  | none => return none
  | some i =>
    match ← item? l.funcs i with
    | none => return none
    | some f =>
      match path[1]? >>= index? "instrs" with
      | none => return some f.name
      | some j => return some ((← opName? f j).getD f.name)

def rangeOf (path : List String) : Option Listing → Except NegativeIndex Range
  | none => .ok (.ofLine 1 1 1)
  | some l => (nameAt? l path).map fun
    | some x => .ofName x
    | none => .ofLine 1 1 1

def ofFailure (e : Failure) (l? : Option Listing) : Except NegativeIndex Diagnostic :=
  let r := Report.ofFailure e
  match e.source?, e.decode? with
  | some s, _ => .ok ⟨.ofLine s.place.line s.place.column 1, r.code, "mycfg-parser", r.message⟩
  | none, some d => (rangeOf d.path l?).map fun range =>
      ⟨range, r.code, "mycfg-decoder", String.join [d.location, ": ", r.message]⟩
  | none, none => .ok ⟨⟨⟨0, 0⟩, ⟨0, 0⟩⟩, r.code, "mycfg", r.message⟩

end Diagnostic

end BlockIR.Editor
