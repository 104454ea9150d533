import BlockIR.Listing.Render

namespace BlockIR.Editor

inductive TokenClass where
  | block
  | type
  | function
  | var
  | parameter
  | keyword
  | number
deriving DecidableEq

namespace TokenClass

def all : List TokenClass :=
  [block, type, function, var, parameter, keyword, number]

def name : TokenClass → String
  | block => "namespace"
  | type => "type"
  | function => "function"
  | var => "variable"
  | parameter => "parameter"
  | keyword => "keyword"
  | number => "number"

def index (k : TokenClass) : Nat :=
  all.idxOf k

end TokenClass

def markNames : List String :=
  ["declaration"]

structure Highlight where
  line : UInt32
  start : UInt32
  length : UInt32
  kind : TokenClass
  declares : Bool := false
deriving DecidableEq

namespace Highlight

def ofText (kind : TokenClass) (declares : Bool) (p : Position) (text : Text) : List Highlight :=
  -- What was not read from a source has no place.
  if p.line = 0 ∨ text = "" then []
  else [⟨.ofNat (p.line - 1), .ofNat (p.column - 1), .ofNat text.size, kind, declares⟩]

def ofName (kind : TokenClass) (declares : Bool) (x : Listing.Name) : List Highlight :=
  ofText kind declares x.pos x.text

def ofParam (p : Listing.Param) : List Highlight :=
  ofName .parameter true p.name ++ ofName .type false p.type

def ofTarget (t : Listing.Target) : List Highlight :=
  ofName .var true t.dest ++ ofName .type false t.type

def ofOperand (o : Listing.Operand) : List Highlight :=
  match o.value with
  | .func x => ofName .function false x
  | .label x => ofName .block false x
  | .arg x => ofName .var false x
  | .int _ => ofText .number false o.pos o.render
  | .bool _ => ofText .keyword false o.pos o.render

def ofInstr (i : Listing.Instr) : List Highlight :=
  (i.target.map ofTarget).getD [] ++ (ofName .keyword false i.op ++ i.operands.flatMap ofOperand)

def ofItem : Listing.Item → List Highlight
  | .label l => ofName .block true l.name
  | .instr i => ofInstr i

def ofFunc (f : Listing.Func) : List Highlight :=
  ofName .function true f.name ++ (f.params.flatMap ofParam ++
    ((f.type.map (ofName .type false)).getD [] ++ f.body.flatMap ofItem))

def ofListing (l : Listing) : List Highlight :=
  l.funcs.flatMap ofFunc

def encodeFrom (line start : UInt32) : List Highlight → List UInt32
  | [] => []
  | h :: hs =>
    let down := h.line - line
    let right := if down = 0 then h.start - start else h.start
    [down, right, h.length, .ofNat h.kind.index, if h.declares then 1 else 0] ++
      encodeFrom h.line h.start hs

def encode (hs : List Highlight) : List UInt32 :=
  encodeFrom 0 0 hs

end Highlight

end BlockIR.Editor
