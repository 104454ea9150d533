import BlockIR.Listing
import BlockIR.Listing.Failure
import BlockIR.Tree

namespace BlockIR.Listing

namespace Operand

def func? (o : Operand) : Option Text :=
  match o.value with
  | .func x => some x.text
  | _ => none

def label? (o : Operand) : Option Text :=
  match o.value with
  | .label x => some x.text
  | _ => none

def arg? (o : Operand) : Option Text :=
  match o.value with
  | .arg x => some x.text
  | _ => none

def literal? (o : Operand) : Option (Tree × Position) :=
  match o.value with
  | .int n => some (.number (.word n), o.pos)
  | .bool b => some (.bool b, o.pos)
  | _ => none

end Operand

def textsField (key : String) : List Text → List (String × Tree)
  | [] => []
  | ss => [(key, .list (ss.map .text))]

def valueField (file : String) : List (Tree × Position) → Except SourceFailure (List (String × Tree))
  | [] => .ok []
  | [(v, _)] => .ok [("value", v)]
  | _ :: (_, p) :: _ => .error ⟨p.inFile file, .secondLiteral⟩

def targetFields : Option Target → List (String × Tree)
  | none => []
  | some t => [("dest", .text t.dest.text), ("type", .text t.type.text)]

def Instr.toTree (file : String) (i : Instr) : Except SourceFailure Tree := do
  let value ← valueField file (i.operands.filterMap Operand.literal?)
  return .object (
    ("op", .text i.op.text) :: targetFields i.target ++ value ++
    textsField "args" (i.operands.filterMap Operand.arg?) ++
    textsField "funcs" (i.operands.filterMap Operand.func?) ++
    textsField "labels" (i.operands.filterMap Operand.label?))

def Item.toTree (file : String) : Item → Except SourceFailure Tree
  | label l => .ok (.object [("label", .text l.name.text)])
  | instr i => i.toTree file

def Param.toTree (p : Param) : Tree :=
  .object [("name", .text p.name.text), ("type", .text p.type.text)]

def paramsField : List Param → List (String × Tree)
  | [] => []
  | ps => [("args", .list (ps.map Param.toTree))]

def typeField : Option Name → List (String × Tree)
  | none => []
  | some t => [("type", .text t.text)]

def Func.toTree (file : String) (f : Func) : Except SourceFailure Tree := do
  let instrs ← f.body.mapM (Item.toTree file)
  return .object (
    ("name", .text f.name.text) :: paramsField f.params ++ typeField f.type ++
    [("instrs", .list instrs)])

def toTree (file : String) (l : Listing) : Except SourceFailure Tree := do
  let funcs ← l.funcs.mapM (Func.toTree file)
  return .object [("functions", .list funcs)]

end BlockIR.Listing
