import BlockIR.Listing
import BlockIR.Program

namespace BlockIR

namespace Listing

def OperandValue.render : OperandValue → String
  | func x => "@" ++ x.text.shown
  | label x => "." ++ x.text.shown
  | int n => Decimal.ofInt n.toInt
  | bool b => if b then "true" else "false"
  | arg x => x.text.shown

def Operand.render (o : Operand) : String :=
  o.value.render

def Param.render (p : Param) : String :=
  String.join [p.name.text.shown, ": ", p.type.text.shown]

def Label.render (l : Label) : String :=
  String.join [".", l.name.text.shown, ":"]

def Target.render (t : Target) : String :=
  String.join [t.dest.text.shown, ": ", t.type.text.shown, " = "]

def Instr.render (i : Instr) : String :=
  String.join
    ([(i.target.map Target.render).getD "", i.op.text.shown] ++
    i.operands.map (fun o => " " ++ o.render) ++ [";"])

def Item.render : Item → String
  | label l => l.render ++ "\n"
  | instr i => String.join ["  ", i.render, "\n"]

def Func.render (f : Func) : String :=
  String.join
    [ "@", f.name.text.shown,
      if f.params.isEmpty then ""
      else String.join ["(", String.intercalate ", " (f.params.map Param.render), ")"],
      (f.type.map fun t => ": " ++ t.text.shown).getD "",
      " \x7b\n", String.join (f.body.map Item.render), "\x7d\n" ]

def render (l : Listing) : String :=
  String.intercalate "\n" (l.funcs.map Func.render)

def typeName : Option Ty → Name
  | none => ⟨.plain "void", nowhere⟩
  | some t => ⟨.plain t.name, nowhere⟩

def ofLiteral : Literal → OperandValue
  | .int n => .int n
  | .bool b => .bool b

def operandsOf (i : BlockIR.Instr) : List OperandValue :=
  (i.value.map ofLiteral).toList ++
  i.funcs.map (fun x => .func ⟨x, nowhere⟩) ++
  i.args.map (fun x => .arg ⟨x, nowhere⟩) ++
  i.labels.map (fun x => .label ⟨x, nowhere⟩)

def ofInstr (i : BlockIR.Instr) : Instr where
  target := i.dest.map fun x => ⟨⟨x, nowhere⟩, typeName i.type⟩
  op := ⟨.plain i.op.mnemonic, nowhere⟩
  operands := (operandsOf i).map fun v => ⟨v, nowhere⟩

def ofBlock (b : Block) : List Item :=
  .label ⟨⟨b.name, nowhere⟩, nowhere⟩ :: b.instrs.map fun i => .instr (ofInstr i)

def ofFunc (f : BlockIR.Func) : Func where
  name := ⟨f.name, nowhere⟩
  params := f.params.map fun p => ⟨⟨p.name, nowhere⟩, typeName p.type⟩
  type := f.ret.map fun t => typeName (some t)
  body := f.blocks.flatMap ofBlock

end Listing

namespace Program

def toListing (p : Program) : Listing :=
  ⟨p.funcs.map Listing.ofFunc⟩

def format (p : Program) : String :=
  p.toListing.render

end Program

end BlockIR
