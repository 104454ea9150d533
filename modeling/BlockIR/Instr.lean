import BlockIR.Number.Decimal
import BlockIR.Text

namespace BlockIR

inductive Ty where
  | int
  | bool
deriving DecidableEq

namespace Ty

def name : Ty → String
  | int => "int"
  | bool => "bool"

def ofName? (s : Text) : Option Ty :=
  if s = "int" then some int else if s = "bool" then some bool else none

def display : Ty → String
  | int => "Int"
  | bool => "Bool"

def displayOption : Option Ty → String
  | none => "void"
  | some t => t.display

@[simp] theorem ofName?_name (t : Ty) : ofName? t.name = some t := by
  cases t <;> rfl

theorem ofName?_eq_some {s : Text} {t : Ty} : ofName? s = some t ↔ s = t.name := by
  constructor
  · intro h
    unfold ofName? at h
    split at h
    · cases h; assumption
    · split at h
      · cases h; assumption
      · cases h
  · rintro rfl
    exact ofName?_name t

end Ty

inductive Literal where
  | int (n : Int64)
  | bool (b : Bool)
deriving DecidableEq

namespace Literal

def display : Literal → String
  | int n => Decimal.ofInt n.toInt
  | bool b => if b then "true" else "false"

end Literal

inductive Group where
  | const
  | arithmetic
  | comparison
  | logic
  | control
  | misc
deriving DecidableEq

inductive Op where
  | const
  | add
  | sub
  | mul
  | div
  | eq
  | lt
  | gt
  | le
  | ge
  | not
  | and
  | or
  | jmp
  | br
  | call
  | ret
  | id
  | print
  | nop
deriving DecidableEq

namespace Op

def all : List Op :=
  [const, add, sub, mul, div, eq, lt, gt, le, ge, not, and, or, jmp, br, call, ret, id, print, nop]

def mnemonic : Op → String
  | const => "const"
  | add => "add"
  | sub => "sub"
  | mul => "mul"
  | div => "div"
  | eq => "eq"
  | lt => "lt"
  | gt => "gt"
  | le => "le"
  | ge => "ge"
  | not => "not"
  | and => "and"
  | or => "or"
  | jmp => "jmp"
  | br => "br"
  | call => "call"
  | ret => "ret"
  | id => "id"
  | print => "print"
  | nop => "nop"

def display : Op → String
  | const => "Const"
  | add => "Add"
  | sub => "Sub"
  | mul => "Mul"
  | div => "Div"
  | eq => "Eq"
  | lt => "Lt"
  | gt => "Gt"
  | le => "Le"
  | ge => "Ge"
  | not => "Not"
  | and => "And"
  | or => "Or"
  | jmp => "Jmp"
  | br => "Br"
  | call => "Call"
  | ret => "ret"
  | id => "Id"
  | print => "Print"
  | nop => "Nop"

def group : Op → Group
  | const => .const
  | add | sub | mul | div => .arithmetic
  | eq | lt | gt | le | ge => .comparison
  | not | and | or => .logic
  | jmp | br | call | ret => .control
  | id | print | nop => .misc

def ofMnemonic? (s : Text) : Option Op :=
  all.find? fun op => s = op.mnemonic

def isTerminator : Op → Bool
  | jmp | br | ret => true
  | _ => false

theorem mem_all (op : Op) : op ∈ all := by
  cases op <;> decide

@[simp] theorem ofMnemonic?_mnemonic (op : Op) : ofMnemonic? op.mnemonic = some op := by
  cases op <;> rfl

theorem eq_of_ofMnemonic?_eq_some {s : Text} {op : Op} (h : ofMnemonic? s = some op) :
    s = op.mnemonic := by
  simpa using List.find?_some h

end Op

structure Instr where
  op : Op
  dest : Option Text := none
  type : Option Ty := none
  args : List Text := []
  funcs : List Text := []
  labels : List Text := []
  value : Option Literal := none
deriving DecidableEq

namespace Instr

def isTerminator (i : Instr) : Bool :=
  i.op.isTerminator

def display (i : Instr) : String :=
  String.join
    ((match i.dest with
      | none => []
      | some x => [x.shown, ": ", Ty.displayOption i.type, " = "]) ++
    [i.op.display] ++
    (match i.value with
      | none => []
      | some v => [" ", v.display]) ++
    i.funcs.map (" @" ++ ·.shown) ++
    i.args.map (" " ++ ·.shown) ++
    i.labels.map (" ." ++ ·.shown) ++
    [";"])

end Instr

end BlockIR
