import BlockIR.Text
import BlockIR.Text.Position

namespace BlockIR

namespace Listing

def nowhere : Position := ⟨0, 0, 0⟩

structure Name where
  text : Text
  pos : Position := nowhere
deriving DecidableEq

structure Param where
  name : Name
  type : Name
deriving DecidableEq

inductive OperandValue where
  | func (name : Name)
  | label (name : Name)
  | int (n : Int64)
  | bool (b : Bool)
  | arg (name : Name)
deriving DecidableEq

structure Operand where
  value : OperandValue
  pos : Position := nowhere
deriving DecidableEq

structure Target where
  dest : Name
  type : Name
deriving DecidableEq

structure Instr where
  target : Option Target
  op : Name
  operands : List Operand
  pos : Position := nowhere
deriving DecidableEq

structure Label where
  name : Name
  pos : Position := nowhere
deriving DecidableEq

inductive Item where
  | label (l : Label)
  | instr (i : Instr)
deriving DecidableEq

structure Func where
  name : Name
  params : List Param
  type : Option Name
  body : List Item
  pos : Position := nowhere
deriving DecidableEq

end Listing

structure Listing where
  funcs : List Listing.Func
deriving DecidableEq

end BlockIR
