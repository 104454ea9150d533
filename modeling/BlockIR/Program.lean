import BlockIR.Instr

namespace BlockIR

structure Block where
  name : Text
  instrs : List Instr
deriving DecidableEq

namespace Block

def last? (b : Block) : Option Instr :=
  b.instrs.getLast?

def display (b : Block) : String :=
  String.join ((String.join [".", b.name.shown, ":\n"]) ::
    b.instrs.map fun i => String.join ["    ", i.display, "\n"])

end Block

structure Param where
  name : Text
  type : Option Ty
deriving DecidableEq

namespace Param

def display (p : Param) : String :=
  String.join [p.name.shown, ": ", Ty.displayOption p.type]

end Param

structure Func where
  name : Text
  params : List Param := []
  ret : Option Ty := none
  blocks : List Block := []
deriving DecidableEq

namespace Func

def block? (f : Func) (name : Text) : Option Block :=
  f.blocks.find? fun b => b.name = name

def instrs (f : Func) : List Instr :=
  f.blocks.flatMap Block.instrs

def size (f : Func) : Nat :=
  f.instrs.length

def display (f : Func) : String :=
  String.join
    [ "@", f.name.shown, "(", String.intercalate "," (f.params.map Param.display), "): ",
      Ty.displayOption f.ret, " \x7b\n", String.join (f.blocks.map Block.display), "\x7d\n" ]

end Func

structure Program where
  funcs : List Func
deriving DecidableEq

namespace Program

def func? (p : Program) (name : Text) : Option Func :=
  p.funcs.find? fun f => f.name = name

def map (p : Program) (g : Func → Func) : Program :=
  ⟨p.funcs.map g⟩

def display (p : Program) : String :=
  String.intercalate "\n" (p.funcs.map Func.display)

end Program

end BlockIR
