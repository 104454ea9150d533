import BlockIR.Number.Decimal

namespace BlockIR

structure Position where
  line : Nat
  column : Nat
  offset : Nat
deriving DecidableEq

namespace Position

def start : Position := ⟨1, 1, 0⟩

def next (p : Position) (c : Char) : Position :=
  if c = '\n' then ⟨p.line + 1, 1, p.offset + 1⟩
  else ⟨p.line, p.column + 1, p.offset + c.utf8Size⟩

def after (p : Position) (cs : List Char) : Position :=
  cs.foldl next p

@[simp] theorem after_nil (p : Position) : p.after [] = p := rfl

@[simp] theorem after_append (p : Position) (cs ds : List Char) :
    p.after (cs ++ ds) = (p.after cs).after ds := by
  simp [after]

end Position

structure Place where
  file : String
  line : Int
  column : Int
deriving DecidableEq

namespace Place

def display (p : Place) : String :=
  String.join ((if p.file = "" then [] else [p.file, ":"]) ++
    [Decimal.ofInt p.line, ":", Decimal.ofInt p.column])

end Place

namespace Position

def inFile (p : Position) (file : String) : Place :=
  ⟨file, p.line, p.column⟩

end Position

end BlockIR
