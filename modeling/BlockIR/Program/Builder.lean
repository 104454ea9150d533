import BlockIR.Program

/-! Cutting a stream of labels and instructions into blocks. A label or a terminator ends the block
being built, and a block that no label names is called by its number. -/

namespace BlockIR

inductive Item where
  | label (name : Text)
  | instr (i : Instr)
deriving DecidableEq

structure BlockBuilder where
  finished : List Block := []
  pending : List Instr := []
  label? : Option Text := none
deriving DecidableEq

namespace BlockBuilder

def numbered (k : Nat) : String :=
  "block_" ++ Decimal.ofNat k

def close (b : BlockBuilder) : BlockBuilder :=
  if b.pending.isEmpty then b
  else
    let name := b.label?.getD (numbered b.finished.length)
    { finished := b.finished ++ [⟨name, b.pending⟩] }

def label (b : BlockBuilder) (name : Text) : BlockBuilder :=
  { b.close with label? := some name }

def add (b : BlockBuilder) (i : Instr) : BlockBuilder :=
  let b := { b with pending := b.pending ++ [i] }
  if i.isTerminator then b.close else b

def feed (b : BlockBuilder) : Item → BlockBuilder
  | .label name => b.label name
  | .instr i => b.add i

def blocks (b : BlockBuilder) : List Block :=
  b.close.finished

end BlockBuilder

def Block.ofItems (items : List Item) : List Block :=
  (items.foldl BlockBuilder.feed {}).blocks

end BlockIR
