import BlockIR.Instr

namespace BlockIR

inductive Presence where
  | forbidden
  | required
  | optional
deriving DecidableEq

structure Shape where
  dest : Presence := .forbidden
  minArgs : Nat := 0
  maxArgs : Option Nat := some 0
  funcs : Nat := 0
  labels : Nat := 0
  value : Presence := .forbidden
deriving DecidableEq

namespace Shape

def unary : Shape :=
  { dest := .required, minArgs := 1, maxArgs := some 1 }

def binary : Shape :=
  { dest := .required, minArgs := 2, maxArgs := some 2 }

def ofOp : Op → Shape
  | .const => { dest := .required, value := .required }
  | .add | .sub | .mul | .div => binary
  | .eq | .lt | .gt | .le | .ge => binary
  | .not => unary
  | .and | .or => binary
  | .jmp => { labels := 1 }
  | .br => { minArgs := 1, maxArgs := some 1, labels := 2 }
  | .call => { dest := .optional, maxArgs := none, funcs := 1 }
  | .ret => { maxArgs := some 1 }
  | .id => unary
  | .print => { maxArgs := none }
  | .nop => {}

end Shape

inductive ShapeFault where
  | destWithoutType
  | destRequired
  | destForbidden
  | argsNot (expected found : Nat)
  | argsAbove (limit found : Nat)
  | funcsNot (expected found : Nat)
  | labelsNot (expected found : Nat)
  | valueRequired
  | valueForbidden
deriving DecidableEq

namespace ShapeFault

def count (verb : String) (expected : Nat) (field : String) (found : Nat) : String :=
  String.join [verb, " ", Decimal.ofNat expected, " ", field, ", got ", Decimal.ofNat found]

def message (op : Op) : ShapeFault → String
  | destWithoutType => op.mnemonic ++ ": \"dest\" and \"type\" must appear together"
  | destRequired => op.mnemonic ++ " requires a destination"
  | destForbidden => op.mnemonic ++ " does not take a destination"
  | argsNot expected found => op.mnemonic ++ count " requires exactly" expected "args" found
  | argsAbove limit found => op.mnemonic ++ count " takes at most" limit "args" found
  | funcsNot expected found => op.mnemonic ++ count " requires exactly" expected "funcs" found
  | labelsNot expected found => op.mnemonic ++ count " requires exactly" expected "labels" found
  | valueRequired => op.mnemonic ++ " requires a value"
  | valueForbidden => op.mnemonic ++ " does not take a value"

end ShapeFault

namespace Instr

def argsFault? (s : Shape) (n : Nat) : Option ShapeFault :=
  match s.maxArgs with
  | none => none
  | some m =>
    if n < s.minArgs ∨ m < n then
      some (if s.minArgs = m then .argsNot m n else .argsAbove m n)
    else none

def shapeFault? (i : Instr) : Option ShapeFault :=
  let s := Shape.ofOp i.op
  if i.dest.isSome ≠ i.type.isSome then some .destWithoutType
  else if s.dest = .required ∧ i.dest = none then some .destRequired
  else if s.dest = .forbidden ∧ i.dest ≠ none then some .destForbidden
  else match argsFault? s i.args.length with
    | some fault => some fault
    | none =>
      if i.funcs.length ≠ s.funcs then some (.funcsNot s.funcs i.funcs.length)
      else if i.labels.length ≠ s.labels then some (.labelsNot s.labels i.labels.length)
      else if s.value = .required ∧ i.value = none then some .valueRequired
      else if s.value = .forbidden ∧ i.value ≠ none then some .valueForbidden
      else none

end Instr

end BlockIR
