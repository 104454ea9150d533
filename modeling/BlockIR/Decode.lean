import BlockIR.Decode.Failure
import BlockIR.Program.Builder

/-! Programs from trees. Each reader is told the path to what it reads, which is where it fails. Decoding stops
at the first failure. -/

namespace BlockIR.Decode

abbrev Result (α : Type) := Except DecodeFailure α

abbrev Path := List String

abbrev Reader (α : Type) := Path → Tree → Result α

variable {α : Type}

def fail (path : Path) (cause : DecodeCause) : Result α :=
  .error ⟨path, cause⟩

def child (path : Path) (segment : String) : Path :=
  path ++ [segment]

def nth (key : String) (i : Nat) : String :=
  String.join [key, "[", Decimal.ofNat i, "]"]

def index (path : Path) (key : String) (i : Nat) : Path :=
  child path (nth key i)

def asObjectAt (path : Path) : Tree → Result (Table String Tree)
  | .object fields => .ok fields
  | t => fail path (.notObject t)

def asListAt (path : Path) (t : Tree) : Result (List Tree) :=
  match t.items? with
  | some ts => .ok ts
  | none => fail path (.notList t)

def asTextAt (path : Path) : Tree → Result Text
  | .text s => .ok s
  | t => fail path (.notText t)

def asTyAt (path : Path) : Tree → Result Ty
  | .text s =>
    match Ty.ofName? s with
    | some t => .ok t
    | none => fail path (.invalidType (.text s))
  | t => fail path (.invalidType t)

def asLiteralAt (path : Path) : Tree → Result Literal
  | .bool b => .ok (.bool b)
  | .number n =>
    match n.toInt64? with
    | some k => .ok (.int k)
    | none => fail path (.notInteger n)
  | t => fail path (.notLiteral t)

def optionalAt (read : Reader α) (path : Path) (fields : Table String Tree) (key : String) : Result (Option α) :=
  match fields.get? key with
  | none => .ok none
  | some t => (read (child path key) t).map some

def requiredAt (read : Reader α) (path : Path) (fields : Table String Tree) (key : String) : Result α := do
  match ← optionalAt read path fields key with
  | some a => return a
  | none => fail path (.missingField key)

def eachFromAt (read : Reader α) (path : Path) (key : String) : Nat → List Tree → Result (List α)
  | _, [] => .ok []
  | i, t :: ts => do
    let a ← read (index path key i) t
    let as ← eachFromAt read path key (i + 1) ts
    return a :: as

def listAt (read : Reader α) (path : Path) (fields : Table String Tree) (key : String) : Result (List α) := do
  let ts ← optionalAt asListAt path fields key
  eachFromAt read path key 0 (ts.getD [])

def asOpAt (path : Path) (s : Text) : Result Op :=
  match Op.ofMnemonic? s with
  | some op => .ok op
  | none => fail path (.unknownOpcode s)

def opAt (path : Path) (fields : Table String Tree) : Result Op := do
  let s ← requiredAt asTextAt path fields "op"
  asOpAt (child path "op") s

def destAt (path : Path) (fields : Table String Tree) : Result (Option Text) := do
  let dest ← optionalAt asTextAt path fields "dest"
  if dest = some "" then fail (child path "dest") .emptyDestination else return dest

def shapedAt (path : Path) (i : Instr) : Result Instr :=
  match i.shapeFault? with
  | none => .ok i
  | some fault => fail path (.shape i.op fault)

def instrFieldsAt (path : Path) (fields : Table String Tree) : Result Instr := do
  let op ← opAt path fields
  let dest ← destAt path fields
  let type ← optionalAt asTyAt path fields "type"
  let args ← listAt asTextAt path fields "args"
  let funcs ← listAt asTextAt path fields "funcs"
  let labels ← listAt asTextAt path fields "labels"
  let value ← optionalAt asLiteralAt path fields "value"
  shapedAt path ⟨op, dest, type, args, funcs, labels, value⟩

def instr (t : Tree) : Result Instr := do
  let fields ← asObjectAt [] t
  instrFieldsAt [] fields

def itemAt (path : Path) (t : Tree) : Result Item := do
  let fields ← asObjectAt path t
  if (fields.get? "op").isSome then
    return .instr (← instrFieldsAt path fields)
  else if (fields.get? "label").isSome then
    return .label (← requiredAt asTextAt path fields "label")
  else fail path .neitherOpNorLabel

def blocksAt (path : Path) (ts : List Tree) : Result (List Block) := do
  let items ← eachFromAt itemAt path "instrs" 0 ts
  return Block.ofItems items

def blocks (ts : List Tree) : Result (List Block) :=
  blocksAt [] ts

def paramAt (path : Path) (t : Tree) : Result Param := do
  let fields ← asObjectAt path t
  let name ← requiredAt asTextAt path fields "name"
  let type ← requiredAt asTyAt path fields "type"
  return ⟨name, some type⟩

def funcAt (path : Path) (t : Tree) : Result Func := do
  let fields ← asObjectAt path t
  let name ← requiredAt asTextAt path fields "name"
  let params ← listAt paramAt path fields "args"
  let ret ← optionalAt asTyAt path fields "type"
  let records ← optionalAt asListAt path fields "instrs"
  let blocks ← blocksAt path (records.getD [])
  return ⟨name, params, ret, blocks⟩

def func (t : Tree) : Result Func :=
  funcAt [] t

def funcsFrom : Nat → List Text → List Tree → Result (List Func)
  | _, _, [] => .ok []
  | i, seen, t :: ts => do
    let path := index [] "functions" i
    let f ← funcAt path t
    if f.name ∈ seen then
      fail (child path "name") (.repeatedFunction f.name)
    else
      let fs ← funcsFrom (i + 1) (f.name :: seen) ts
      return f :: fs

def program (t : Tree) : Result Program := do
  let fields ← asObjectAt [] t
  let ts ← requiredAt asListAt [] fields "functions"
  let fs ← funcsFrom 0 [] ts
  return ⟨fs⟩

end BlockIR.Decode
