import BlockIR.Program
import BlockIR.Table
import BlockIR.Text.Order

namespace BlockIR

structure MissingLabel where
  index : Nat
  count : Nat
deriving DecidableEq

def MissingLabel.message (e : MissingLabel) : String :=
  String.join ["runtime error: index out of range [", Decimal.ofNat e.index, "] with length ",
    Decimal.ofNat e.count]

def Instr.label (i : Instr) (n : Nat) : Except MissingLabel Text :=
  match i.labels[n]? with
  | some x => .ok x
  | none => .error ⟨n, i.labels.length⟩

/-- Where control goes from a block that is followed by the block `next`. Only jumps and branches
name their targets; after any other instruction, a return too, the next block follows. -/
def Block.targets (b : Block) (next : Text) : Except MissingLabel (List Text) :=
  match b.last? with
  | none => .ok [next]
  | some i =>
    match i.op with
    | .jmp => do
      let x ← i.label 0
      return [x]
    | .br => do
      let x ← i.label 0
      let y ← i.label 1
      return [x, y]
    | _ => .ok [next]

abbrev FlowGraph := Table Text (List Text)

namespace FlowGraph

def edges : List Block → Except MissingLabel (List (Text × List Text))
  | [] => .ok []
  | [b] => .ok [(b.name, [])]
  | b :: c :: bs => do
    let xs ← b.targets c.name
    let es ← edges (c :: bs)
    return (b.name, xs) :: es

def ofEdges (es : List (Text × List Text)) : FlowGraph :=
  es.foldl (fun g e => g.set e.1 e.2) []

def successors (g : FlowGraph) (x : Text) : List Text :=
  (g.get? x).getD []

def nodes (g : FlowGraph) : List Text :=
  Text.sorted g.keys

def addEdge (x : Text) (g : FlowGraph) (y : Text) : FlowGraph :=
  g.set y (g.successors y ++ [x])

def touch (g : FlowGraph) (x : Text) : FlowGraph :=
  if (g.get? x).isSome then g else g.set x []

def predecessors (g : FlowGraph) : FlowGraph :=
  g.nodes.foldl (fun h x => (g.successors x).foldl (addEdge x) (h.touch x)) []

def graphviz (name : Text) (g : FlowGraph) : String :=
  String.join
    [ "digraph ", name.shown, " \x7b\n",
      String.join (g.nodes.map fun x => String.join ["  ", x.shown, ";\n"]),
      String.join (g.nodes.flatMap fun x =>
        (g.successors x).map fun y => String.join ["  ", x.shown, " -> ", y.shown, ";\n"]),
      "\x7d\n" ]

end FlowGraph

namespace Func

def flowGraph (f : Func) : Except MissingLabel FlowGraph :=
  (FlowGraph.edges f.blocks).map FlowGraph.ofEdges

def graphviz (f : Func) : Except MissingLabel String :=
  f.flowGraph.map (FlowGraph.graphviz f.name)

end Func

end BlockIR
