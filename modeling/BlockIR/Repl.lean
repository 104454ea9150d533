import BlockIR.FlowGraph
import BlockIR.Pass.Pipeline
import BlockIR.Program.Source
import BlockIR.Report
import BlockIR.Text.Blank

namespace BlockIR.Repl

def prompt : String := ">> "

def morePrompt : String := ".. "

def file : String := "<repl>"

def eval (colour : Bool) (source : String) : String :=
  match Program.ofText file source with
  | .error e => e.render colour file source
  | .ok p =>
    p.optimize.display ++ String.join (p.funcs.map fun f => f.graphviz.toOption.getD "")

def braces (line : List Char) : Int :=
  let code := line.takeWhile (· ≠ '#')
  (code.count '\x7b' : Int) - code.count '\x7d'

structure State where
  buffer : String := ""
  depth : Int := 0
deriving DecidableEq

def State.feed (s : State) (line : String) : Option String × State :=
  let buffer := s.buffer ++ line ++ "\n"
  let depth := s.depth + braces line.toList
  if 0 < depth then (none, ⟨buffer, depth⟩)
  else (if Text.allBlank buffer then none else some buffer, {})

def State.answer (colour : Bool) (s : State) (line : String) : String × State :=
  let (chunk, s) := s.feed line
  ((chunk.map (eval colour)).getD "" ++ (if 0 < s.depth then morePrompt else prompt), s)

def answers (colour : Bool) : State → List String → String
  | _, [] => ""
  | s, line :: lines =>
    let (out, s) := s.answer colour line
    out ++ answers colour s lines

def lineLimit : Nat := 65536

def line? (cs : List Char) : Option String :=
  if (String.ofList cs).utf8ByteSize < lineLimit then
    some (String.ofList (if cs.getLast? = some '\r' then cs.dropLast else cs))
  else none

def linesOf : List (List Char) → List String
  | [] => []
  | cs :: rest =>
    match line? cs with
    | none => []
    | some line => line :: linesOf rest

def inputLines (input : String) : List String :=
  let pieces := Text.splitAt '\n' input.toList
  linesOf (if pieces.getLast? = some [] then pieces.dropLast else pieces)

def transcript (colour : Bool) (input : String) : String :=
  prompt ++ answers colour {} (inputLines input)

end BlockIR.Repl
