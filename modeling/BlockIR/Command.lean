import BlockIR.Folder
import BlockIR.Listing.Render
import BlockIR.Repl

namespace BlockIR

inductive Action where
  | print
  | format
  | graph
  | deadVariables
  | deadStores
  | optimize
  | repl
deriving DecidableEq

namespace Action

def all : List Action :=
  [print, format, graph, deadVariables, deadStores, optimize, repl]

def name : Action → String
  | print => "print"
  | format => "fmt"
  | graph => "cfg"
  | deadVariables => "dve"
  | deadStores => "dse"
  | optimize => "opt"
  | repl => "repl"

def ofName? (s : String) : Option Action :=
  all.find? fun a => a.name = s

end Action

inductive Flag where
  | text
  | verbose
  | all
  | worklist
deriving DecidableEq

namespace Flag

def ofName? (a : Action) (name : String) : Option Flag :=
  match a, name with
  | .repl, _ => none
  | _, "text" => some text
  | _, "verbose" => some verbose
  | _, "v" => some verbose
  | .graph, "all" => some all
  | .deadVariables, "worklist" => some worklist
  | _, _ => none

def value? (cs : List Char) : Option Bool :=
  let s := String.ofList (cs.map Char.toLower)
  if s ∈ ["true", "t", "yes", "y", "1", ""] then some true
  else if s ∈ ["false", "f", "no", "n", "0"] then some false
  else none

end Flag

inductive CommandFault where
  | unexpectedArg (arg : String)
  | noSuchFlag (arg : String)
  | notBool (arg : String)
  | tooManyFiles (count : Nat)
  | unread (name : String) (e : ReadFault)
  | undecoded (name : String) (e : Failure)

namespace CommandFault

def message : CommandFault → String
  | unexpectedArg arg => "no args expected, got " ++ arg
  | noSuchFlag arg => String.join ["parse flag: ", arg, ": no such flag"]
  | notBool arg => String.join ["parse flag: ", arg, ": not a bool value"]
  | tooManyFiles count => "expected at most one input file, got " ++ Decimal.ofNat count
  | unread name e => String.join ["read ", name, ": ", e.message]
  | undecoded name e => String.join ["decode ", name, ": ", e.message]

end CommandFault

namespace Command

structure Options where
  flags : List Flag := []
  args : List String := []
deriving DecidableEq

def Options.set (o : Options) (f : Flag) (on : Bool) : Options :=
  { o with flags := if on then f :: o.flags else o.flags.filter (· ≠ f) }

def asFlag? (arg : String) : Option (String × List Char) :=
  match arg.toList with
  | ['-'] | ['-', '-'] => none
  | '-' :: cs =>
    let body := match cs with
      | '-' :: rest => rest
      | _ => cs
    let name := body.takeWhile fun c => c ≠ '=' && c ≠ ' '
    some (String.ofList name, body.drop (name.length + 1))
  | _ => none

def addArgs (a : Action) (o : Options) : List String → Except CommandFault Options
  | [] => .ok o
  | arg :: args =>
    if a = .repl then .error (.unexpectedArg arg)
    else .ok { o with args := o.args ++ arg :: args }

/-- Reads the arguments of an action from left to right. After `--` there are no more flags, but an
action without files takes no `--` either. -/
def options (a : Action) (o : Options) : List String → Except CommandFault Options
  | [] => .ok o
  | arg :: args =>
    if arg = "--" ∧ a ≠ .repl then addArgs a o args
    else match asFlag? arg with
      | none => addArgs a o [arg] >>= fun o => options a o args
      | some (name, value) =>
        match Flag.ofName? a name with
        | none => .error (.noSuchFlag arg)
        | some f =>
          match Flag.value? value with
          | none => .error (.notBool arg)
          | some on => options a (o.set f on) args

structure Outcome where
  stdout : String := ""
  stderr : String := ""
  exit : Nat := 0
deriving DecidableEq

def Outcome.failure (message : String) : Outcome :=
  { stderr := String.join ["error: ", message, "\n"], exit := 1 }

def Outcome.ofFault (a : Action) (e : CommandFault) : Outcome :=
  .failure (String.join [a.name, ": ", e.message])

inductive Request where
  | nothing
  | action (a : Action) (o : Options)
deriving DecidableEq

def request : List String → Except Outcome Request
  | [] => .ok .nothing
  | arg :: args =>
    match asFlag? arg, Action.ofName? arg with
    | some _, _ => .error (.failure (CommandFault.noSuchFlag arg).message)
    | none, none => .error (.failure (CommandFault.unexpectedArg arg).message)
    | none, some a =>
      match options a {} args with
      | .ok o => .ok (.action a o)
      | .error e => .error (.ofFault a e)

inductive Input where
  | standard
  | file (path : String)
  | tooMany (count : Nat)
deriving DecidableEq

def Options.input (o : Options) : Input :=
  match o.args with
  | [] => .standard
  | [path] => .file path
  | paths => .tooMany paths.length

def Options.form (o : Options) : Form :=
  if .text ∈ o.flags then .text else .json

def graphs (funcs : List Func) : String :=
  String.join (funcs.map fun f => f.graphviz.toOption.getD "")

def perform (a : Action) (o : Options) (p : Program) : String :=
  match a with
  | .print => p.display
  | .format => p.format
  | .graph => graphs (if .all ∈ o.flags then p.funcs else p.funcs.take 1)
  | .deadVariables =>
    let pass : Pass := if .worklist ∈ o.flags then .deadVariablesByCount else .deadVariables
    (p.map pass.apply).display
  | .deadStores => (p.map Pass.deadStores.apply).display
  | .optimize => p.optimize.display
  | .repl => ""

def paintLine (colour : Bool) (on : String) (text : String) : String :=
  if colour then String.join ["\x1b[", on, "m", text, "\x1b[0m"] else text

def finish (colour : Bool) (elapsed : String) (a : Action) (o : Options) (name : String)
    (source : Text) : Except Failure Program → Outcome
  | .ok p =>
    let note := String.join ["Decoded ", name, " in ", elapsed, "\n"]
    { stdout := perform a o p
      stderr := if .verbose ∈ o.flags then paintLine colour "32" note else "" }
  | .error e =>
    let note := String.join ["Decoding ", name, " failed after ", elapsed, "\n"]
    if e.isDiagnostic then
      { stderr := e.render colour name source.shown ++ paintLine colour "31" note, exit := 1 }
    else .ofFault a (.undecoded name e)

def decode (o : Options) (name : String) (source : Text) : Except Failure Program :=
  Program.ofSource o.form name source

def standardName : String := "<stdin>"

def banner : String :=
  "mycfg repl: enter text-form functions, Ctrl-D to quit\n"

def run (colour : Bool) (elapsed : String) (read : Reading) (stdin : Text) (args : List String) :
    Outcome :=
  match request args with
  | .error outcome => outcome
  | .ok .nothing => {}
  | .ok (.action .repl _) => { stdout := banner ++ Repl.transcript colour stdin.shown }
  | .ok (.action a o) =>
    match o.input with
    | .standard => finish colour elapsed a o standardName stdin (decode o standardName stdin)
    | .file path =>
      match read path with
      | .ok source => finish colour elapsed a o path source (decode o path source)
      | .error e => .ofFault a (.unread path e)
    | .tooMany count => .ofFault a (.tooManyFiles count)

end Command

end BlockIR
