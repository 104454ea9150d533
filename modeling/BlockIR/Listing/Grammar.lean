import BlockIR.Listing
import BlockIR.Listing.Rule

/-! The grammar of the text form:

    Program     = Function*
    Function    = "@" Ident ("(" (Param ("," Param)*)? ")")? (":" Ident)? "{" BodyItem* "}"
    Param       = Ident ":" Ident
    BodyItem    = Label | Instruction
    Label       = "." Ident ":"
    Instruction = Target? Ident Operand* ";"
    Target      = Ident ":" Ident "="
    Operand     = "@" Ident | "." Ident | Int | ("true" | "false") | Ident
-/

namespace BlockIR

namespace Listing

open Rule

def name : Rule Name :=
  (ofKind .ident).map fun l => ⟨.plain l.token.text, l.token.start⟩

def param : Rule Param :=
  (named "Param" (name.seq (.cons (literal ":") (.last name)))).map
    fun ((x, _, t), _) => ⟨x, t⟩

def target : Rule Target :=
  (named "Target" (name.seq (.cons (literal ":") (.cons name (.last (literal "=")))))).map
    fun ((x, _, t, _), _) => ⟨x, t⟩

inductive RawOperand where
  | func (name : Name)
  | label (name : Name)
  | int (l : Lexeme)
  | bool (b : Bool)
  | arg (name : Name)

def RawOperand.read : RawOperand → Except Fault OperandValue
  | func x => .ok (.func x)
  | label x => .ok (.label x)
  | int l =>
    match Decimal.readPrefixedInt64 l.token.text with
    | .ok n => .ok (.int n)
    | .error fault => .error ⟨l.lead, .badInteger l.token.text fault⟩
  | bool b => .ok (.bool b)
  | arg x => .ok (.arg x)

def rawOperand : Rule RawOperand :=
  choice
    [ ((literal "@").seq (.last name)).map fun (_, x) => .func x,
      ((literal ".").seq (.last name)).map fun (_, x) => .label x,
      (ofKind .int).map .int,
      group (choice
        [ (literal "true").map fun _ => .bool true,
          (literal "false").map fun _ => .bool false ]),
      name.map .arg ]

def operand : Rule Operand :=
  (named "Operand" rawOperand).convert fun (raw, p) => raw.read.map fun v => ⟨v, p⟩

def instr : Rule Instr :=
  (named "Instruction" (seq (opt target) (.cons name (.cons (many operand) (.last (literal ";")))))).map
    fun ((t, op, xs, _), p) => ⟨t, op, xs, p⟩

def label : Rule Label :=
  (named "Label" ((literal ".").seq (.cons name (.last (literal ":"))))).map
    fun ((_, x, _), p) => ⟨x, p⟩

def item : Rule Item :=
  (named "BodyItem" (choice [label.map .label, instr.map .instr])).map fun (i, _) => i

def params : Rule (List Param) :=
  (opt (group ((literal "(").seq
    (.cons (opt (group (param.seq (.last (many (group ((literal ",").seq (.last param))))))))
      (.last (literal ")")))))).map fun
    | none | some (_, none, _) => []
    | some (_, some (x, xs), _) => x :: xs.map (·.2)

def resultType : Rule (Option Name) :=
  (opt (group ((literal ":").seq (.last name)))).map fun r => r.map (·.2)

def func : Rule Func :=
  (named "Function" ((literal "@").seq (.cons name (.cons params (.cons resultType
    (.cons (literal "\x7b") (.cons (many item) (.last (literal "\x7d"))))))))).map
    fun ((_, x, xs, t, _, body, _), p) => ⟨x, xs, t, body, p⟩

def program : Rule (List Func) :=
  many func

def readAll (rest : List Lexeme) (stop : Position) : Except Fault Listing :=
  match program.run { passed := 0, rest, stop } with
  | (.failed e, _) => .error e
  | (.absent, c) => finish [] c
  | (.found fs, c) => finish fs c
where
  finish (fs : List Func) (c : Cursor) : Except Fault Listing :=
    if c.rest.isEmpty then .ok ⟨fs⟩
    else match c.blame with
      | none => .error (c.unexpected none)
      | some e => .error (if c.depth ≤ c.passed then c.unexpected none else e)

end Listing

def Listing.parse (file source : String) : Except SourceFailure Listing :=
  let s := Listing.scan source
  if s.rest.isEmpty then
    (Listing.readAll (Listing.lexemes s.tokens) s.stop).mapError
      fun e => ⟨e.pos.inFile file, e.cause⟩
  else .error ⟨s.stop.inFile file, .strayText s.rest⟩

end BlockIR
