import BlockIR.Failure
import BlockIR.Report.Code
import BlockIR.Text.Lines

namespace BlockIR

namespace Report

inductive Level where
  | error
  | warning
  | note
  | help
  | other (name : String)
deriving DecidableEq

namespace Level

def name : Level → String
  | error => "error"
  | warning => "warning"
  | note => "note"
  | help => "help"
  | other name => name

def ofName (s : String) : Level :=
  if s = "error" then error
  else if s = "warning" then warning
  else if s = "note" then note
  else if s = "help" then help
  else other s

end Level

inductive Style where
  | level (l : Level)
  | bold
  | dim
  | noteTag
  | helpTag

namespace Style

def codes : Style → String × String
  | level .warning => ("33;1", "0;22")
  | level .note => ("34;1", "0;22")
  | level .help => ("32;1", "0;22")
  | level _ => ("31;1", "0;22")
  | bold => ("1", "22")
  | dim => ("2", "22")
  | noteTag => ("34", "0")
  | helpTag => ("32", "0")

def paint (colour : Bool) (s : Style) (text : String) : String :=
  if colour then
    String.join ["\x1b[", s.codes.1, "m", text, "\x1b[", s.codes.2, "m"]
  else text

end Style

end Report

structure Report where
  level : Report.Level := .error
  code : String
  message : String
  place : Option Place := none
  length : Int := 0
  location : String := ""
  notes : List String := []
  help : String := ""
deriving DecidableEq

namespace Report

def helpFor : DecodeKind → String
  | .unknownOpcode =>
    "opcode must be one of: " ++ String.intercalate " " (Op.all.map Op.mnemonic)
  | .invalidType => "use \"int\" or \"bool\""
  | _ => ""

def ofDecodeFailure (e : DecodeFailure) : Report where
  code := Code.ofKind e.kind
  message := if e.detail = "" then Code.description (Code.ofKind e.kind) else e.detail
  location := e.location
  help := helpFor e.kind

def ofSourceFailure (e : SourceFailure) : Report where
  code := Code.badSource
  message := e.cause.message
  place := some e.place
  length := 1

def ofFailure (e : Failure) : Report :=
  match e.decode?, e.source? with
  | some d, _ => ofDecodeFailure d
  | none, some s => ofSourceFailure s
  | none, none => { code := Code.badInput, message := e.message }

def padded (width : Nat) (s : String) : String :=
  Text.repeated (width - s.length) ' ' ++ s

def margin (r : Report) : Nat :=
  max 3 (Decimal.ofInt ((r.place.map (·.line)).getD 0)).length

def indent (r : Report) : String :=
  Text.repeated r.margin ' '

def bar (colour : Bool) : String :=
  Style.dim.paint colour "│"

def header (colour : Bool) (r : Report) : String :=
  String.join
    [ (Style.level r.level).paint colour r.level.name,
      if r.code = "" then "" else String.join ["[", r.code, "]"],
      ": ", r.message, "\n" ]

def arrow (colour : Bool) (file : String) (r : Report) : String :=
  String.join
    [ r.indent, " ", Style.dim.paint colour "-->", " ", file,
      match r.place with
      | some p => String.join [":", Decimal.ofInt p.line, ":", Decimal.ofInt p.column]
      | none => if r.location = "" then "" else " at " ++ r.location,
      "\n" ]

def marker (colour : Bool) (r : Report) (column : Int) : String :=
  Text.repeated (column - 1).toNat ' ' ++
    (Style.level r.level).paint colour (Text.repeated (max 1 r.length).toNat '^')

def line? (source : String) (p : Place) : Option String :=
  if 0 < p.line then (Text.lines source)[(p.line - 1).toNat]? else none

def excerpt (colour : Bool) (source : String) (r : Report) : String :=
  match r.place with
  | none => ""
  | some p =>
    match line? source p with
    | none => ""
    | some line =>
      let number := padded r.margin (Decimal.ofInt p.line)
      String.join
        [ r.indent, " ", bar colour, "\n",
          Style.bold.paint colour number, " ", bar colour, " ", line, "\n",
          r.indent, " ", bar colour, " ", r.marker colour p.column, "\n" ]

def remark (colour : Bool) (r : Report) (s : Style) (tag text : String) : String :=
  String.join [r.indent, " ", bar colour, " ", s.paint colour tag, " ", text, "\n"]

def render (colour : Bool) (file source : String) (r : Report) : String :=
  String.join
    [ r.header colour, r.arrow colour file, r.excerpt colour source,
      String.join (r.notes.map (r.remark colour .noteTag "note:")),
      if r.help = "" then "" else r.remark colour .helpTag "help:" r.help,
      "\n" ]

end Report

namespace Failure

def render (colour : Bool) (file source : String) (e : Failure) : String :=
  (Report.ofFailure e).render colour file source

end Failure

end BlockIR
