import BlockIR.Instr.Shape
import BlockIR.Text.Quoted
import BlockIR.Tree

namespace BlockIR

inductive DecodeKind where
  | unknownOpcode
  | invalidType
  | malformedRecord
  | other (name : String)
deriving DecidableEq

namespace DecodeKind

def name : DecodeKind → String
  | unknownOpcode => "unknown_opcode"
  | invalidType => "invalid_type"
  | malformedRecord => "malformed_record"
  | other name => name

def ofName (s : String) : DecodeKind :=
  if s = "unknown_opcode" then unknownOpcode
  else if s = "invalid_type" then invalidType
  else if s = "malformed_record" then malformedRecord
  else other s

end DecodeKind

inductive DecodeCause where
  | notObject (found : Tree)
  | notList (found : Tree)
  | notText (found : Tree)
  | missingField (key : String)
  | repeatedFunction (name : Text)
  | emptyDestination
  | notInteger (found : Numeral)
  | notLiteral (found : Tree)
  | neitherOpNorLabel
  | shape (op : Op) (fault : ShapeFault)
  | unknownOpcode (mnemonic : Text)
  | invalidType (found : Tree)
  | stated (kind : DecodeKind) (detail : String)

namespace DecodeCause

def kind : DecodeCause → DecodeKind
  | unknownOpcode _ => .unknownOpcode
  | invalidType _ => .invalidType
  | stated kind _ => kind
  | _ => .malformedRecord

def describe : Tree → String
  | .text s => Text.quoted s
  | t => String.join [t.display, " (", t.kind, ")"]

def detail : DecodeCause → String
  | notObject t => "expected an object, got " ++ t.kind
  | notList t => "expected a list, got " ++ t.kind
  | notText t => "expected a string, got " ++ t.kind
  | missingField key => "missing required field " ++ Text.quoted key
  | repeatedFunction name => "duplicate function @" ++ name.shown
  | emptyDestination => "destination must not be empty"
  | notInteger n => String.join ["value ", n.display, " is not a signed integer"]
  | notLiteral t => "value must be an integer or boolean, got " ++ t.kind
  | neitherOpNorLabel => "record has neither \"op\" nor \"label\""
  | shape op fault => fault.message op
  | unknownOpcode mnemonic => "unknown opcode " ++ Text.quoted mnemonic
  | invalidType t => String.join ["invalid type ", describe t, ", expected \"int\" or \"bool\""]
  | stated _ detail => detail

def value? : DecodeCause → Option Tree
  | unknownOpcode mnemonic => some (.text mnemonic)
  | invalidType found => some found
  | _ => none

end DecodeCause

structure DecodeFailure where
  path : List String := []
  cause : DecodeCause

namespace DecodeFailure

def kind (e : DecodeFailure) : DecodeKind :=
  e.cause.kind

def detail (e : DecodeFailure) : String :=
  e.cause.detail

def value? (e : DecodeFailure) : Option Tree :=
  e.cause.value?

def location (e : DecodeFailure) : String :=
  String.intercalate "." e.path

def message (e : DecodeFailure) : String :=
  String.join
    (["[decode] ", e.kind.name] ++
    (if e.path.isEmpty then [] else [" at ", e.location]) ++
    (if e.detail = "" then [] else [": ", e.detail]))

end DecodeFailure

end BlockIR
