import BlockIR.Text.Position
import BlockIR.Text.Quoted

namespace BlockIR

inductive SourceCause where
  | strayText (rest : List Char)
  | unexpected (found : String) (expected : Option String)
  | badInteger (text : String) (fault : Decimal.Fault)
  | secondLiteral
  | stated (message : String)
deriving DecidableEq

namespace SourceCause

def sample (cs : List Char) : String :=
  String.ofList (if 16 < cs.length then cs.take 16 ++ ['.', '.', '.'] else cs)

def faultText : Decimal.Fault → String
  | .malformed => "invalid syntax"
  | .outOfRange => "value out of range"

def message : SourceCause → String
  | strayText rest => "lexer: invalid input text " ++ Text.quoted (sample rest)
  | unexpected found none => "unexpected token " ++ Text.quoted found
  | unexpected found (some expected) =>
    String.join ["unexpected token ", Text.quoted found, " (expected ", expected, ")"]
  | badInteger text fault =>
    String.join ["failed to conform: strconv.ParseInt: parsing ", Text.quoted text, ": ",
      faultText fault]
  | secondLiteral => "instruction has more than one literal operand"
  | stated message => message

end SourceCause

structure SourceFailure where
  place : Place
  cause : SourceCause
deriving DecidableEq

namespace SourceFailure

def message (e : SourceFailure) : String :=
  String.join ["[syntax] ", e.place.display, ": ", e.cause.message]

end SourceFailure

end BlockIR
