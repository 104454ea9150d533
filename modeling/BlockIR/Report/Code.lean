import BlockIR.Decode.Failure
import BlockIR.Text.Order

namespace BlockIR.Report

namespace Code

def unknownOpcode : String := "E0100"

def invalidType : String := "E0101"

def malformedRecord : String := "E0102"

def badSource : String := "E0200"

def badInput : String := "E0900"

def description (code : String) : String :=
  if code = unknownOpcode then "Instruction opcode is not recognized"
  else if code = invalidType then "Type must be \"int\" or \"bool\""
  else if code = malformedRecord then
    "Record is missing required fields or has fields its opcode does not allow"
  else if code = badSource then "Text form syntax error"
  else if code = badInput then "Input is not a readable tree value"
  else "Unknown error code"

def between (low high code : String) : Bool :=
  Text.le low code && !Text.le high code

def category (code : String) : String :=
  if between "E0100" "E0200" code then "Decode"
  else if between "E0200" "E0300" code then "Syntax"
  else if between "E0900" "E1000" code then "Tooling"
  else "Unknown"

def ofKind : DecodeKind → String
  | .unknownOpcode => unknownOpcode
  | .invalidType => invalidType
  | _ => malformedRecord

end Code

end BlockIR.Report
