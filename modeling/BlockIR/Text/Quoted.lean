import BlockIR.Number.Hex
import BlockIR.Text
import BlockIR.Text.Printable

namespace BlockIR.Text

def escapeChar (c : Char) : List Char :=
  if c = '"' then ['\\', '"']
  else if c = '\\' then ['\\', '\\']
  else if isPrintable c then [c]
  else match c.toNat with
    | 7 => ['\\', 'a']
    | 8 => ['\\', 'b']
    | 9 => ['\\', 't']
    | 10 => ['\\', 'n']
    | 11 => ['\\', 'v']
    | 12 => ['\\', 'f']
    | 13 => ['\\', 'r']
    | n =>
      if n < 0x80 then '\\' :: 'x' :: Hex.digits 2 n
      else if n < 0x10000 then '\\' :: 'u' :: Hex.digits 4 n
      else '\\' :: 'U' :: Hex.digits 8 n

def escapePiece : Utf8.Piece → List Char
  | .char c => escapeChar c
  | .stray b => '\\' :: 'x' :: Hex.digits 2 b.toNat

def quotedPieces (ps : List Utf8.Piece) : String :=
  String.ofList ('"' :: ps.flatMap escapePiece ++ ['"'])

def quoted (t : Text) : String :=
  quotedPieces t.pieces

end BlockIR.Text
