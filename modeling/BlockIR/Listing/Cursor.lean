import BlockIR.Listing.Failure
import BlockIR.Listing.Token

namespace BlockIR.Listing

structure Lexeme where
  token : Token
  lead : Position
deriving DecidableEq

def lexemesFrom (lead : Option Position) : List Token → List Lexeme
  | [] => []
  | t :: ts =>
    if t.kind.isIdle then lexemesFrom (some (lead.getD t.start)) ts
    else ⟨t, lead.getD t.start⟩ :: lexemesFrom none ts

def lexemes (ts : List Token) : List Lexeme :=
  lexemesFrom none ts

structure Fault where
  pos : Position
  cause : SourceCause
deriving DecidableEq

/-- The tokens passed and those to come before the source ends at `stop`. The failure to blame is
the last one that was seen at the deepest place. -/
structure Cursor where
  passed : Nat
  rest : List Lexeme
  stop : Position
  depth : Nat := 0
  blame : Option Fault := none
deriving DecidableEq

namespace Cursor

def pos (c : Cursor) : Position :=
  match c.rest with
  | [] => c.stop
  | l :: _ => l.token.start

def next (c : Cursor) : String :=
  match c.rest with
  | [] => "<EOF>"
  | l :: _ => l.token.text

def unexpected (c : Cursor) (expected : Option String) : Fault :=
  ⟨c.pos, .unexpected c.next expected⟩

def advance (c : Cursor) : Cursor :=
  { c with passed := c.passed + 1, rest := c.rest.tail }

def note (c : Cursor) (e : Fault) : Cursor :=
  if c.depth ≤ c.passed then { c with depth := c.passed, blame := some e } else c

def accept (c trial : Cursor) : Cursor :=
  if c.depth ≤ trial.depth then trial
  else { trial with depth := c.depth, blame := c.blame }

def heed (c trial : Cursor) (e : Fault) : Cursor :=
  if c.depth < trial.depth then { c with depth := trial.depth, blame := trial.blame }
  else if c.depth ≤ trial.passed then
    { c with depth := max trial.passed trial.depth, blame := some e }
  else c

/-- A failed trial that has passed more tokens than this is not taken back. -/
def lookahead : Nat := 3

def committed (c trial : Cursor) : Bool :=
  c.passed + lookahead < trial.passed

end Cursor

end BlockIR.Listing
