import BlockIR.Decode
import BlockIR.Failure
import BlockIR.Listing.Grammar
import BlockIR.Listing.Tree
import BlockIR.Tree.Json

namespace BlockIR

inductive Form where
  | json
  | text
deriving DecidableEq

namespace Program

def ofTree (t : Tree) : Except Failure Program :=
  (Decode.program t).mapError .decode

def ofListing (file : String) (l : Listing) : Except Failure Program := do
  let t ← (l.toTree file).mapError .source
  ofTree t

def ofText (file source : String) : Except Failure Program := do
  let l ← (Listing.parse file source).mapError .source
  ofListing file l

def ofJson (source : Text) : Except Failure Program :=
  match Json.read? source.bytes with
  | none => .error .notJson
  | some t => ofTree t

def ofSource (form : Form) (file : String) (source : Text) : Except Failure Program :=
  match form with
  | .json => ofJson source
  | .text => ofText file source.shown

end Program

end BlockIR
