import BlockIR.Editor.Diagnostic
import BlockIR.Editor.Highlight
import BlockIR.Program.Source

namespace BlockIR.Editor

structure Document where
  content : String
  listing : Option Listing
  outcome : Except Failure Program

namespace Document

def analyze (uri content : String) : Document :=
  match Listing.parse uri content with
  | .error e => ⟨content, none, .error (.source e)⟩
  | .ok l => ⟨content, some l, Program.ofListing uri l⟩

def diagnostics (d : Document) : List Diagnostic :=
  match d.outcome with
  | .ok _ => []
  | .error e => (Diagnostic.ofFailure e d.listing).toOption.toList

def highlights (d : Document) : List Highlight :=
  (d.listing.map Highlight.ofListing).getD []

end Document

inductive Change where
  | whole (text : String)
  | part
deriving DecidableEq

def Change.content? (changes : List Change) : Option String :=
  changes.foldl (fun found c =>
    match c with
    | .whole text => some text
    | .part => found) none

inductive Request where
  | start
  | started
  | setTrace (value : String)
  | shutdown
  | opened (uri text : String)
  | changed (uri : String) (changes : List Change)
  | closed (uri : String)
  | highlight (uri : String)
deriving DecidableEq

structure Publication where
  uri : String
  diagnostics : List Diagnostic
deriving DecidableEq

structure Capabilities where
  openClose : Bool := true
  changeKind : Nat := 1
  tokenTypes : List String := TokenClass.all.map TokenClass.name
  tokenModifiers : List String := markNames
  fullTokens : Bool := true
deriving DecidableEq

inductive Reply where
  | nothing
  | capabilities (c : Capabilities)
  | tokens (data : List UInt32)
deriving DecidableEq

structure Session where
  documents : Table String Document := []
  trace : String := "off"

structure Response where
  session : Session
  published : List Publication := []
  reply : Except Failure Reply := .ok .nothing

def fetch (read : Reading) (uri : String) : Except Failure String := do
  let path ← (Uri.path uri).mapError .badUri
  let content ← (read path).mapError fun e =>
    .wrapped ("failed to read file " ++ path.shown) (.unread e)
  return content.shown

namespace Session

def update (s : Session) (uri content : String) : Response :=
  let d := Document.analyze uri content
  { session := { s with documents := s.documents.set uri d },
    published := [⟨uri, d.diagnostics⟩] }

def fail (s : Session) (e : Failure) : Response :=
  { session := s, reply := .error e }

def change (read : Reading) (s : Session) (uri : String) (changes : List Change) : Response :=
  match Change.content? changes with
  | some content => s.update uri content
  | none =>
    match fetch read uri with
    | .ok content => s.update uri content
    | .error e => s.fail e

def close (s : Session) (uri : String) : Response :=
  { session := { s with documents := s.documents.erase uri }, published := [⟨uri, []⟩] }

def tokensOf (d : Document) : Reply :=
  .tokens (Highlight.encode d.highlights)

def highlight (read : Reading) (s : Session) (uri : String) : Response :=
  match s.documents.get? uri with
  | some d => { session := s, reply := .ok (tokensOf d) }
  | none =>
    match fetch read uri with
    | .ok content =>
      { s.update uri content with reply := .ok (tokensOf (Document.analyze uri content)) }
    | .error e => s.fail e

/-- The longer word `messages` is taken for `message`. -/
def setTrace (s : Session) (value : String) : Session :=
  { s with trace := if value = "messages" then "message" else value }

def step (read : Reading) (s : Session) : Request → Response
  | .start => { session := s, reply := .ok (.capabilities {}) }
  | .started => { session := s }
  | .setTrace value => { session := s.setTrace value }
  | .shutdown => { session := s.setTrace "off" }
  | .opened uri text => s.update uri text
  | .changed uri changes => s.change read uri changes
  | .closed uri => s.close uri
  | .highlight uri => s.highlight read uri

def program? (s : Session) (uri : String) : Option Program :=
  (s.documents.get? uri).bind fun d => d.outcome.toOption

end Session

end BlockIR.Editor
