import BlockIR.Number.Decimal
import BlockIR.Text.Position

namespace BlockIR.Listing

inductive TokenKind where
  | comment
  | int
  | ident
  | punctuation
  | blank
deriving DecidableEq

def isIdentStart (c : Char) : Bool :=
  ('a' ≤ c && c ≤ 'z') || ('A' ≤ c && c ≤ 'Z') || c = '_'

def isIdentRest (c : Char) : Bool :=
  isIdentStart c || Decimal.isDigit c || c = '.'

def isPunctuation (c : Char) : Bool :=
  c = '@' || c = '.' || c = ':' || c = ';' || c = ',' || c = '(' || c = ')' || c = '\x7b' ||
    c = '\x7d' || c = '='

def isSpace (c : Char) : Bool :=
  c = ' ' || c = '\t' || c = '\r' || c = '\n'

namespace TokenKind

def all : List TokenKind :=
  [comment, int, ident, punctuation, blank]

def name : TokenKind → String
  | comment => "Comment"
  | int => "Int"
  | ident => "Ident"
  | punctuation => "Punctuation"
  | blank => "Whitespace"

def isIdle : TokenKind → Bool
  | comment | blank => true
  | _ => false

def lexeme : TokenKind → List Char → List Char
  | comment, '#' :: cs => '#' :: cs.takeWhile (· ≠ '\n')
  | comment, _ => []
  | int, '-' :: cs =>
    match cs.takeWhile Decimal.isDigit with
    | [] => []
    | ds => '-' :: ds
  | int, cs => cs.takeWhile Decimal.isDigit
  | ident, c :: cs => if isIdentStart c then c :: cs.takeWhile isIdentRest else []
  | ident, [] => []
  | punctuation, c :: _ => if isPunctuation c then [c] else []
  | punctuation, [] => []
  | blank, cs => cs.takeWhile isSpace

theorem lexeme_isPrefix (k : TokenKind) (cs : List Char) : k.lexeme cs <+: cs := by
  unfold lexeme
  split
  · exact List.prefix_cons_inj _ |>.2 ( List.takeWhile_prefix _)
  · exact List.nil_prefix
  · split
    · exact List.nil_prefix
    · exact List.prefix_cons_inj _ |>.2 ( List.takeWhile_prefix _)
  · exact List.takeWhile_prefix _
  · split
    · exact List.prefix_cons_inj _ |>.2 ( List.takeWhile_prefix _)
    · exact List.nil_prefix
  · exact List.nil_prefix
  · split
    · exact ⟨_, rfl⟩
    · exact List.nil_prefix
  · exact List.nil_prefix
  · exact List.takeWhile_prefix _

end TokenKind

structure Token where
  kind : TokenKind
  text : String
  start : Position
deriving DecidableEq

def firstMatch (kinds : List TokenKind) (cs : List Char) : Option (TokenKind × List Char) :=
  kinds.findSome? fun k =>
    match k.lexeme cs with
    | [] => none
    | text => some (k, text)

theorem firstMatch_eq_some {kinds : List TokenKind} {cs text : List Char} {k : TokenKind}
    (h : firstMatch kinds cs = some (k, text)) : text = k.lexeme cs ∧ text ≠ [] := by
  obtain ⟨k', _, h'⟩ := List.exists_of_findSome?_eq_some h
  split at h'
  · cases h'
  · rename_i hne
    cases h'
    exact ⟨rfl, hne⟩

theorem firstMatch_length {kinds : List TokenKind} {cs text : List Char} {k : TokenKind}
    (h : firstMatch kinds cs = some (k, text)) : (cs.drop text.length).length < cs.length := by
  obtain ⟨rfl, hne⟩ := firstMatch_eq_some h
  have hle := (k.lexeme_isPrefix cs).length_le
  have hpos := List.length_pos_iff.2 hne
  rw [List.length_drop]
  omega

structure Scan where
  tokens : List Token
  stop : Position
  rest : List Char
deriving DecidableEq

def scanFrom (kinds : List TokenKind) (p : Position) (cs : List Char) : Scan :=
  match _h : firstMatch kinds cs with
  | none => ⟨[], p, cs⟩
  | some (k, text) =>
    let s := scanFrom kinds (p.after text) (cs.drop text.length)
    { s with tokens := ⟨k, String.ofList text, p⟩ :: s.tokens }
termination_by cs.length
decreasing_by exact firstMatch_length _h

def scan (source : String) : Scan :=
  scanFrom TokenKind.all .start source.toList

end BlockIR.Listing
