import BlockIR.Editor.Uri.Address

namespace BlockIR

inductive UriCause where
  | controlCharacter
  | missingScheme
  | colonInFirstSegment
  | badEscape (found : List UInt8)
  | badHostCharacter (c : Char)
  | badPort (found : String)
  | unclosedHost
  | misplacedBracket
  | badAddress (address : List Utf8.Piece) (fault : Uri.AddressFault)
  | badUser
deriving DecidableEq

namespace UriCause

def message : UriCause → String
  | controlCharacter => "net/url: invalid control character in URL"
  | missingScheme => "missing protocol scheme"
  | colonInFirstSegment => "first path segment in URL cannot contain colon"
  | badEscape found => "invalid URL escape " ++ Text.quoted (.ofBytes found)
  | badHostCharacter c =>
    String.join ["invalid character ", Text.quoted (String.singleton c), " in host name"]
  | badPort found => String.join ["invalid port ", Text.quoted found, " after host"]
  | unclosedHost => "missing ']' in host"
  | misplacedBracket => "invalid IP-literal"
  | badAddress address fault => "invalid host: " ++ fault.message address
  | badUser => "net/url: invalid userinfo"

end UriCause

structure UriFault where
  uri : String
  shown : String
  cause : UriCause
deriving DecidableEq

namespace UriFault

def message (e : UriFault) : String :=
  String.join ["invalid URI ", e.uri, ": parse ", Text.quoted e.shown, ": ", e.cause.message]

end UriFault

namespace Uri

def isLetter (c : Char) : Bool :=
  ('a' ≤ c && c ≤ 'z') || ('A' ≤ c && c ≤ 'Z')

def isControl (c : Char) : Bool :=
  c.toNat < 0x20 || c.toNat = 0x7F

def cut (c : Char) (cs : List Char) : List Char × List Char :=
  (cs.takeWhile (· ≠ c), (cs.dropWhile (· ≠ c)).drop 1)

def cutLast? (c : Char) (cs : List Char) : Option (List Char × List Char) :=
  if c ∈ cs then
    let (after, before) := cut c cs.reverse
    some (before.reverse, after.reverse)
  else none

inductive Part where
  | path
  | user
  | host
  | zone
deriving DecidableEq

def isHostChar (c : Char) : Bool :=
  isLetter c || Decimal.isDigit c || "-_.~!$&'()*+,;=:[]<>\"".toList.contains c

def allowsEscape (part : Part) (n : Nat) : Bool :=
  match part with
  | .host => 0x80 ≤ n || n = 0x25
  | .zone => n = 0x25 || n = 0x20 || (n < 0x80 && isHostChar (Char.ofNat n))
  | _ => true

def allowsChar (part : Part) (c : Char) : Bool :=
  match part with
  | .host | .zone => 0x80 ≤ c.toNat || isHostChar c
  | _ => true

def unescape (part : Part) : List Char → Except UriCause (List UInt8)
  | [] => .ok []
  | '%' :: cs =>
    match cs with
    | a :: b :: rest =>
      match Hex.value? a, Hex.value? b with
      | some x, some y =>
        if allowsEscape part (x * 16 + y) then
          (unescape part rest).map (UInt8.ofNat (x * 16 + y) :: ·)
        else .error (badEscape ('%' :: a :: b :: rest))
      | _, _ => .error (badEscape ('%' :: a :: b :: rest))
    | rest => .error (badEscape ('%' :: rest))
  | c :: cs =>
    if allowsChar part c then (unescape part cs).map (Utf8.bytes (String.singleton c) ++ ·)
    else .error (.badHostCharacter c)
where
  badEscape (cs : List Char) : UriCause :=
    .badEscape ((Utf8.bytes (String.ofList cs)).take 3)

def splitScheme (cs : List Char) : Except UriCause (List Char × List Char) :=
  let word := cs.takeWhile fun c =>
    isLetter c || Decimal.isDigit c || c = '+' || c = '-' || c = '.'
  match cs.drop word.length with
  | ':' :: rest =>
    match word with
    | [] => .error .missingScheme
    | c :: _ => .ok (if isLetter c then (word, rest) else ([], cs))
  | _ => .ok ([], cs)

def checkPort (cs : List Char) : Except UriCause Unit :=
  match cs with
  | [] => .ok ()
  | ':' :: ds => if ds.all Decimal.isDigit then .ok () else .error (.badPort (String.ofList cs))
  | _ => .error (.badPort (String.ofList cs))

def splitZone : List Char → List Char × List Char
  | [] => ([], [])
  | '%' :: '2' :: '5' :: cs => ([], '%' :: '2' :: '5' :: cs)
  | c :: cs =>
    let (address, zone) := splitZone cs
    (c :: address, zone)

def checkAddress (inside : List Char) : Except UriCause Unit := do
  let (address, zone) := splitZone inside
  let address ← unescape .host address
  let zone ← unescape .zone zone
  let pieces := Utf8.pieces (address ++ zone)
  match Address.check pieces with
  | .error fault => throw (.badAddress pieces fault)
  | .ok .octets => throw .misplacedBracket
  | .ok .groups => pure ()

def checkHost (host : List Char) : Except UriCause Unit :=
  match cutLast? '[' host with
  | some ([], inside) =>
    match cutLast? ']' inside with
    | none => .error .unclosedHost
    | some (inside, tail) => do
      checkPort tail
      checkAddress inside
  | some _ => .error .misplacedBracket
  | none => do
    match cutLast? ':' host with
    | none => pure ()
    | some (_, digits) => checkPort (':' :: digits)
    let _ ← unescape .host host

def isUserChar (c : Char) : Bool :=
  isLetter c || Decimal.isDigit c || "-._:~!$&'()*+,;=%@".toList.contains c

def checkUser (user : List Char) : Except UriCause Unit :=
  if user.all isUserChar then do
    let (name, password) := cut ':' user
    let _ ← unescape .user name
    let _ ← unescape .user password
  else .error .badUser

def checkAuthority (cs : List Char) : Except UriCause Unit :=
  match cutLast? '@' cs with
  | none => checkHost cs
  | some (user, host) => do
    checkHost host
    checkUser user

def pathBytes (cs : List Char) : Except UriCause (List UInt8) := do
  if cs.any isControl then throw .controlCharacter
  let (scheme, rest) ← splitScheme cs
  let (rest, _) := cut '?' rest
  match rest with
  | '/' :: '/' :: tail =>
    if scheme.isEmpty && tail.head? = some '/' then unescape .path rest
    else
      let authority := tail.takeWhile (· ≠ '/')
      checkAuthority authority
      unescape .path (tail.drop authority.length)
  | '/' :: _ => unescape .path rest
  | _ =>
    if !scheme.isEmpty then return []
    else if (cut '/' rest).1.contains ':' then throw .colonInFirstSegment
    else unescape .path rest

def path (uri : String) : Except UriFault Text := do
  let (main, fragment) := cut '#' uri.toList
  let shown := String.ofList main
  let bytes ← (pathBytes main).mapError fun cause => ⟨uri, shown, cause⟩
  let _ ← (unescape .path fragment).mapError fun cause => ⟨uri, uri, cause⟩
  return .ofBytes bytes

end Uri

end BlockIR
