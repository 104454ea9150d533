import BlockIR.Number.Decimal
import BlockIR.Text.Quoted

/-! Internet addresses in numbers: four octets with dots, or eight groups of hexadecimal digits with
colons, where `::` stands for groups of zeros, four octets may end the groups, and a zone may follow
after a percent sign. -/

namespace BlockIR.Uri

inductive AddressCause where
  | noAddress
  | noGroups
  | emptyZone
  | leadingZero
  | largeOctet
  | emptyOctet
  | manyOctets
  | fewOctets
  | noOctet
  | longGroup
  | emptyGroup
  | earlyOctets
  | lateOctets
  | noColon
  | lastColon
  | secondGap
  | trailingText
  | fewGroups
  | emptyGap
deriving DecidableEq

namespace AddressCause

def message : AddressCause → String
  | noAddress => "unable to parse IP"
  | noGroups => "missing IPv6 address"
  | emptyZone => "zone must be a non-empty string"
  | leadingZero => "IPv4 field has octet with leading zero"
  | largeOctet => "IPv4 field has value >255"
  | emptyOctet => "IPv4 field must have at least one digit"
  | manyOctets => "IPv4 address too long"
  | fewOctets => "IPv4 address too short"
  | noOctet => "unexpected character"
  | longGroup => "each group must have 4 or less digits"
  | emptyGroup => "each colon-separated field must have at least one digit"
  | earlyOctets => "embedded IPv4 address must replace the final 2 fields of the address"
  | lateOctets => "too many hex fields to fit an embedded IPv4 at the end of the address"
  | noColon => "unexpected character, want colon"
  | lastColon => "colon must be followed by more characters"
  | secondGap => "multiple :: in address"
  | trailingText => "trailing garbage after address"
  | fewGroups => "address string too short"
  | emptyGap => "the :: must expand to at least one field of zeros"

end AddressCause

structure AddressFault where
  cause : AddressCause
  rest : List Utf8.Piece := []
deriving DecidableEq

namespace Address

open Utf8 (Piece)

structure Groups where
  left : Nat
  gap : Bool
  rest : List Piece := []

def digit? : Piece → Option Nat
  | .char c => Decimal.digitValue? c
  | .stray _ => none

def isHex : Piece → Bool
  | .char c => (Hex.value? c).isSome
  | .stray _ => false

def octetsFrom (count value digits : Nat) : List Piece → Except AddressFault Unit
  | [] => if count < 3 then .error ⟨.fewOctets, []⟩ else .ok ()
  | p :: ps =>
    match digit? p with
    | some d =>
      if digits = 1 ∧ value = 0 then .error ⟨.leadingZero, []⟩
      else if 255 < value * 10 + d then .error ⟨.largeOctet, []⟩
      else octetsFrom count (value * 10 + d) (digits + 1) ps
    | none =>
      if p ≠ .char '.' then .error ⟨.noOctet, p :: ps⟩
      else if digits = 0 ∨ ps = [] then .error ⟨.emptyOctet, p :: ps⟩
      else if count = 3 then .error ⟨.manyOctets, []⟩
      else octetsFrom (count + 1) 0 0 ps

def octets (ps : List Piece) : Except AddressFault Unit :=
  octetsFrom 0 0 0 ps

def groups : Nat → Bool → List Piece → Except AddressFault Groups
  | 0, gap, ps => .ok ⟨0, gap, ps⟩
  | left + 1, gap, ps =>
    let digits := ps.takeWhile isHex
    let tail := ps.drop digits.length
    if 4 < digits.length then .error ⟨.longGroup, ps⟩
    else if digits.isEmpty then .error ⟨.emptyGroup, ps⟩
    else match tail with
      | [] => .ok ⟨left, gap, []⟩
      | .char '.' :: _ =>
        if !gap && left ≠ 1 then .error ⟨.earlyOctets, ps⟩
        else if left = 0 then .error ⟨.lateOctets, ps⟩
        else (octets ps).map fun _ => ⟨left - 1, gap, []⟩
      | [.char ':'] => .error ⟨.lastColon, tail⟩
      | .char ':' :: .char ':' :: more =>
        if gap then .error ⟨.secondGap, .char ':' :: more⟩
        else if more.isEmpty then .ok ⟨left, true, []⟩
        else groups left true more
      | .char ':' :: more => groups left gap more
      | _ => .error ⟨.noColon, tail⟩

def complete (g : Groups) : Except AddressFault Unit :=
  if !g.rest.isEmpty then .error ⟨.trailingText, g.rest⟩
  else if g.gap then
    if g.left = 0 then .error ⟨.emptyGap, []⟩ else .ok ()
  else if 0 < g.left then .error ⟨.fewGroups, []⟩
  else .ok ()

def grouped (ps : List Piece) : Except AddressFault Unit :=
  let address := ps.takeWhile (· ≠ .char '%')
  if ps.drop address.length = [.char '%'] then .error ⟨.emptyZone, []⟩
  else match address with
    | [.char ':', .char ':'] => .ok ()
    | .char ':' :: .char ':' :: more => groups 8 true more >>= complete
    | _ => groups 8 false address >>= complete

inductive Kind where
  | octets
  | groups
deriving DecidableEq

def check (ps : List Piece) : Except AddressFault Kind :=
  match ps.find? fun p => p = .char '.' || p = .char ':' || p = .char '%' with
  | some (.char '.') => (octets ps).map fun _ => .octets
  | some (.char ':') => (grouped ps).map fun _ => .groups
  | some _ => .error ⟨.noGroups, []⟩
  | none => .error ⟨.noAddress, []⟩

end Address

namespace AddressFault

def message (address : List Utf8.Piece) (e : AddressFault) : String :=
  String.join (["ParseAddr(", Text.quotedPieces address, "): ", e.cause.message] ++
    if e.rest.isEmpty then [] else [" (at ", Text.quotedPieces e.rest, ")"])

end AddressFault

end BlockIR.Uri
