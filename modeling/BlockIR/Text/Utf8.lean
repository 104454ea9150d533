namespace BlockIR.Utf8

inductive Piece where
  | char (c : Char)
  | stray (b : UInt8)
deriving DecidableEq

def bytes (s : String) : List UInt8 :=
  s.toUTF8.data.toList

theorem bytes_injective {s t : String} (h : bytes s = bytes t) : s = t := by
  have hd : s.toUTF8.data = t.toUTF8.data := Array.toList_inj.1 h
  exact String.toByteArray_inj.1 (ByteArray.ext hd)

def replacement : Char := Char.ofNat 0xFFFD

def continues (b : UInt8) : Bool :=
  0x80 ≤ b && b ≤ 0xBF

def follows (a b : UInt8) : Bool :=
  if a = 0xE0 then 0xA0 ≤ b && b ≤ 0xBF
  else if a = 0xED then 0x80 ≤ b && b ≤ 0x9F
  else if a = 0xF0 then 0x90 ≤ b && b ≤ 0xBF
  else if a = 0xF4 then 0x80 ≤ b && b ≤ 0x8F
  else continues b

def width (a : UInt8) : Nat :=
  if a < 0x80 then 1
  else if 0xC2 ≤ a && a ≤ 0xDF then 2
  else if 0xE0 ≤ a && a ≤ 0xEF then 3
  else if 0xF0 ≤ a && a ≤ 0xF4 then 4
  else 0

def low (b : UInt8) : Nat :=
  b.toNat % 64

def front? (bs : List UInt8) : Option (Char × Nat) :=
  match width (bs.headD 0), bs with
  | 1, a :: _ => some (Char.ofNat a.toNat, 1)
  | 2, a :: b :: _ =>
    if follows a b then some (Char.ofNat (a.toNat % 32 * 64 + low b), 2) else none
  | 3, a :: b :: c :: _ =>
    if follows a b && continues c then
      some (Char.ofNat ((a.toNat % 16 * 64 + low b) * 64 + low c), 3)
    else none
  | 4, a :: b :: c :: d :: _ =>
    if follows a b && continues c && continues d then
      some (Char.ofNat (((a.toNat % 8 * 64 + low b) * 64 + low c) * 64 + low d), 4)
    else none
  | _, _ => none

theorem front?_length_pos {bs : List UInt8} {c : Char} {n : Nat} (h : front? bs = some (c, n)) :
    0 < n := by
  unfold front? at h
  grind

def isCut (bs : List UInt8) : Bool :=
  match bs with
  | [] => true
  | [a] => 1 < width a
  | [a, b] => 2 < width a && follows a b
  | [a, b, c] => 3 < width a && follows a b && continues c
  | _ => false

def piecesFrom : Nat → List UInt8 → List Piece
  | _, [] => []
  | skip + 1, _ :: bs => piecesFrom skip bs
  | 0, b :: bs =>
    match front? (b :: bs) with
    | some (c, n) => .char c :: piecesFrom (n - 1) bs
    | none => .stray b :: piecesFrom 0 bs

def pieces (bs : List UInt8) : List Piece :=
  piecesFrom 0 bs

def Piece.shown : Piece → Char
  | char c => c
  | stray _ => replacement

end BlockIR.Utf8
