import BlockIR.Text.Utf8

/-! Texts as they come from outside: characters, or bytes that do not all belong to one. A text is
known by its bytes. -/

namespace BlockIR

inductive Text where
  | plain (s : String)
  | broken (bs : List UInt8) (invalid : ¬ (ByteArray.mk bs.toArray).IsValidUTF8)
deriving DecidableEq

namespace Text

instance : Coe String Text := ⟨plain⟩

instance : Inhabited Text := ⟨plain ""⟩

def ofBytes (bs : List UInt8) : Text :=
  if h : (ByteArray.mk bs.toArray).IsValidUTF8 then plain (String.fromUTF8 _ h) else broken bs h

def bytes : Text → List UInt8
  | plain s => Utf8.bytes s
  | broken bs _ => bs

theorem bytes_injective {s t : Text} (h : s.bytes = t.bytes) : s = t := by
  have hvalid (s : String) : (ByteArray.mk (Utf8.bytes s).toArray).IsValidUTF8 := s.isValidUTF8
  match s, t with
  | plain s, plain t => rw [Utf8.bytes_injective h]
  | broken _ _, broken _ _ =>
    cases h
    rfl
  | plain s, broken _ hb =>
    cases h
    exact absurd (hvalid s) hb
  | broken _ hb, plain t =>
    cases h
    exact absurd (hvalid t) hb

def size : Text → Nat
  | plain s => s.utf8ByteSize
  | broken bs _ => bs.length

def pieces : Text → List Utf8.Piece
  | plain s => s.toList.map .char
  | broken bs _ => Utf8.pieces bs

def shown : Text → String
  | plain s => s
  | broken bs _ => String.ofList ((Utf8.pieces bs).map Utf8.Piece.shown)

@[simp] theorem shown_plain (s : String) : (plain s).shown = s := rfl

end Text

end BlockIR
