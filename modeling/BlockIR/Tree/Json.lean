import BlockIR.Number.Hex
import BlockIR.Tree
import BlockIR.Tree.Json.Window

/-! Reading a tree from JSON, byte by byte through a window. Numbers keep their text, the last of
repeated keys wins, and what follows the first value is not looked at. Much is let pass: a comma or a
colon before the value, `null` for an empty key, control characters in strings, any bytes for the
digits of an escape, and any byte of a word at which the window had to be refilled. -/

namespace BlockIR.Json

open Window

def code (c : Char) : UInt8 :=
  c.toUInt8

def isSpace (b : UInt8) : Bool :=
  b = code ' ' || b = code '\t' || b = code '\n' || b = code '\r'

def skipSpace (w : Window) : Window :=
  (w.span isSpace).2

theorem skipSpace_notAfter (w : Window) : (skipSpace w).NotAfter w :=
  span_notAfter isSpace w

def unit (bs : List UInt8) : Nat :=
  (bs.take 4).foldl (fun n b => n * 16 + (Hex.value? (Char.ofNat b.toNat)).getD 0) 0

def isHighSurrogate (n : Nat) : Bool :=
  0xD800 ≤ n && n < 0xDC00

def isLowSurrogate (n : Nat) : Bool :=
  0xDC00 ≤ n && n < 0xE000

def pair? (high low : Nat) : Option Char :=
  if isHighSurrogate high && isLowSurrogate low then
    some (Char.ofNat (0x10000 + (high - 0xD800) * 0x400 + (low - 0xDC00)))
  else none

def replaced (c : Char) (count : Nat) (w : Window) : List UInt8 × Window :=
  let bs := Utf8.bytes (String.singleton c)
  (bs, { w.remove count with behind := w.behind - 1 + bs.length })

def lowHalf? (w : Window) : Option Nat :=
  if (w.ahead.drop 5).take 2 = [code '\\', code 'u'] then some (unit (w.ahead.drop 7)) else none

def surrogate (n : Nat) (w : Window) : List UInt8 × Window :=
  let r := w.reach 11
  match if r.1 then (lowHalf? r.2).bind (pair? n) else none with
  | some c => replaced c 11 r.2
  | none => replaced Utf8.replacement 5 r.2

def unicodeEscape (w : Window) : Option (List UInt8 × Window) :=
  let r := w.reach 5
  let n := unit (r.2.ahead.drop 1)
  if !r.1 then none
  else if isHighSurrogate n || isLowSurrogate n then some (surrogate n r.2)
  else some (replaced (Char.ofNat n) 5 r.2)

def simpleEscape? (b : UInt8) : Option UInt8 :=
  if b = code '"' || b = code '\\' || b = code '/' then some b
  else if b = code 'b' then some 8
  else if b = code 'f' then some 12
  else if b = code 'n' then some 10
  else if b = code 'r' then some 13
  else if b = code 't' then some 9
  else none

def escape (w : Window) : Option (List UInt8 × Window) :=
  let v := w.settle
  if v.head = code 'u' then unicodeEscape v
  else (simpleEscape? v.head).map fun b => ([b], v.remove 1)

theorem replaced_notAfter (c : Char) (count : Nat) (w : Window) :
    (replaced c count w).2.NotAfter w :=
  remove_notAfter count w

theorem surrogate_notAfter (n : Nat) (w : Window) : (surrogate n w).2.NotAfter w := by
  unfold surrogate
  dsimp only
  split
  · exact (replaced_notAfter _ _ _).trans (reach_notAfter 11 w)
  · exact (replaced_notAfter _ _ _).trans (reach_notAfter 11 w)

theorem unicodeEscape_notAfter {w v : Window} {bs : List UInt8}
    (h : unicodeEscape w = some (bs, v)) : v.NotAfter w := by
  have hr := reach_notAfter 5 w
  unfold unicodeEscape at h
  dsimp only at h
  split at h
  · cases h
  · split at h
    · have hs := surrogate_notAfter (unit ((w.reach 5).2.ahead.drop 1)) (w.reach 5).2
      rw [Option.some.inj h] at hs
      exact hs.trans hr
    · have hs := replaced_notAfter (Char.ofNat (unit ((w.reach 5).2.ahead.drop 1))) 5 (w.reach 5).2
      rw [Option.some.inj h] at hs
      exact hs.trans hr

theorem escape_notAfter {w v : Window} {bs : List UInt8} (h : escape w = some (bs, v)) :
    v.NotAfter w := by
  unfold escape at h
  dsimp only at h
  split at h
  · exact (unicodeEscape_notAfter h).trans (settle_notAfter w)
  · obtain ⟨b, _, hb⟩ := Option.map_eq_some_iff.1 h
    cases hb
    exact (remove_notAfter 1 _).trans (settle_notAfter w)

def repaired (w : Window) : List UInt8 × Window :=
  match Utf8.front? w.ahead with
  | some (_, n) => (w.ahead.take n, w.skip n)
  | none =>
    let bs := Utf8.bytes (String.singleton Utf8.replacement)
    (bs, { w with ahead := w.ahead.drop 1, behind := w.behind + bs.length })

theorem repaired_before {w : Window} (h : w.ahead ≠ []) : (repaired w).2.Before w := by
  unfold repaired
  split
  · rename_i hf
    exact skip_before h (Utf8.front?_length_pos hf)
  · have hl := List.length_pos_iff.2 h
    refine before_of_ahead rfl ?_
    simp only [List.length_drop]
    omega

def advance (repair : Bool) (w : Window) : List UInt8 × Window :=
  if repair then repaired w else ([w.head], w.next)

theorem advance_before {w : Window} (repair : Bool) (h : w.ahead ≠ []) :
    (advance repair w).2.Before w := by
  unfold advance
  split
  · exact repaired_before h
  · exact next_before h

def stringFrom (repair : Bool) (taken : List UInt8) (w : Window) : Option (List UInt8 × Window) :=
  let v := w.settle
  if _hz : v.head = 0 then none
  else if v.head = code '"' then some (taken.reverse, v.next)
  else if v.head = code '\\' then
    match _h : escape v.next with
    | none => none
    | some (bs, u) => stringFrom repair (bs.reverse ++ taken) u
  else if repair && Utf8.isCut (v.ahead.take 5).dropLast then
    match _h : v.refill with
    | none => none
    | some u => stringFrom repair taken u
  else stringFrom repair ((advance repair v).1.reverse ++ taken) (advance repair v).2
termination_by w.rank
decreasing_by
  · exact ((escape_notAfter _h).trans_before (next_before (ahead_ne_nil _hz))).trans_notAfter
      (settle_notAfter w)
  · exact (refill_before _h).trans_notAfter (settle_notAfter w)
  · exact (advance_before repair (ahead_ne_nil _hz)).trans_notAfter (settle_notAfter w)

theorem stringFrom_before {repair : Bool} {taken bs : List UInt8} {w u : Window}
    (h : stringFrom repair taken w = some (bs, u)) : u.Before w := by
  induction taken, w using stringFrom.induct repair with
  | case1 taken w v hz =>
    rw [stringFrom, dif_pos hz] at h
    cases h
  | case2 taken w v hz hq =>
    rw [stringFrom, dif_neg hz, if_pos hq] at h
    cases h
    exact (next_before (ahead_ne_nil hz)).trans_notAfter (settle_notAfter w)
  | case3 taken w v hz hq hs he =>
    rw [stringFrom, dif_neg hz, if_neg hq, if_pos hs] at h
    split at h
    · cases h
    · rename_i he'
      cases he.symm.trans he'
  | case4 taken w v hz hq hs as u' he ih =>
    rw [stringFrom, dif_neg hz, if_neg hq, if_pos hs] at h
    split at h
    · cases h
    · rename_i he'
      cases he.symm.trans he'
      exact (ih h).trans (((escape_notAfter he).trans_before
        (next_before (ahead_ne_nil hz))).trans_notAfter (settle_notAfter w))
  | case5 taken w v hz hq hs hc he =>
    rw [stringFrom, dif_neg hz, if_neg hq, if_neg hs, if_pos hc] at h
    split at h
    · cases h
    · rename_i he'
      cases he.symm.trans he'
  | case6 taken w v hz hq hs hc u' he ih =>
    rw [stringFrom, dif_neg hz, if_neg hq, if_neg hs, if_pos hc] at h
    split at h
    · cases h
    · rename_i he'
      cases he.symm.trans he'
      exact (ih h).trans ((refill_before he).trans_notAfter (settle_notAfter w))
  | case7 taken w v hz hq hs hc ih =>
    rw [stringFrom, dif_neg hz, if_neg hq, if_neg hs, if_neg hc] at h
    exact (ih h).trans ((advance_before repair (ahead_ne_nil hz)).trans_notAfter
      (settle_notAfter w))

def isDigit (b : UInt8) : Bool :=
  code '0' ≤ b && b ≤ code '9'

def isNumberByte (b : UInt8) : Bool :=
  isDigit b || b = code '+' || b = code '-' || b = code '.' || b = code 'e' || b = code 'E'

def number (w : Window) : Option (Tree × Window) := do
  let (bs, v) := w.next.span isNumberByte
  let cs := (w.head :: bs).map fun b => Char.ofNat b.toNat
  let n ← Decimal.readScientific? cs
  let _ ← Binary64.ofScientific? n
  return (.number (.written (String.ofList cs)), v.cut)

/-- Passes over letters. Where the window has to be refilled, the letter is not looked at. -/
def letters : List Char → Window → Option Window
  | [], w => some w
  | c :: cs, w =>
    if w.head = code c then letters cs w.next
    else if w.head = 0 then w.refill.bind fun v => letters cs v.next
    else none

theorem letters_notAfter {cs : List Char} {w v : Window} (h : letters cs w = some v) :
    v.NotAfter w := by
  induction cs generalizing w with
  | nil =>
    cases h
    exact .refl v
  | cons c cs ih =>
    rw [letters] at h
    split at h
    · exact (ih h).trans (next_notAfter w)
    · split at h
      · obtain ⟨u, hu, h⟩ := Option.bind_eq_some_iff.1 h
        exact (ih h).trans ((next_notAfter u).trans (refill_before hu).notAfter)
      · cases h

theorem number_before {w v : Window} {t : Tree} (hw : w.ahead ≠ []) (h : number w = some (t, v)) :
    v.Before w := by
  have hs := span_notAfter isNumberByte w.next
  unfold number at h
  simp only [Option.bind_eq_bind, Option.bind_eq_some_iff] at h
  obtain ⟨_, _, _, _, h⟩ := h
  cases h
  exact NotAfter.trans_before hs (next_before hw)

def scalar (w : Window) : Option (Tree × Window) :=
  if w.head = code '"' then
    (stringFrom false [] w.next).map fun (bs, v) => (.text (.ofBytes bs), v)
  else if w.head = code 't' then (letters ['r', 'u', 'e'] w.next).map fun v => (.bool true, v)
  else if w.head = code 'f' then (letters ['a', 'l', 's', 'e'] w.next).map fun v => (.bool false, v)
  else if w.head = code 'n' then (letters ['u', 'l', 'l'] w.next).map fun v => (.null, v)
  else if isDigit w.head || w.head = code '-' then number w
  else none

theorem scalar_before {w v : Window} {t : Tree} (h : scalar w = some (t, v)) : v.Before w := by
  have hw : w.ahead ≠ [] := by
    intro hw
    have hz : w.head = 0 := by simp [head, hw]
    rw [scalar, hz, if_neg (by decide), if_neg (by decide), if_neg (by decide),
      if_neg (by decide), if_neg (by decide)] at h
    cases h
  have hword (cs : List Char) (r : Tree)
      (hr : (letters cs w.next).map (fun u => (r, u)) = some (t, v)) : v.Before w := by
    obtain ⟨u, hu, he⟩ := Option.map_eq_some_iff.1 hr
    cases he
    exact (letters_notAfter hu).trans_before (next_before hw)
  unfold scalar at h
  split at h
  · obtain ⟨⟨bs, u⟩, hu, he⟩ := Option.map_eq_some_iff.1 h
    cases he
    exact (stringFrom_before hu).trans (next_before hw)
  · split at h
    · exact hword _ _ h
    · split at h
      · exact hword _ _ h
      · split at h
        · exact hword _ _ h
        · split at h
          · exact number_before hw h
          · cases h

/-- A key is a string, or `null` for the empty one. After a string the window is cut. -/
def key (w : Window) : Option (String × Window) :=
  if w.head = code '"' then
    (stringFrom true [] w.next).map fun (bs, v) => ((Text.ofBytes bs).shown, v.cut)
  else if w.head = code 'n' then (letters ['u', 'l', 'l'] w.next).map fun v => ("", v)
  else none

theorem key_before {w v : Window} {k : String} (h : key w = some (k, v)) : v.Before w := by
  have hw : w.ahead ≠ [] := by
    intro hw
    have hz : w.head = 0 := by simp [head, hw]
    rw [key, hz, if_neg (by decide), if_neg (by decide)] at h
    cases h
  unfold key at h
  split at h
  · obtain ⟨⟨bs, u⟩, hu, he⟩ := Option.map_eq_some_iff.1 h
    cases he
    exact (stringFrom_before hu).trans (next_before hw)
  · split at h
    · obtain ⟨u, hu, he⟩ := Option.map_eq_some_iff.1 h
      cases he
      exact (letters_notAfter hu).trans_before (next_before hw)
    · cases h

inductive Frame where
  | list (items : List Tree)
  | object (entries : List (String × Tree)) (key : String)

def objectOf (entries : List (String × Tree)) : Tree :=
  .object (entries.foldl (fun table e => Table.set table e.1 e.2) [])

def maxDepth : Nat := 10000

theorem skipSpace_next_before {w : Window} {c : Char} (h : (skipSpace w).head = code c)
    (hc : code c ≠ 0) : (skipSpace w).next.Before w :=
  (next_before (ahead_ne_nil (h ▸ hc))).trans_notAfter (skipSpace_notAfter w)

mutual

def value (frames : List Frame) (w : Window) : Option Tree :=
  let v := skipSpace w
  if _hl : v.head = code '[' then
    let u := skipSpace v.next
    if maxDepth ≤ frames.length then none
    else if _hr : u.head = code ']' then finish frames (.list []) u.next
    else value (.list [] :: frames) u
  else if _hl : v.head = code '\x7b' then
    let u := skipSpace v.next
    if maxDepth ≤ frames.length then none
    else if _hr : u.head = code '\x7d' then finish frames (.object []) u.next
    else entry frames [] u
  else match _h : scalar v with
    | none => none
    | some (t, u) => finish frames t u
termination_by w.rank
decreasing_by
  · exact (skipSpace_next_before _hr (by decide)).trans (skipSpace_next_before _hl (by decide))
  · exact (skipSpace_notAfter _).trans_before (skipSpace_next_before _hl (by decide))
  · exact (skipSpace_next_before _hr (by decide)).trans (skipSpace_next_before _hl (by decide))
  · exact (skipSpace_notAfter _).trans_before (skipSpace_next_before _hl (by decide))
  · exact (scalar_before _h).trans_notAfter (skipSpace_notAfter w)

def entry (frames : List Frame) (entries : List (String × Tree)) (w : Window) : Option Tree :=
  match _h : key (skipSpace w) with
  | none => none
  | some (k, v) =>
    let u := skipSpace v
    if _hc : u.head = code ':' then value (.object entries k :: frames) u.next else none
termination_by w.rank
decreasing_by
  exact ((skipSpace_next_before _hc (by decide)).trans (key_before _h)).trans_notAfter
    (skipSpace_notAfter w)

def finish (frames : List Frame) (t : Tree) (w : Window) : Option Tree :=
  match frames with
  | [] => some t
  | .list items :: frames =>
    let v := skipSpace w
    if _hc : v.head = code ',' then value (.list (t :: items) :: frames) v.next
    else if _hr : v.head = code ']' then finish frames (.list (t :: items).reverse) v.next
    else none
  | .object entries k :: frames =>
    let v := skipSpace w
    if _hc : v.head = code ',' then entry frames ((k, t) :: entries) v.next
    else if _hr : v.head = code '\x7d' then finish frames (objectOf ((k, t) :: entries).reverse) v.next
    else none
termination_by w.rank
decreasing_by
  · exact skipSpace_next_before _hc (by decide)
  · exact skipSpace_next_before _hr (by decide)
  · exact skipSpace_next_before _hc (by decide)
  · exact skipSpace_next_before _hr (by decide)

end

def read? (source : List UInt8) : Option Tree :=
  let w := skipSpace (Window.onto source)
  value [] (if w.head = code ',' || w.head = code ':' then w.next else w)

end BlockIR.Json
