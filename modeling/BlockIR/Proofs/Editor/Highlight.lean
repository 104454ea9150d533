import BlockIR.Editor.Highlight
import BlockIR.Proofs.Listing.Places
import BlockIR.Proofs.Listing.RoundTrip
import BlockIR.Proofs.Number.LeadingZero
import Mathlib.Data.List.Forall2

namespace BlockIR.Editor.Highlight

open Listing

def isShown (t : Token) : Bool :=
  t.kind = .ident || t.kind = .int

/-- A highlight at the start of a token, and as long unless the token is a number with zeros in front. -/
structure Marks (t : Token) (h : Highlight) : Prop where
  line : h.line = .ofNat (t.start.line - 1)
  start : h.start = .ofNat (t.start.column - 1)
  length : ∃ n ≤ t.text.toList.length, h.length = .ofNat n ∧
    (n = t.text.toList.length ↔ (t.kind = .int → ¬ Decimal.Padded t.text.toList))

structure Placed (l : Lexeme) : Prop extends l.Proper where
  line : l.token.start.line ≠ 0

lemma lexemes_placed (source : String) : ∀ l ∈ lexemes (scan source).tokens, Placed l := by
  intro l hl
  obtain ⟨k, _, _, hline, _⟩ := start_mem_lines (token_of_mem_lexemes hl).1
  exact ⟨lexemes_proper source l hl, by omega⟩

lemma ofText_of_placed {p : Position} {text : Text} (hp : p.line ≠ 0) (ht : text ≠ "") (kind : TokenClass)
    (declares : Bool) : ofText kind declares p text =
      [⟨.ofNat (p.line - 1), .ofNat (p.column - 1), .ofNat text.size, kind, declares⟩] :=
  if_neg (not_or.2 ⟨hp, ht⟩)

lemma plain_ne_empty {s : String} (h : s.toList ≠ []) : (s : Text) ≠ "" := by
  intro he
  cases he
  exact h rfl

def Shows (w : List Lexeme) (hs : List Highlight) : Prop :=
  List.Forall₂ Marks ((w.map (·.token)).filter isShown) hs

namespace Shows

variable {l : Lexeme} {v w : List Lexeme} {gs hs : List Highlight}

lemma nil : Shows [] [] :=
  List.Forall₂.nil

lemma append (hv : Shows v gs) (hw : Shows w hs) : Shows (v ++ w) (gs ++ hs) := by
  rw [Shows, List.map_append, List.filter_append]
  exact List.rel_append hv hw

lemma shown {h : Highlight} (hl : isShown l.token = true) (hm : Marks l.token h) (hw : Shows w hs) :
    Shows (l :: w) (h :: hs) := by
  rw [Shows, List.map_cons, List.filter_cons_of_pos hl]
  exact .cons hm hw

lemma mark {s : String} (hl : l.token.text = s) (hs' : s ∈ marks) (hp : Placed l) (hw : Shows w hs) :
    Shows (l :: w) hs := by
  have hk : l.token.kind = .punctuation := hp.toProper.kind_of_mark (hl ▸ hs')
  rw [Shows, List.map_cons, List.filter_cons_of_neg (by simp [isShown, hk])]
  exact hw

lemma name {x : Name} (hx : IsName l x) (hp : Placed l) (kind : TokenClass) (declares : Bool)
    (hw : Shows w hs) : Shows (l :: w) (ofName kind declares x ++ hs) := by
  obtain ⟨hk, rfl⟩ := hx
  have hsize := TokenKind.utf8ByteSize_of_lexeme hp.busy hp.whole
  rw [ofName, ofText_of_placed hp.line (plain_ne_empty hp.nonempty)]
  refine shown (by simp [isShown, hk]) ⟨rfl, rfl, _, Nat.le_of_eq hsize, rfl, by simp [hsize, hk]⟩ hw

lemma last {x : Name} (hx : IsName l x) (hp : Placed l) (kind : TokenClass) (declares : Bool) (hw : Shows w []) :
    Shows (l :: w) (ofName kind declares x) := by
  simpa using name hx hp kind declares hw

lemma many {α : Type} {D : List Lexeme → α → Prop} {f : α → List Highlight} {as : List α}
    (hD : ∀ u a, D u a → (∀ l ∈ u, Placed l) → Shows u (f a)) (h : Many D w as)
    (hp : ∀ l ∈ w, Placed l) : Shows w (as.flatMap f) := by
  induction h with
  | nil => exact nil
  | cons hd _ ih =>
    obtain ⟨hu, hv⟩ := List.forall_mem_append.1 hp
    exact (hD _ _ hd hu).append (ih hv)

end Shows

section Walk

variable {w : List Lexeme}

lemma shows_ofParam {p : Listing.Param} (h : IsParam w p) (hp : ∀ l ∈ w, Placed l) : Shows w (ofParam p) := by
  obtain ⟨hl, hm, hn⟩ := h
  exact .name hl (hp _ (by simp)) _ _ (.mark hm (by decide) (hp _ (by simp))
    (.last hn (hp _ (by simp)) _ _ .nil))

lemma shows_ofParams {ps : List Listing.Param} (h : IsParams w ps) (hp : ∀ l ∈ w, Placed l) :
    Shows w (ps.flatMap ofParam) := by
  cases h with
  | none => exact .nil
  | empty hl hr => exact .mark hl (by decide) (hp _ (by simp)) (.mark hr (by decide) (hp _ (by simp)) .nil)
  | some hl hw hv hr =>
    have hfirst := shows_ofParam hw fun l hl => hp l (by simp [hl])
    have hrest := Shows.many (f := ofParam) (fun _ _ ⟨hc, hu⟩ hp' =>
      .mark hc (by decide) (hp' _ (by simp)) (shows_ofParam hu fun l hl => hp' l (by simp [hl]))) hv
      fun l hl => hp l (by simp [hl])
    have hend : Shows [_] [] := .mark hr (by decide) (hp _ (by simp)) .nil
    refine .mark hl (by decide) (hp _ (by simp)) ?_
    simpa using (hfirst.append hrest).append hend

lemma shows_ofType {t : Option Name} (h : IsType w t) (hp : ∀ l ∈ w, Placed l) :
    Shows w ((t.map (ofName .type false)).getD []) := by
  cases h with
  | none => exact .nil
  | some hl hm => exact .mark hl (by decide) (hp _ (by simp)) (.last hm (hp _ (by simp)) _ _ .nil)

lemma shows_ofTarget {t : Target} (h : IsTarget w t) (hp : ∀ l ∈ w, Placed l) : Shows w (ofTarget t) := by
  obtain ⟨hl, hm, hn, hk⟩ := h
  exact .name hl (hp _ (by simp)) _ _ (.mark hm (by decide) (hp _ (by simp))
    (.last hn (hp _ (by simp)) _ _ (.mark hk (by decide) (hp _ (by simp)) .nil)))

lemma shows_ofOperand {o : Operand} (h : IsOperand w o) (hp : ∀ l ∈ w, Placed l) : Shows w (ofOperand o) := by
  cases h with
  | func hl hm => exact .mark hl (by decide) (hp _ (by simp)) (.last hm (hp _ (by simp)) _ _ .nil)
  | label hl hm => exact .mark hl (by decide) (hp _ (by simp)) (.last hm (hp _ (by simp)) _ _ .nil)
  | @int l n hk hn =>
    -- The number is measured as it is written out, which may be shorter than the token it was read from.
    have hstops : Stops [] := by simp [Stops]
    have hwhole := (Lexes.lexeme_ofInt n.toInt hstops).1
    rw [List.append_nil] at hwhole
    have hsize := TokenKind.utf8ByteSize_of_lexeme rfl hwhole
    have hplus : l.token.text.toList.head? ≠ some '+' := by
      intro hc
      have hopens := (hp l (by simp)).toProper.opens hc
      rw [hk] at hopens
      cases hopens
    obtain ⟨hle, heq⟩ := Decimal.length_ofInt_eq_iff hn hplus
    rw [← hsize] at hle heq
    have hne : (Decimal.ofInt n.toInt).toList ≠ [] := by
      rcases n.toInt with k | k <;> simp [Decimal.ofInt, Decimal.ofNat, Decimal.digits_ne_nil]
    change Shows [l] (ofText .number false l.token.start (Decimal.ofInt n.toInt))
    rw [ofText_of_placed (hp l (by simp)).line (plain_ne_empty hne)]
    exact .shown (by simp [isShown, hk]) ⟨rfl, rfl, _, hle, rfl, by simpa [hk] using heq⟩ .nil
  | @bool l b hb =>
    have hk := (hp l (by simp)).toProper.kind_of_bool b hb
    have hsize : (if b then "true" else "false" : String).utf8ByteSize = l.token.text.toList.length := by
      rw [hb]
      cases b <;> rfl
    have hne : (if b then "true" else "false" : String).toList ≠ [] := by cases b <;> decide
    change Shows [l] (ofText .keyword false l.token.start (if b then "true" else "false" : String))
    rw [ofText_of_placed (hp l (by simp)).line (plain_ne_empty hne)]
    exact .shown (by simp [isShown, hk]) ⟨rfl, rfl, _, Nat.le_of_eq hsize, rfl, by simp [hsize, hk]⟩ .nil
  | arg hx _ _ => exact .last hx (hp _ (by simp)) _ _ .nil

lemma shows_ofInstr {i : Listing.Instr} (h : IsInstr w i) (hp : ∀ l ∈ w, Placed l) : Shows w (ofInstr i) := by
  have hops {v : List Lexeme} {s : Lexeme} {os : List Operand} (hv : Many IsOperand v os) (hsub : v ⊆ w)
      (hs : s.token.text = ";") (hps : Placed s) : Shows (v ++ [s]) (os.flatMap ofOperand) := by
    have hmany := Shows.many (fun _ _ h hu => shows_ofOperand h hu) hv fun l hl => hp l (hsub hl)
    have hend : Shows [s] [] := .mark hs (by decide) hps .nil
    simpa using hmany.append hend
  cases h with
  | plain hl hv hs =>
    exact .name hl (hp _ (by simp)) _ _ (hops hv (fun l hl => by simp [hl]) hs (hp _ (by simp)))
  | targeted ht hl hv hs =>
    exact (shows_ofTarget ht fun l hl => hp l (by simp [hl])).append
      (.name hl (hp _ (by simp)) _ _ (hops hv (fun l hl => by simp [hl]) hs (hp _ (by simp))))

lemma shows_ofItem {i : Listing.Item} (h : IsItem w i) (hp : ∀ l ∈ w, Placed l) : Shows w (ofItem i) := by
  cases h with
  | label hx =>
    obtain ⟨hl, hm, hn⟩ := hx
    exact .mark hl (by decide) (hp _ (by simp)) (.last hm (hp _ (by simp)) _ _
      (.mark hn (by decide) (hp _ (by simp)) .nil))
  | instr hi => exact shows_ofInstr hi hp

lemma shows_ofFunc {f : Listing.Func} (h : IsFunc w f) (hp : ∀ l ∈ w, Placed l) : Shows w (ofFunc f) := by
  obtain ⟨hl, hm, hu, hv, hb, hw, he⟩ := h
  have hparams := shows_ofParams hu fun l hl => hp l (by simp [hl])
  have htype := shows_ofType hv fun l hl => hp l (by simp [hl])
  have hbody := Shows.many (fun _ _ h hu => shows_ofItem h hu) hw fun l hl => hp l (by simp [hl])
  have hend : Shows [_] [] := .mark he (by decide) (hp _ (by simp)) .nil
  have hrest := hparams.append (htype.append (.mark hb (by decide) (hp _ (by simp)) (hbody.append hend)))
  refine .mark hl (by decide) (hp _ (by simp)) (.name hm (hp _ (by simp)) _ _ ?_)
  simpa using hrest

lemma shows_ofListing {file source : String} {l : Listing} (h : parse file source = .ok l) :
    List.Forall₂ Marks ((scan source).tokens.filter isShown) (ofListing l) := by
  have hshows := Shows.many (fun _ _ h hu => shows_ofFunc h hu) (parse_ok h) (lexemes_placed source)
  have hfilter : ((lexemes (scan source).tokens).map (·.token)).filter isShown =
      (scan source).tokens.filter isShown := by
    rw [lexemes, lexemesFrom_token, List.filter_filter]
    refine List.filter_congr fun t _ => ?_
    cases hk : t.kind <;> simp [isShown, hk, TokenKind.isIdle]
  rwa [Shows, hfilter] at hshows

end Walk

/-- The numbers of `encodeFrom` without a bound on them: what a highlight is ahead of the one before it may be
negative. -/
def relativeFrom (line start : Int) : List Highlight → List Int
  | [] => []
  | h :: hs =>
    let down := h.line.toNat - line
    let right := if down = 0 then h.start.toNat - start else h.start.toNat
    [down, right, h.length.toNat, h.kind.index, if h.declares then 1 else 0] ++
      relativeFrom h.line.toNat h.start.toNat hs

def decodeFrom (line start : UInt32) : List UInt32 → Option (List Highlight)
  | [] => some []
  | down :: right :: length :: kind :: marks :: rest => do
    let line := line + down
    let start := if down = 0 then start + right else right
    let kind ← TokenClass.all[kind.toNat]?
    let hs ← decodeFrom line start rest
    return ⟨line, start, length, kind, marks &&& 1 ≠ 0⟩ :: hs
  | _ => none

def decode (data : List UInt32) : Option (List Highlight) :=
  decodeFrom 0 0 data

lemma all_getElem?_index (k : TokenClass) : TokenClass.all[(UInt32.ofNat k.index).toNat]? = some k := by
  cases k <;> rfl

lemma decodeFrom_encodeFrom (line start : UInt32) (hs : List Highlight) :
    decodeFrom line start (encodeFrom line start hs) = some hs := by
  induction hs generalizing line start with
  | nil => rfl
  | cons h hs ih =>
    have hline : line + (h.line - line) = h.line := by grind
    have hstart : (if h.line - line = 0 then start + (if h.line - line = 0 then h.start - start else h.start)
        else (if h.line - line = 0 then h.start - start else h.start)) = h.start := by
      split <;> grind
    have hdeclares : decide ((if h.declares then 1 else 0 : UInt32) &&& 1 ≠ 0) = h.declares := by
      cases h.declares <;> rfl
    simp only [encodeFrom, List.cons_append, List.nil_append, decodeFrom, hline, hstart, all_getElem?_index, ih,
      hdeclares]
    rfl

def NotBefore (line start : UInt32) (h : Highlight) : Prop :=
  line ≤ h.line ∧ (h.line = line → start ≤ h.start)

lemma encodeFrom_toNat {line start : UInt32} {hs : List Highlight} (hfirst : ∀ h ∈ hs, NotBefore line start h)
    (horder : hs.Pairwise fun a b => NotBefore a.line a.start b) :
    (encodeFrom line start hs).map (fun n => (n.toNat : Int)) = relativeFrom line.toNat start.toNat hs := by
  induction hs generalizing line start with
  | nil => rfl
  | cons h hs ih =>
    obtain ⟨hnext, htail⟩ := List.pairwise_cons.1 horder
    obtain ⟨hline, hstart⟩ := hfirst h List.mem_cons_self
    have hsub {m n : UInt32} (hle : m ≤ n) : ((n - m).toNat : Int) = n.toNat - m.toNat := by
      rw [UInt32.toNat_sub_of_le _ _ hle, Int.ofNat_sub (UInt32.le_iff_toNat_le.1 hle)]
    have hzero : (h.line.toNat : Int) - line.toNat = 0 ↔ h.line - line = 0 := by
      rw [← hsub hline, ← UInt32.toNat_inj]
      exact Int.natCast_eq_zero
    have hright : ((if h.line - line = 0 then h.start - start else h.start).toNat : Int) =
        if (h.line.toNat : Int) - line.toNat = 0 then (h.start.toNat : Int) - start.toNat else h.start.toNat := by
      by_cases hsame : h.line - line = 0
      · rw [if_pos hsame, if_pos (hzero.2 hsame), hsub (hstart (by grind))]
      · rw [if_neg hsame, if_neg (mt hzero.1 hsame)]
    have hkind : (UInt32.ofNat h.kind.index).toNat = h.kind.index := by
      cases h.kind <;> rfl
    have hdeclares : ((if h.declares then 1 else 0 : UInt32).toNat : Int) = if h.declares then 1 else 0 := by
      cases h.declares <;> rfl
    simp only [encodeFrom, relativeFrom, List.map_append, List.map_cons, List.map_nil, hsub hline, hright, hkind,
      hdeclares, ih hnext htail]

section Places

variable {source : String} {ts : List Token} {hs : List Highlight}

lemma pairwise_of_forall₂ {S : Token → Highlight → Prop} {R : Token → Token → Prop}
    {Q : Highlight → Highlight → Prop} (hQ : ∀ t u g h, S t g → S u h → R t u → Q g h)
    (h : List.Forall₂ S ts hs) (hts : ts.Pairwise R) : hs.Pairwise Q := by
  obtain ⟨hlength, hget⟩ := List.forall₂_iff_get.1 h
  rw [List.pairwise_iff_getElem] at hts ⊢
  intro i j hi hj hij
  exact hQ _ _ _ _ (hget i (hlength ▸ hi) hi) (hget j (hlength ▸ hj) hj) (hts i j _ _ hij)

structure StandsAt (t : Token) (h : Highlight) : Prop where
  line : h.line.toNat + 1 = t.start.line
  start : h.start.toNat + 1 = t.start.column
  length : h.length.toNat ≤ t.text.toList.length

lemma Marks.standsAt (hlines : (Text.lines source).length < UInt32.size)
    (hcolumns : ∀ s ∈ Text.lines source, s.length < UInt32.size) {t : Token} {h : Highlight}
    (ht : t ∈ (scan source).tokens) (hm : Marks t h) : StandsAt t h := by
  obtain ⟨k, cs, hk, hline, hpos, hcolumn⟩ := start_mem_lines ht
  obtain ⟨n, hn, hlength, _⟩ := hm.length
  have hk' : k < UInt32.size := by
    have hlt := (List.getElem?_eq_some_iff.1 hk).1
    rw [Text.lines, List.length_map] at hlines
    omega
  have hcs : cs.length < UInt32.size := by
    have hmem := List.mem_map_of_mem (f := String.ofList) (List.mem_of_getElem? hk)
    simpa using hcolumns _ hmem
  refine ⟨?_, ?_, ?_⟩
  · rw [hm.line, UInt32.toNat_ofNat_of_lt' (by omega)]
    omega
  · rw [hm.start, UInt32.toNat_ofNat_of_lt' (by omega)]
    omega
  · rw [hlength, UInt32.toNat_ofNat']
    exact Nat.le_trans (Nat.mod_le _ _) hn

lemma standsAt_ofListing {file : String} {l : Listing} (h : parse file source = .ok l)
    (hlines : (Text.lines source).length < UInt32.size)
    (hcolumns : ∀ s ∈ Text.lines source, s.length < UInt32.size) :
    List.Forall₂ StandsAt ((scan source).tokens.filter isShown) (ofListing l) := by
  obtain ⟨hlength, hget⟩ := List.forall₂_iff_get.1 (shows_ofListing h)
  refine List.forall₂_iff_get.2 ⟨hlength, fun i hi hi' => ?_⟩
  exact (hget i hi hi').standsAt hlines hcolumns (List.mem_of_mem_filter (List.get_mem _ _))

def Follows (g h : Highlight) : Prop :=
  g.line < h.line ∨ g.line = h.line ∧ g.start < h.start ∧ g.start.toNat + g.length.toNat ≤ h.start.toNat

lemma Follows.notBefore {g h : Highlight} (hgh : Follows g h) : NotBefore g.line g.start h := by
  rcases hgh with hlt | ⟨heq, hlt, _⟩
  · exact ⟨UInt32.le_of_lt hlt, fun heq => absurd (heq ▸ hlt) (UInt32.lt_irrefl _)⟩
  · exact ⟨UInt32.le_of_eq heq, fun _ => UInt32.le_of_lt hlt⟩

lemma pairwise_follows (h : List.Forall₂ StandsAt ((scan source).tokens.filter isShown) hs) :
    hs.Pairwise Follows := by
  have horder : ((scan source).tokens.filter isShown).Pairwise fun a b => a.start.line < b.start.line ∨
      a.start.line = b.start.line ∧ a.start.column < b.start.column ∧
        a.start.column + a.text.toList.length ≤ b.start.column := by
    refine (((scanFrom_laid TokenKind.all .start source.toList).pairwise).filter isShown).imp_of_mem ?_
    intro a b ha _ hab
    obtain ⟨hmem, hshown⟩ := List.mem_filter.1 ha
    obtain ⟨hwhole, hne⟩ := scanFrom_whole _ _ _ a hmem
    have hbusy : a.kind.isIdle = false := by
      cases hk : a.kind <;> simp [isShown, hk, TokenKind.isIdle] at hshown ⊢
    have hpos := List.length_pos_iff.2 hne
    rcases start_of_busy hbusy hwhole hab with hlt | ⟨heq, hle⟩
    · exact .inl hlt
    · exact .inr ⟨heq, by omega, hle⟩
  refine pairwise_of_forall₂ (fun t u g h hg hh htu => ?_) h horder
  have hgl := hg.line
  have hgs := hg.start
  have hgn := hg.length
  have hhl := hh.line
  have hhs := hh.start
  rcases htu with hlt | ⟨heq, hlt, hle⟩
  · exact .inl (UInt32.lt_iff_toNat_lt.2 (by omega))
  · exact .inr ⟨UInt32.toNat_inj.1 (by omega), UInt32.lt_iff_toNat_lt.2 (by omega), by omega⟩

/-- The highlights of a listing are those of the names and numbers of its source, in their order and in their
places. They do not overlap, so the data sent are the differences of their places, from which they are read
back. -/
theorem ofListing_enumerates {file : String} {l : Listing} (h : parse file source = .ok l)
    (hlines : (Text.lines source).length < UInt32.size)
    (hcolumns : ∀ s ∈ Text.lines source, s.length < UInt32.size) :
    List.Forall₂ (fun t g => g.line.toNat + 1 = t.start.line ∧ g.start.toNat + 1 = t.start.column)
      ((scan source).tokens.filter fun t => t.kind = .ident || t.kind = .int) (ofListing l) ∧
    ((ofListing l).Pairwise fun g h => g.line < h.line ∨ g.line = h.line ∧ g.start < h.start) ∧
    ((ofListing l).Pairwise fun g h => g.line = h.line → g.start.toNat + g.length.toNat ≤ h.start.toNat) ∧
    (encode (ofListing l)).map (fun n => (n.toNat : Int)) = relativeFrom 0 0 (ofListing l) ∧
    decode (encode (ofListing l)) = some (ofListing l) := by
  have hstands := standsAt_ofListing h hlines hcolumns
  have hfollows := pairwise_follows hstands
  refine ⟨hstands.imp fun _ _ hs => ⟨hs.line, hs.start⟩, ?_, ?_, ?_, decodeFrom_encodeFrom 0 0 _⟩
  · exact hfollows.imp fun hgh => hgh.imp_right fun hr => ⟨hr.1, hr.2.1⟩
  · refine hfollows.imp fun hgh heq => ?_
    rcases hgh with hlt | ⟨_, _, hle⟩
    · exact absurd (heq ▸ hlt) (UInt32.lt_irrefl _)
    · exact hle
  · -- The first place of all is before every highlight.
    refine encodeFrom_toNat (fun g _ => ⟨?_, fun _ => ?_⟩) (hfollows.imp Follows.notBefore)
    · exact UInt32.le_iff_toNat_le.2 (Nat.zero_le _)
    · exact UInt32.le_iff_toNat_le.2 (Nat.zero_le _)

theorem ofListing_enumerates_octal :
    let source := "@f(x: int) {
  y: int = const -010;print true y; # ü

  jmp .a;ret-0 007;}"
    ∃ l, parse "f" source = .ok l ∧
      (ofListing l).map (fun h => (h.line.toNat, h.start.toNat, h.length.toNat)) =
        [(0, 1, 1), (0, 3, 1), (0, 6, 3), (1, 2, 1), (1, 5, 3), (1, 11, 5), (1, 17, 2), (1, 22, 5), (1, 28, 4),
          (1, 33, 1), (3, 2, 3), (3, 7, 1), (3, 9, 3), (3, 12, 1), (3, 15, 1)] ∧
      (encode (ofListing l)).map (fun n => (n.toNat : Int)) = relativeFrom 0 0 (ofListing l) ∧
      decode (encode (ofListing l)) = some (ofListing l) := by
  intro source
  obtain ⟨l, hl⟩ : ∃ l, (parse "f" source).toOption = some l := Option.isSome_iff_exists.1 (by decide +kernel)
  have hparse := toOption_eq_some.1 hl
  refine ⟨l, hparse, ?_, (ofListing_enumerates hparse (by decide +kernel) (by decide +kernel)).2.2.2⟩
  have hmap : (parse "f" source).toOption.map (fun l => (ofListing l).map
      (fun h => (h.line.toNat, h.start.toNat, h.length.toNat))) = some
        [(0, 1, 1), (0, 3, 1), (0, 6, 3), (1, 2, 1), (1, 5, 3), (1, 11, 5), (1, 17, 2), (1, 22, 5), (1, 28, 4),
          (1, 33, 1), (3, 2, 3), (3, 7, 1), (3, 9, 3), (3, 12, 1), (3, 15, 1)] := by decide +kernel
  rw [hl] at hmap
  exact Option.some.inj hmap

/-- A highlight starts with the name or number it stands for and ends no later. It ends with it unless this is too
long to count, or a number with zeros in front: these are not counted, and neither is a sign before a zero. -/
theorem ofListing_extent {file : String} {l : Listing} (h : parse file source = .ok l) :
    List.Forall₂ (fun t g =>
        g.line = .ofNat (t.start.line - 1) ∧ g.start = .ofNat (t.start.column - 1) ∧
        g.length.toNat ≤ t.text.length ∧
        (g.length.toNat = t.text.length ↔
          t.text.length < UInt32.size ∧ (t.kind = .int → ¬ Decimal.Padded t.text.toList)))
      ((scan source).tokens.filter fun t => t.kind = .ident || t.kind = .int) (ofListing l) := by
  refine (shows_ofListing h).imp fun t g hm => ?_
  obtain ⟨n, hn, hlength, heq⟩ := hm.length
  have hle : n % UInt32.size ≤ n := Nat.mod_le _ _
  rw [← String.length_toList, ← heq, hlength, UInt32.toNat_ofNat']
  refine ⟨hm.line, hm.start, Nat.le_trans hle hn, ?_⟩
  constructor
  · intro hlen
    have hall : n = t.text.toList.length := Nat.le_antisymm hn (hlen ▸ hle)
    rw [← hall] at hlen ⊢
    exact ⟨(Nat.mod_eq_iff_lt (by decide)).1 hlen, rfl⟩
  · rintro ⟨hlt, rfl⟩
    exact Nat.mod_eq_of_lt hlt

theorem ofListing_extent_zeros :
    let source := "@f \x7b x: int = add -070 0 -0 70 -70 00; y: bool = id true; \x7d"
    let tokens := (scan source).tokens.filter fun t => t.kind = .ident || t.kind = .int
    ∃ l, parse "f" source = .ok l ∧
      tokens.map (·.text) = ["f", "x", "int", "add", "-070", "0", "-0", "70", "-70", "00", "y", "bool", "id", "true"] ∧
      (ofListing l).map (·.length.toNat) = [1, 1, 3, 3, 3, 1, 1, 2, 3, 1, 1, 4, 2, 4] ∧
      List.Forall₂ (fun t g => g.length.toNat = t.text.length ↔
          t.text.length < UInt32.size ∧ (t.kind = .int → ¬ Decimal.Padded t.text.toList)) tokens (ofListing l) := by
  intro source tokens
  have hlengths : (parse "f" source).toOption.map (fun l => (ofListing l).map (·.length.toNat)) =
      some [1, 1, 3, 3, 3, 1, 1, 2, 3, 1, 1, 4, 2, 4] := by decide +kernel
  obtain ⟨l, hl, hlengths⟩ := Option.map_eq_some_iff.1 hlengths
  have hparse := toOption_eq_some.1 hl
  exact ⟨l, hparse, by decide +kernel, hlengths, (ofListing_extent hparse).imp fun _ _ h => h.2.2.2⟩

theorem ofListing_extent_short :
    let source := "@f \x7b\n  x: int = const 007;\n\x7d"
    ∃ l, parse "f" source = .ok l ∧ ∃ t ∈ (scan source).tokens, ∃ g ∈ ofListing l,
      g.line.toNat + 1 = t.start.line ∧ g.start.toNat + 1 = t.start.column ∧ t.text.length = 3 ∧
      g.length.toNat = 1 := by
  intro source
  have hlast : (parse "f" source).toOption.map (fun l => (ofListing l)[4]?) =
      some (some ⟨1, 17, 1, .number, false⟩) := by decide +kernel
  obtain ⟨l, hl, hg⟩ := Option.map_eq_some_iff.1 hlast
  have ht : ⟨.int, "007", ⟨2, 18, 22⟩⟩ ∈ (scan source).tokens := by decide +kernel
  exact ⟨l, toOption_eq_some.1 hl, _, ht, _, List.mem_of_getElem? hg, rfl, rfl, rfl, rfl⟩

end Places

end BlockIR.Editor.Highlight
