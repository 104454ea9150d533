import BlockIR.Proofs.Decode.FirstFailure
import BlockIR.Proofs.Editor.Diagnostic
import BlockIR.Proofs.Listing.Places
import BlockIR.Proofs.Listing.RoundTrip
import BlockIR.Proofs.Program.Lowering

/-! Failures of the decoder are shown where they come from. Each item of a listing has one record, so the numbers
on the path of a failure lead back from the record to the item and to the token that names it. -/

namespace BlockIR

namespace Listing

structure NamedBy (source : String) (x : Name) (t : Token) : Prop where
  mem : t ∈ (scan source).tokens
  kind : t.kind = .ident
  name : x = ⟨.plain t.text, t.start⟩

section Parse

variable {file source : String} {l : Listing} {f : Func}

lemma IsName.namedBy {m : Lexeme} {x : Name} (h : IsName m x) (hm : m ∈ lexemes (scan source).tokens) :
    NamedBy source x m.token :=
  ⟨(token_of_mem_lexemes hm).1, h.1, h.2⟩

lemma length_lexemes_le (source : String) : (lexemes (scan source).tokens).length ≤ source.length := by
  have hlength := congrArg List.length (lexemesFrom_token none (scan source).tokens)
  rw [List.length_map] at hlength
  calc (lexemes (scan source).tokens).length
      = ((scan source).tokens.filter (!·.kind.isIdle)).length := hlength
    _ ≤ (scan source).tokens.length := List.length_filter_le _ _
    _ ≤ source.length := length_tokens_le source

lemma IsFunc.ne_nil {w : List Lexeme} (h : IsFunc w f) : w ≠ [] := by
  cases h
  simp

lemma IsItem.ne_nil {w : List Lexeme} {i : Item} (h : IsItem w i) : w ≠ [] := by
  rcases h with ⟨⟨⟩⟩ | ⟨⟨⟩ | ⟨⟨⟩⟩⟩ <;> simp

lemma length_funcs_le (h : parse file source = .ok l) : l.funcs.length ≤ source.length :=
  Nat.le_trans (Rule.Many.length_le (parse_ok h) fun _ _ hf => hf.ne_nil) (length_lexemes_le source)

lemma exists_body (h : parse file source = .ok l) (hf : f ∈ l.funcs) :
    (∃ t, NamedBy source f.name t) ∧ ∃ w, Many IsItem w f.body ∧ w <:+: lexemes (scan source).tokens := by
  obtain ⟨u, hu, hpart⟩ := (parse_ok h).exists_of_mem hf
  cases hu with
  | @mk a m b e u v w _ _ _ _ _ hm _ _ _ hw _ =>
    have hbody : w <:+: a :: m :: (u ++ (v ++ (b :: (w ++ [e])))) := ⟨a :: m :: (u ++ (v ++ [b])), [e], by simp⟩
    exact ⟨⟨m.token, hm.namedBy (hpart.subset (by simp))⟩, w, hw, hbody.trans hpart⟩

lemma length_body_le (h : parse file source = .ok l) (hf : f ∈ l.funcs) : f.body.length ≤ source.length := by
  obtain ⟨_, w, hw, hpart⟩ := exists_body h hf
  exact Nat.le_trans (Rule.Many.length_le hw fun _ _ hi => hi.ne_nil)
    (Nat.le_trans hpart.length_le (length_lexemes_le source))

lemma exists_op {i : Instr} (h : parse file source = .ok l) (hf : f ∈ l.funcs) (hi : .instr i ∈ f.body) :
    ∃ t, NamedBy source i.op t := by
  obtain ⟨_, w, hw, hpart⟩ := exists_body h hf
  obtain ⟨u, hu, hpart'⟩ := hw.exists_of_mem hi
  have hsub := (hpart'.trans hpart).subset
  cases hu with
  | instr hu =>
    cases hu with
    | plain ho _ _ => exact ⟨_, ho.namedBy (hsub (by simp))⟩
    | targeted _ ho _ _ => exact ⟨_, ho.namedBy (hsub (by simp))⟩

end Parse

structure FirstRefused (file : String) (body : List Item) (j : Nat) : Prop where
  refused : ∃ i t e, body[j]? = some i ∧ i.toTree file = .ok t ∧ Decode.item t = .error e
  earlier : ∀ i ∈ body.take j, ∃ t a, i.toTree file = .ok t ∧ Decode.item t = .ok a

section Records

open Decode

variable {file : String} {f : Func}

lemma firstRefused_of_failsFirst {body : List Item} {ts : List Tree} {j : Nat} {e : DecodeFailure}
    (hts : List.Forall₂ (fun i t => i.toTree file = .ok t) body ts) (h : FailsFirst Decode.item ts j e) :
    FirstRefused file body j := by
  obtain ⟨⟨t, ht, hfails⟩, hearlier⟩ := h
  obtain ⟨i, hi, hit⟩ := forall₂_getElem? hts ht
  refine ⟨⟨i, t, e, hi, hit, hfails⟩, ?_⟩
  exact forall₂_right (List.forall₂_take j hts).flip hearlier fun u _ ⟨a, ha⟩ hu => ⟨u, a, hu, ha⟩

lemma FirstRefused.exists_instr {body : List Item} {j : Nat} (h : FirstRefused file body j) :
    ∃ i, body[j]? = some (.instr i) := by
  obtain ⟨_ | i, t, e, hi, ht, he⟩ := h.refused
  · -- The record of a label decodes.
    cases ht
    cases he
  · exact ⟨i, hi⟩

lemma Func.failure_cases {seen : List Text} {t : Tree} {e : DecodeFailure} (ht : f.toTree file = .ok t)
    (h : FuncFailure seen t e) :
    (∃ j, ∃ e' : DecodeFailure, FirstRefused file f.body j ∧ e'.under [nth "instrs" j] = e) ∨
      ∀ s ∈ e.path.head?, ¬ Enters "instrs" s := by
  obtain ⟨ts, hts, rfl⟩ := Func.toTree_ok.1 ht
  cases h with
  | own h =>
    rcases func_failure_cases h with ⟨us, j, e', hus, hj, rfl⟩ | hout
    · rw [Func.mayHave_instrs.1 hus] at hj
      exact .inl ⟨j, e', firstRefused_of_failsFirst hts hj, rfl⟩
    · exact .inr hout
  | repeated _ _ =>
    refine .inr fun s hs => ?_
    cases hs
    decide

end Records

end Listing

namespace Editor

open Decode

def Range.Covers (r : Range) (t : Listing.Token) : Prop :=
  let stop := t.start.after t.text.toList
  r.start = ⟨.ofNat (t.start.line - 1), .ofNat (t.start.column - 1)⟩ ∧
    r.stop = ⟨.ofNat (stop.line - 1), .ofNat (stop.column - 1)⟩

lemma Range.ofName_covers {source : String} {x : Listing.Name} {t : Listing.Token}
    (h : Listing.NamedBy source x t) : (Range.ofName x).Covers t := by
  obtain ⟨hmem, hkind, rfl⟩ := h
  obtain ⟨k, cs, _, hline, hcolumn, _⟩ := Listing.start_mem_lines hmem
  obtain ⟨hwhole, hne⟩ := Listing.scanFrom_whole _ _ _ t hmem
  have hbusy : t.kind.isIdle = false := by rw [hkind]; rfl
  have hnewline := Listing.newline_not_mem hbusy hwhole
  have hsize := Listing.TokenKind.utf8ByteSize_of_lexeme hbusy hwhole
  have hpos := List.length_pos_iff.2 hne
  have hl : (max (t.start.line : Int) 1 - 1).toNat = t.start.line - 1 := by omega
  have hc : (max (t.start.column : Int) 1 - 1).toNat = t.start.column - 1 := by omega
  have hn : (max ((Text.plain t.text).size : Int) 1).toNat = t.text.toList.length := by
    rw [Text.size, hsize]
    omega
  have hstop : t.start.column - 1 + t.text.toList.length = t.start.column + t.text.toList.length - 1 := by omega
  simp only [Range.Covers, Range.ofName, Range.ofLine, Position.after_line_of_not_mem hnewline,
    Position.after_column_of_not_mem hnewline, hl, hc, hn, hstop, and_self]

namespace Diagnostic

lemma index?_nth {key : String} {i : Nat} (hi : i < Nat.pow 2 63) : index? key (nth key i) = some (i : Int) := by
  have hfront : dropFront? (key.toList ++ ['[']) (nth key i).toList = some (Decimal.digits i ++ [']']) := by
    obtain ⟨cs, hcs⟩ := enters_nth key i
    have hrest : cs = Decimal.digits i ++ [']'] := by simpa [nth, Decimal.ofNat] using hcs
    rw [dropFront?, ← hcs, if_pos (by simp), List.drop_left, hrest]
  have hback : dropFront? [']'] (Decimal.digits i ++ [']']).reverse = some (Decimal.digits i).reverse := by
    simp [dropFront?]
  have hint : (Int64.ofInt i).toInt = i := Int64.toInt_ofInt_of_le (by omega) (Int.ofNat_lt.2 hi)
  have hspells : Decimal.Spells (Decimal.digits i) i := by
    have hplain := Decimal.Spells.plain (Decimal.digits_ne_nil i) Decimal.isDigit_of_mem_digits
    rwa [Decimal.value_digits] at hplain
  have hread : Decimal.readInt64 (String.ofList (Decimal.digits i)) = .ok (Int64.ofInt i) := by
    rw [Decimal.readInt64_ok, hint, String.toList_ofList]
    exact hspells
  simp only [index?, Option.bind_eq_bind, hfront, Option.bind_some, hback, List.reverse_reverse, hread,
    Except.toOption, hint]
  rfl

lemma index?_of_not_enters {key segment : String} (h : ¬ Enters key segment) : index? key segment = none := by
  have hdrop : dropFront? (key.toList ++ ['[']) segment.toList = none := by
    rw [dropFront?, if_neg (by simpa [Enters] using h)]
  simp [index?, hdrop]

section Names

variable {l : Listing} {f : Listing.Func} {i : Nat} (hf : l.funcs[i]? = some f) (hi : i < Nat.pow 2 63)
  (rest : List String)

include hf hi

lemma nameAt?_cons : nameAt? l (nth "functions" i :: rest) =
    match rest[0]? >>= index? "instrs" with
    | none => .ok (some f.name)
    | some j => opName? f j >>= fun o => .ok (some (o.getD f.name)) := by
  have hfirst : (nth "functions" i :: rest)[0]? >>= index? "functions" = some (i : Int) := index?_nth hi
  have hitem : item? l.funcs (i : Int) = .ok (some f) := by
    rw [item?_eq_ok (Int.natCast_nonneg i), Int.toNat_natCast, hf]
  simp only [nameAt?, hfirst, hitem, ok_bind, List.getElem?_cons_succ]
  rfl

lemma nameAt?_func {rest : List String} (h : ∀ s ∈ rest.head?, ¬ Enters "instrs" s) :
    nameAt? l (nth "functions" i :: rest) = .ok (some f.name) := by
  have hrest : rest[0]? >>= index? "instrs" = none := by
    cases rest with
    | nil => rfl
    | cons s rest => exact index?_of_not_enters (h s rfl)
  rw [nameAt?_cons hf hi _, hrest]

lemma nameAt?_op {j : Nat} {x : Listing.Instr} (hx : f.body[j]? = some (.instr x)) (hj : j < Nat.pow 2 63) :
    nameAt? l (nth "functions" i :: nth "instrs" j :: rest) = .ok (some x.op) := by
  have hrest : (nth "instrs" j :: rest)[0]? >>= index? "instrs" = some (j : Int) := index?_nth hj
  have hop : opName? f (j : Int) = .ok (some x.op) := by
    rw [opName?, item?_eq_ok (Int.natCast_nonneg j), Int.toNat_natCast, hx]
    rfl
  rw [nameAt?_cons hf hi _, hrest]
  simp only [hop, ok_bind, Option.getD_some]

end Names

end Diagnostic

section Failure

open Listing

variable {uri source : String} {l : Listing} {t : Tree} {e : DecodeFailure}

lemma Document.analyze_diagnostics {x : Name} (hparse : parse uri source = .ok l) (htree : l.toTree uri = .ok t)
    (hdecode : Decode.program t = .error e) (hx : Diagnostic.nameAt? l e.path = .ok (some x)) :
    ∃ d, (analyze uri source).diagnostics = [d] ∧ d.range = .ofName x := by
  have hlisting : Program.ofListing uri l = .error (.decode e) := by
    simp only [Program.ofListing, Program.ofTree, htree, Except.mapError, ok_bind, hdecode]
  have hrange : Diagnostic.rangeOf e.path (some l) = .ok (.ofName x) := by
    rw [Diagnostic.rangeOf, hx]
    rfl
  have hanalyze : analyze uri source = ⟨source, some l, .error (.decode e)⟩ := by
    rw [analyze, hparse, ← hlisting]
  obtain ⟨d, hd⟩ : ∃ d, Diagnostic.ofFailure (.decode e) (some l) = .ok d ∧ d.range = .ofName x :=
    ⟨_, map_eq_ok.2 ⟨_, hrange, rfl⟩, rfl⟩
  refine ⟨d, ?_, hd.2⟩
  simp only [hanalyze, diagnostics, hd.1]
  rfl

lemma exists_func (htree : l.toTree uri = .ok t) (hdecode : Decode.program t = .error e) :
    ∃ i f u seen e', l.funcs[i]? = some f ∧ f.toTree uri = .ok u ∧ FuncFailure seen u e' ∧
      e'.under [nth "functions" i] = e := by
  obtain ⟨ts, hts, h⟩ := bind_eq_ok.1 htree
  cases h
  obtain ⟨i, e', ⟨u, fs, hu, _, _, _, hfail⟩, he⟩ := (program_eq_error rfl rfl).1 hdecode
  obtain ⟨f, hf, hfu⟩ := forall₂_getElem? (mapM_eq_ok.1 hts) hu
  exact ⟨i, f, u, _, e', hf, hfu, hfail, he⟩

/-- A failure of the decoder is shown on the operation of the first item of a body that does not decode, or else
on the name of the function that it is in. Numbers on a path are read with 64 bits, which is enough for the items
of a source of that length. -/
theorem diagnostics_cover_token (hsize : source.length < Nat.pow 2 63) (hparse : parse uri source = .ok l)
    (htree : l.toTree uri = .ok t) (hdecode : Decode.program t = .error e) :
    ∃ i f x d, l.funcs[i]? = some f ∧ e.path[0]? = some (nth "functions" i) ∧
      Diagnostic.nameAt? l e.path = .ok (some x) ∧ (Document.analyze uri source).diagnostics = [d] ∧
      d.range = .ofName x ∧
      (∀ j, e.path[1]? = some (nth "instrs" j) → ∃ instr tok, f.body[j]? = some (.instr instr) ∧
        FirstRefused uri f.body j ∧ NamedBy source instr.op tok ∧ d.range.Covers tok) ∧
      ((∀ j, e.path[1]? ≠ some (nth "instrs" j)) → ∃ tok, NamedBy source f.name tok ∧ d.range.Covers tok) := by
  obtain ⟨i, f, u, seen, e', hf, hu, hfail, rfl⟩ := exists_func htree hdecode
  have hmem := List.mem_of_getElem? hf
  have hi : i < Nat.pow 2 63 := by
    have hlt := (List.getElem?_eq_some_iff.1 hf).1
    have hle := length_funcs_le hparse
    omega
  rcases Func.failure_cases hu hfail with ⟨j, e₂, hfirst, rfl⟩ | hout
  · obtain ⟨instr, hinstr⟩ := hfirst.exists_instr
    have hj : j < Nat.pow 2 63 := by
      have hlt := (List.getElem?_eq_some_iff.1 hinstr).1
      have hle := length_body_le hparse hmem
      omega
    obtain ⟨tok, htok⟩ := exists_op hparse hmem (List.mem_of_getElem? hinstr)
    have hname := Diagnostic.nameAt?_op hf hi e₂.path hinstr hj
    obtain ⟨d, hd, hrange⟩ := Document.analyze_diagnostics hparse htree hdecode hname
    refine ⟨i, f, instr.op, d, hf, rfl, hname, hd, hrange, fun k hk => ?_, fun hnone => absurd rfl (hnone j)⟩
    obtain rfl := nth_injective (Option.some.inj hk)
    exact ⟨instr, tok, hinstr, hfirst, htok, hrange ▸ Range.ofName_covers htok⟩
  · obtain ⟨⟨tok, htok⟩, _⟩ := exists_body hparse hmem
    have hname := Diagnostic.nameAt?_func hf hi hout
    obtain ⟨d, hd, hrange⟩ := Document.analyze_diagnostics hparse htree hdecode hname
    refine ⟨i, f, f.name, d, hf, rfl, hname, hd, hrange, fun k hk => ?_, fun _ => ⟨tok, htok, ?_⟩⟩
    · -- Outside of the body no step is to one of its items.
      have hk' : e'.path.head? = some (nth "instrs" k) := by
        rw [List.head?_eq_getElem?]
        exact hk
      exact absurd (enters_nth "instrs" k) (hout _ hk')
    · exact hrange ▸ Range.ofName_covers htok

example : (Document.analyze "g" "@f\x7b\x7d\n@g(x: frob) \x7b foo; \x7d").diagnostics.map (·.range) =
    [⟨⟨1, 1⟩, ⟨1, 2⟩⟩] := by decide +kernel

theorem diagnostics_cover_token_unknown_operation :
    let source := "@f\x7b\x7d\n@g \x7b .a: nop;\n x: int = frob 1; foo;\x7d"
    ∃ l t e f instr tok d, parse "g" source = .ok l ∧ l.toTree "g" = .ok t ∧ Decode.program t = .error e ∧
      e.path = ["functions[1]", "instrs[2]", "op"] ∧ l.funcs[1]? = some f ∧ f.body[2]? = some (.instr instr) ∧
      FirstRefused "g" f.body 2 ∧ NamedBy source instr.op tok ∧ d.range.Covers tok ∧
      (Document.analyze "g" source).diagnostics = [d] ∧ d.range = ⟨⟨2, 10⟩, ⟨2, 14⟩⟩ := by
  intro source
  have hrun : ((parse "g" source).toOption.bind fun l => (l.toTree "g").toOption.bind fun t =>
      match Decode.program t with
      | .ok _ => none
      | .error e => some e.path) = some ["functions[1]", "instrs[2]", "op"] := by decide +kernel
  have hrange : (Document.analyze "g" source).diagnostics.map (·.range) = [⟨⟨2, 10⟩, ⟨2, 14⟩⟩] := by
    decide +kernel
  simp only [Option.bind_eq_some_iff, toOption_eq_some] at hrun
  obtain ⟨l, hparse, t, htree, hrun⟩ := hrun
  cases hdecode : Decode.program t with
  | ok p => simp [hdecode] at hrun
  | error e =>
    have hpath : e.path = ["functions[1]", "instrs[2]", "op"] := by simpa [hdecode] using hrun
    obtain ⟨i, f, x, d, hf, hi, _, hd, _, hbody, _⟩ :=
      diagnostics_cover_token (by decide +kernel) hparse htree hdecode
    have hsegments : "functions[1]" = nth "functions" 1 ∧ "instrs[2]" = nth "instrs" 2 := by decide +kernel
    rw [hpath, List.getElem?_cons_zero, hsegments.1] at hi
    obtain rfl := nth_injective (Option.some.inj hi)
    obtain ⟨instr, tok, hinstr, hfirst, htok, hcovers⟩ := hbody 2 (by rw [hpath, ← hsegments.2]; rfl)
    rw [hd] at hrange
    exact ⟨l, t, e, f, instr, tok, d, hparse, htree, hdecode, hpath, hf, hinstr, hfirst, htok, hcovers, hd,
      List.singleton_inj.1 hrange⟩

end Failure

end Editor

end BlockIR
