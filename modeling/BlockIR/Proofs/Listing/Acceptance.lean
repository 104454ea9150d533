import BlockIR.Proofs.Except
import BlockIR.Proofs.Listing.Completeness
import BlockIR.Proofs.Listing.RoundTrip
import BlockIR.Proofs.Listing.Unambiguity

namespace BlockIR.Listing

namespace Phrase

def int? : operand.Derivation → Option Token
  | .inr (.inr (.inl t)) => some t.1
  | _ => none

def Readable (o : operand.Derivation) : Prop :=
  ∀ t ∈ int? o, ∃ n, Decimal.readPrefixedInt64 t.text = .ok n

def readName (t : ident.Derivation) : Name :=
  ⟨.plain t.1.text, t.1.start⟩

def readParam : param.Derivation → Param
  | (x, _, t) => ⟨readName x, readName t⟩

def readTarget : target.Derivation → Target
  | (x, _, t, _) => ⟨readName x, readName t⟩

def readOperand : operand.Derivation → Except Decimal.Fault Operand
  | .inl (l, x) => .ok ⟨.func (readName x), l.1.start⟩
  | .inr (.inl (l, x)) => .ok ⟨.label (readName x), l.1.start⟩
  | .inr (.inr (.inl l)) => (Decimal.readPrefixedInt64 l.1.text).map fun n => ⟨.int n, l.1.start⟩
  | .inr (.inr (.inr (.inl (.inl l)))) => .ok ⟨.bool true, l.1.start⟩
  | .inr (.inr (.inr (.inl (.inr l)))) => .ok ⟨.bool false, l.1.start⟩
  | .inr (.inr (.inr (.inr x))) => .ok ⟨.arg (readName x), x.1.start⟩

def readInstr : instruction.Derivation → Except Decimal.Fault Instr
  | (none, op, xs, _) => (xs.mapM readOperand).map fun os => ⟨none, readName op, os, op.1.start⟩
  | (some t, op, xs, _) =>
    (xs.mapM readOperand).map fun os => ⟨some (readTarget t), readName op, os, t.1.1.start⟩

def readLabel : label.Derivation → Label
  | (l, x, _) => ⟨readName x, l.1.start⟩

def readItem : bodyItem.Derivation → Except Decimal.Fault Item
  | .inl x => .ok (.label (readLabel x))
  | .inr i => (readInstr i).map .instr

def readParams : params.Derivation → List Param
  | none | some (_, none, _) => []
  | some (_, some (p, ps), _) => readParam p :: ps.map fun q => readParam q.2

def readFunc : function.Derivation → Except Decimal.Fault Func
  | (l, x, ps, t, _, body, _) =>
    (body.mapM readItem).map fun its => ⟨readName x, readParams ps, t.map fun t => readName t.2, its, l.1.start⟩

def readProgram (d : program.Derivation) : Except Decimal.Fault Listing :=
  (d.mapM readFunc).map Listing.mk

section Reading

variable {a b : Phrase} {w : List Lexeme}

def Derives (e : Phrase) (d : e.Derivation) (w : List Lexeme) : Prop :=
  w.map Lexeme.token = e.yield d

lemma derives_terminal {f : Terminal} {t : (terminal f).Derivation} :
    (terminal f).Derives t w ↔ ∃ l, w = [l] ∧ l.token = t.1 := by
  simp [Derives, List.map_eq_cons_iff]

lemma derives_seq {x : a.Derivation} {y : b.Derivation} :
    (a.seq b).Derives (x, y) w ↔ ∃ u v, w = u ++ v ∧ a.Derives x u ∧ b.Derives y v :=
  List.map_eq_append_iff

lemma derives_terminal_seq {f : Terminal} {t : (terminal f).Derivation} {y : b.Derivation} :
    ((terminal f).seq b).Derives (t, y) w ↔ ∃ l v, w = l :: v ∧ l.token = t.1 ∧ b.Derives y v :=
  List.map_eq_cons_iff

lemma derives_nil : a.opt.Derives none w ↔ w = [] :=
  List.map_eq_nil_iff

lemma derives_many_nil : a.many.Derives [] w ↔ w = [] :=
  List.map_eq_nil_iff

lemma derives_cons {x : a.Derivation} {xs : a.many.Derivation} :
    a.many.Derives (x :: xs) w ↔ ∃ u v, w = u ++ v ∧ a.Derives x u ∧ a.many.Derives xs v := by
  rw [Derives, yield_cons]
  exact List.map_eq_append_iff

structure Agrees {α : Type} (e : Phrase) (ops : e.Derivation → List operand.Derivation)
    (read : e.Derivation → Except Decimal.Fault α) (D : List Lexeme → α → Prop) : Prop where
  derived : ∀ w x, D w x → ∃ d, e.Derives d w ∧ (∀ o ∈ ops d, Readable o ∧ TruthFirst o) ∧ read d = .ok x
  accepted : ∀ w d, e.Derives d w → (∀ o ∈ ops d, Readable o) → ∃ x, D w x

lemma Agrees.many {α : Type} {e : Phrase} {ops : e.Derivation → List operand.Derivation}
    {read : e.Derivation → Except Decimal.Fault α} {D : List Lexeme → α → Prop} (h : e.Agrees ops read D) :
    e.many.Agrees (fun ds => ds.flatMap ops) (fun ds => ds.mapM read) (Many D) where
  derived := by
    intro w xs hw
    induction hw with
    | nil => exact ⟨[], rfl, by simp, rfl⟩
    | cons hd _ ih =>
      obtain ⟨d, hw, ho, hr⟩ := h.derived _ _ hd
      obtain ⟨ds, hws, hos, hrs⟩ := ih
      refine ⟨d :: ds, derives_cons.2 ⟨_, _, rfl, hw, hws⟩, ?_, ?_⟩
      · rw [List.flatMap_cons]
        exact List.forall_mem_append.2 ⟨ho, hos⟩
      · exact mapM_eq_ok.2 (.cons hr (mapM_eq_ok.1 hrs))
  accepted := by
    intro w ds hw ho
    induction ds generalizing w with
    | nil =>
      obtain rfl := derives_many_nil.1 hw
      exact ⟨[], .nil⟩
    | cons d ds ih =>
      obtain ⟨u, v, rfl, hu, hv⟩ := derives_cons.1 hw
      rw [List.flatMap_cons] at ho
      obtain ⟨ho, hos⟩ := List.forall_mem_append.1 ho
      obtain ⟨x, hx⟩ := h.accepted u d hu ho
      obtain ⟨xs, hxs⟩ := ih v hv hos
      exact ⟨x :: xs, .cons hx hxs⟩

lemma isName_readName {l : Lexeme} {t : ident.Derivation} (h : l.token = t.1) : IsName l (readName t) := by
  rw [IsName, h]
  exact ⟨t.2, rfl⟩

lemma text_eq_literal {s : String} {l : Lexeme} {t : (literal s).Derivation} (h : l.token = t.1) : l.token.text = s := by
  rw [h]
  exact t.2

lemma param_agrees : param.Agrees (fun _ => []) (fun d => .ok (readParam d)) IsParam where
  derived := by
    rintro _ _ ⟨⟨hl, rfl⟩, hm, hn, rfl⟩
    exact ⟨(⟨_, hl⟩, ⟨_, hm⟩, ⟨_, hn⟩), rfl, by simp, rfl⟩
  accepted := by
    rintro w ⟨x, c, t⟩ hw _
    obtain ⟨l, _, rfl, hl, hw⟩ := derives_terminal_seq.1 hw
    obtain ⟨m, _, rfl, hm, hw⟩ := derives_terminal_seq.1 hw
    obtain ⟨n, rfl, hn⟩ := derives_terminal.1 hw
    exact ⟨_, .mk (isName_readName hl) (text_eq_literal hm) (isName_readName hn)⟩

lemma target_agrees : target.Agrees (fun _ => []) (fun d => .ok (readTarget d)) IsTarget where
  derived := by
    rintro _ _ ⟨⟨hl, rfl⟩, hm, ⟨hn, rfl⟩, hk⟩
    exact ⟨(⟨_, hl⟩, ⟨_, hm⟩, ⟨_, hn⟩, ⟨_, hk⟩), rfl, by simp, rfl⟩
  accepted := by
    rintro w ⟨x, c, t, e⟩ hw _
    obtain ⟨l, _, rfl, hl, hw⟩ := derives_terminal_seq.1 hw
    obtain ⟨m, _, rfl, hm, hw⟩ := derives_terminal_seq.1 hw
    obtain ⟨n, _, rfl, hn, hw⟩ := derives_terminal_seq.1 hw
    obtain ⟨k, rfl, hk⟩ := derives_terminal.1 hw
    exact ⟨_, .mk (isName_readName hl) (text_eq_literal hm) (isName_readName hn) (text_eq_literal hk)⟩

lemma label_agrees : label.Agrees (fun _ => []) (fun d => .ok (readLabel d)) IsLabel where
  derived := by
    rintro _ _ ⟨hl, ⟨hm, rfl⟩, hn⟩
    exact ⟨(⟨_, hl⟩, ⟨_, hm⟩, ⟨_, hn⟩), rfl, by simp, rfl⟩
  accepted := by
    rintro w ⟨d, x, c⟩ hw _
    obtain ⟨l, _, rfl, hl, hw⟩ := derives_terminal_seq.1 hw
    obtain ⟨m, _, rfl, hm, hw⟩ := derives_terminal_seq.1 hw
    obtain ⟨n, rfl, hn⟩ := derives_terminal.1 hw
    exact ⟨_, .mk (text_eq_literal hl) (isName_readName hm) (text_eq_literal hn)⟩

lemma readable_truthFirst_of_none {o : operand.Derivation} (hi : int? o = none) (ha : arg? o = none) :
    ∀ x ∈ [o], Readable x ∧ TruthFirst x := by
  simp [Readable, TruthFirst, hi, ha]

lemma operand_agrees : operand.Agrees (fun o => [o]) readOperand IsOperand where
  derived := by
    intro w x hw
    cases hw with
    | func hl hm =>
      obtain ⟨hm, rfl⟩ := hm
      exact ⟨.inl (⟨_, hl⟩, ⟨_, hm⟩), rfl, readable_truthFirst_of_none rfl rfl, rfl⟩
    | label hl hm =>
      obtain ⟨hm, rfl⟩ := hm
      exact ⟨.inr (.inl (⟨_, hl⟩, ⟨_, hm⟩)), rfl, readable_truthFirst_of_none rfl rfl, rfl⟩
    | int hk hn =>
      exact ⟨.inr (.inr (.inl ⟨_, hk⟩)), rfl, by simp [Readable, TruthFirst, int?, arg?, hn],
        by simp [readOperand, hn, Except.map]⟩
    | bool b hl =>
      cases b with
      | true => exact ⟨.inr (.inr (.inr (.inl (.inl ⟨_, hl⟩)))), rfl, readable_truthFirst_of_none rfl rfl, rfl⟩
      | false => exact ⟨.inr (.inr (.inr (.inl (.inr ⟨_, hl⟩)))), rfl, readable_truthFirst_of_none rfl rfl, rfl⟩
    | arg hx ht hf =>
      obtain ⟨hk, rfl⟩ := hx
      exact ⟨.inr (.inr (.inr (.inr ⟨_, hk⟩))), rfl, by simp [Readable, TruthFirst, int?, arg?, ht, hf], rfl⟩
  accepted := by
    rintro w (⟨m, x⟩ | ⟨m, x⟩ | n | (t | t) | x) hw ho
    · obtain ⟨l, _, rfl, hl, hw⟩ := derives_terminal_seq.1 hw
      obtain ⟨k, rfl, hk⟩ := derives_terminal.1 hw
      exact ⟨_, .func (text_eq_literal hl) (isName_readName hk)⟩
    · obtain ⟨l, _, rfl, hl, hw⟩ := derives_terminal_seq.1 hw
      obtain ⟨k, rfl, hk⟩ := derives_terminal.1 hw
      exact ⟨_, .label (text_eq_literal hl) (isName_readName hk)⟩
    · obtain ⟨l, rfl, hl⟩ := derives_terminal.1 hw
      obtain ⟨k, hk⟩ := ho _ (List.mem_singleton_self _) n.1 rfl
      rw [← hl] at hk
      exact ⟨_, .int (hl ▸ n.2) hk⟩
    · obtain ⟨l, rfl, hl⟩ := derives_terminal.1 hw
      exact ⟨_, .bool true (text_eq_literal hl)⟩
    · obtain ⟨l, rfl, hl⟩ := derives_terminal.1 hw
      exact ⟨_, .bool false (text_eq_literal hl)⟩
    · obtain ⟨l, rfl, hl⟩ := derives_terminal.1 hw
      -- A word for a truth value may be derived as an argument, but it is not read as one.
      by_cases ht : l.token.text = "true"
      · exact ⟨_, .bool true ht⟩
      · by_cases hf : l.token.text = "false"
        · exact ⟨_, .bool false hf⟩
        · exact ⟨_, .arg (isName_readName hl) ht hf⟩

lemma operands_agrees :
    operand.many.Agrees (fun xs => xs) (fun xs => xs.mapM readOperand) (Many IsOperand) := by
  simpa using operand_agrees.many

lemma instruction_agrees : instruction.Agrees instrOperands readInstr IsInstr where
  derived := by
    intro w i hw
    cases hw with
    | plain hl hw hs =>
      obtain ⟨hl, rfl⟩ := hl
      obtain ⟨xs, hxs, ho, hr⟩ := operands_agrees.derived _ _ hw
      refine ⟨(none, ⟨_, hl⟩, xs, ⟨_, hs⟩), ?_, ho, ?_⟩
      · exact derives_terminal_seq.2 ⟨_, _, rfl, rfl, derives_seq.2 ⟨_, _, rfl, hxs, rfl⟩⟩
      · simp only [readInstr, hr]
        rfl
    | targeted ht hl hw hs =>
      obtain ⟨hl, rfl⟩ := hl
      obtain ⟨⟨x, y⟩, hxy, _, hr'⟩ := target_agrees.derived _ _ ht
      obtain ⟨xs, hxs, ho, hr⟩ := operands_agrees.derived _ _ hw
      refine ⟨(some (x, y), ⟨_, hl⟩, xs, ⟨_, hs⟩), ?_, ho, ?_⟩
      · exact derives_seq.2 ⟨_, _, rfl, hxy, derives_terminal_seq.2 ⟨_, _, rfl, rfl,
          derives_seq.2 ⟨_, _, rfl, hxs, rfl⟩⟩⟩
      · cases hr'
        simp only [readInstr, hr]
        rfl
  accepted := by
    rintro w ⟨t, op, xs, s⟩ hw ho
    obtain ⟨u, v, rfl, ht, hw⟩ := derives_seq.1 hw
    obtain ⟨l, _, rfl, hl, hw⟩ := derives_terminal_seq.1 hw
    obtain ⟨_, _, rfl, hxs, hs⟩ := derives_seq.1 hw
    obtain ⟨k, rfl, hk⟩ := derives_terminal.1 hs
    obtain ⟨os, hos⟩ := operands_agrees.accepted _ xs hxs ho
    cases t with
    | none =>
      obtain rfl := derives_nil.1 ht
      exact ⟨_, .plain (isName_readName hl) hos (text_eq_literal hk)⟩
    | some t =>
      obtain ⟨t', ht'⟩ := target_agrees.accepted u t ht (by simp)
      exact ⟨_, .targeted ht' (isName_readName hl) hos (text_eq_literal hk)⟩

lemma bodyItem_agrees : bodyItem.Agrees itemOperands readItem IsItem where
  derived := by
    intro w i hw
    cases hw with
    | label hx =>
      obtain ⟨d, hd, _, hr⟩ := label_agrees.derived _ _ hx
      cases hr
      exact ⟨.inl d, hd, by simp [itemOperands], rfl⟩
    | instr hi =>
      obtain ⟨d, hd, ho, hr⟩ := instruction_agrees.derived _ _ hi
      exact ⟨.inr d, hd, ho, by simp [readItem, hr, Except.map]⟩
  accepted := by
    rintro w (d | d) hw ho
    · obtain ⟨x, hx⟩ := label_agrees.accepted w d hw (by simp)
      exact ⟨_, .label hx⟩
    · obtain ⟨i, hi⟩ := instruction_agrees.accepted w d hw ho
      exact ⟨_, .instr hi⟩

lemma nextParam_agrees :
    ((literal ",").seq param).Agrees (fun _ => []) (fun d => .ok (readParam d.2)) IsNextParam where
  derived := by
    rintro _ _ ⟨hl, hp⟩
    obtain ⟨d, hd, _, hr⟩ := param_agrees.derived _ _ hp
    exact ⟨(⟨_, hl⟩, d), derives_terminal_seq.2 ⟨_, _, rfl, rfl, hd⟩, by simp, hr⟩
  accepted := by
    rintro w ⟨c, d⟩ hw _
    obtain ⟨l, v, rfl, hl, hv⟩ := derives_terminal_seq.1 hw
    obtain ⟨p, hp⟩ := param_agrees.accepted v d hv (by simp)
    exact ⟨_, .mk (text_eq_literal hl) hp⟩

lemma params_agrees : params.Agrees (fun _ => []) (fun d => .ok (readParams d)) IsParams where
  derived := by
    intro w ps hw
    cases hw with
    | none => exact ⟨none, rfl, by simp, rfl⟩
    | empty hl hr => exact ⟨some (⟨_, hl⟩, none, ⟨_, hr⟩), rfl, by simp, rfl⟩
    | some hl hp hps hr =>
      obtain ⟨d, hd, _, hrd⟩ := param_agrees.derived _ _ hp
      obtain ⟨ds, hds, _, hrds⟩ := nextParam_agrees.many.derived _ _ hps
      have hmap := List.mapM_pure.symm.trans hrds
      cases hrd
      cases hmap
      exact ⟨some (⟨_, hl⟩, some (d, ds), ⟨_, hr⟩), derives_terminal_seq.2 ⟨_, _, rfl, rfl,
        derives_seq.2 ⟨_, _, rfl, derives_seq.2 ⟨_, _, rfl, hd, hds⟩, rfl⟩⟩, by simp, rfl⟩
  accepted := by
    rintro w (_ | ⟨l, o, r⟩) hw _
    · obtain rfl := derives_nil.1 hw
      exact ⟨_, .none⟩
    · obtain ⟨k, _, rfl, hk, hw⟩ := derives_terminal_seq.1 hw
      obtain ⟨u, _, rfl, hu, hr⟩ := derives_seq.1 hw
      obtain ⟨m, rfl, hm⟩ := derives_terminal.1 hr
      cases o with
      | none =>
        obtain rfl := derives_nil.1 hu
        exact ⟨_, .empty (text_eq_literal hk) (text_eq_literal hm)⟩
      | some o =>
        obtain ⟨d, ds⟩ := o
        obtain ⟨_, _, rfl, hd, hds⟩ := derives_seq.1 hu
        obtain ⟨p, hp⟩ := param_agrees.accepted _ d hd (by simp)
        obtain ⟨ps, hps⟩ := nextParam_agrees.many.accepted _ ds hds (by simp)
        exact ⟨_, .some (text_eq_literal hk) hp hps (text_eq_literal hm)⟩

lemma resultType_agrees :
    resultType.Agrees (fun _ => []) (fun d => .ok (d.map fun t => readName t.2)) IsType where
  derived := by
    intro w t hw
    cases hw with
    | none => exact ⟨none, rfl, by simp, rfl⟩
    | some hl hm =>
      obtain ⟨hm, rfl⟩ := hm
      exact ⟨some (⟨_, hl⟩, ⟨_, hm⟩), rfl, by simp, rfl⟩
  accepted := by
    rintro w (_ | ⟨c, t⟩) hw _
    · obtain rfl := derives_nil.1 hw
      exact ⟨_, .none⟩
    · obtain ⟨l, _, rfl, hl, hw⟩ := derives_terminal_seq.1 hw
      obtain ⟨m, rfl, hm⟩ := derives_terminal.1 hw
      exact ⟨_, .some (text_eq_literal hl) (isName_readName hm)⟩

lemma function_agrees : function.Agrees funcOperands readFunc IsFunc where
  derived := by
    rintro _ _ ⟨hl, ⟨hm, rfl⟩, hu, hv, hb, hw, he⟩
    obtain ⟨ps, hps, _, hrps⟩ := params_agrees.derived _ _ hu
    obtain ⟨t, ht, _, hrt⟩ := resultType_agrees.derived _ _ hv
    obtain ⟨body, hbody, ho, hr⟩ := bodyItem_agrees.many.derived _ _ hw
    cases hrps
    cases hrt
    refine ⟨(⟨_, hl⟩, ⟨_, hm⟩, ps, t, ⟨_, hb⟩, body, ⟨_, he⟩), ?_, ho, ?_⟩
    · exact derives_terminal_seq.2 ⟨_, _, rfl, rfl, derives_terminal_seq.2 ⟨_, _, rfl, rfl,
        derives_seq.2 ⟨_, _, rfl, hps, derives_seq.2 ⟨_, _, rfl, ht, derives_terminal_seq.2 ⟨_, _, rfl, rfl,
          derives_seq.2 ⟨_, _, rfl, hbody, rfl⟩⟩⟩⟩⟩⟩
    · simp only [readFunc, hr]
      rfl
  accepted := by
    rintro w ⟨c, x, ps, t, o, body, e⟩ hw ho
    obtain ⟨l, _, rfl, hl, hw⟩ := derives_terminal_seq.1 hw
    obtain ⟨m, _, rfl, hm, hw⟩ := derives_terminal_seq.1 hw
    obtain ⟨_, _, rfl, hps, hw⟩ := derives_seq.1 hw
    obtain ⟨_, _, rfl, ht, hw⟩ := derives_seq.1 hw
    obtain ⟨b, _, rfl, hb, hw⟩ := derives_terminal_seq.1 hw
    obtain ⟨_, _, rfl, hbody, he⟩ := derives_seq.1 hw
    obtain ⟨k, rfl, hk⟩ := derives_terminal.1 he
    obtain ⟨_, hps⟩ := params_agrees.accepted _ ps hps (by simp)
    obtain ⟨_, ht⟩ := resultType_agrees.accepted _ t ht (by simp)
    obtain ⟨_, hbody⟩ := bodyItem_agrees.many.accepted _ body hbody ho
    exact ⟨_, .mk (text_eq_literal hl) (isName_readName hm) hps ht (text_eq_literal hb) hbody (text_eq_literal hk)⟩

end Reading

end Phrase

open Phrase

lemma lexemes_token (source : String) : (lexemes (scan source).tokens).map Lexeme.token =
    (scan source).tokens.filter fun t => !t.kind.isIdle :=
  lexemesFrom_token none _

lemma exists_readProgram {file source : String} {l : Listing} (h : parse file source = .ok l) :
    ∃ d, Phrase.program.yield d = (scan source).tokens.filter (fun t => !t.kind.isIdle) ∧
      (∀ o ∈ operands d, Readable o ∧ TruthFirst o) ∧ readProgram d = .ok l := by
  obtain ⟨d, hd, ho, hr⟩ := function_agrees.many.derived _ _ (parse_ok h)
  exact ⟨d, hd.symm.trans (lexemes_token source), ho, by simp [readProgram, hr, Except.map]⟩

lemma exists_parse_ok {source : String} (h : (scan source).rest = []) {d : Phrase.program.Derivation}
    (hd : Phrase.program.yield d = (scan source).tokens.filter fun t => !t.kind.isIdle)
    (ho : ∀ o ∈ operands d, Readable o) (file : String) : ∃ l, parse file source = .ok l := by
  obtain ⟨fs, hfs⟩ := function_agrees.many.accepted _ d ((lexemes_token source).trans hd.symm) ho
  refine ⟨⟨fs⟩, ?_⟩
  rw [parse, if_pos (by simp [h]), readAll_complete hfs (lexemes_proper source)]
  rfl

/-- A source without stray text is read if and only if its tokens have a derivation in which all integers
can be read. Of those in which the words for truth values are no arguments, there is one, and what is read
is what it stands for. -/
theorem parse_ok_iff_derivation (file source : String) (h : (scan source).rest = []) :
    let tokens := (scan source).tokens.filter fun t => !t.kind.isIdle
    ((∃ l, parse file source = .ok l) ↔
      ∃ d, Phrase.program.yield d = tokens ∧ ∀ o ∈ operands d, Readable o) ∧
    ∀ l, parse file source = .ok l → ∃ d, readProgram d = .ok l ∧
      Phrase.program.yield d = tokens ∧ (∀ o ∈ operands d, TruthFirst o) ∧
      ∀ d', Phrase.program.yield d' = tokens → (∀ o ∈ operands d', TruthFirst o) → d' = d := by
  intro tokens
  have hwhole : ∀ t ∈ tokens, t.Whole := fun t ht => scanFrom_whole _ _ _ t (List.mem_filter.1 ht).1
  refine ⟨⟨fun ⟨l, hl⟩ => ?_, fun ⟨d, hd, ho⟩ => exists_parse_ok h hd ho file⟩, fun l hl => ?_⟩
  · obtain ⟨d, hd, ho, _⟩ := exists_readProgram hl
    exact ⟨d, hd, fun o h => (ho o h).1⟩
  · obtain ⟨d, hd, ho, hr⟩ := exists_readProgram hl
    refine ⟨d, hr, hd, fun o h => (ho o h).2, fun d' hd' ho' => ?_⟩
    exact program_unambiguous ho' (fun o h => (ho o h).2) (hd' ▸ hwhole) (hd'.trans hd.symm)

theorem parse_ok_iff_derivation_truth :
    let source := "@f(x: bool): int \x7b.a: # b\n true: int = true true x -010; jmp .a;\x7d"
    (scan source).rest = [] ∧ ∃ l d, parse "a" source = .ok l ∧
      l.render = "@f(x: bool): int \x7b\n.a:\n  true: int = true true x -8;\n  jmp .a;\n\x7d\n" ∧
      readProgram d = .ok l ∧ Phrase.program.yield d = (scan source).tokens.filter (!·.kind.isIdle) ∧
      ∀ d', Phrase.program.yield d' = Phrase.program.yield d → (∀ o ∈ operands d', TruthFirst o) → d' = d := by
  intro source
  have hrest : (scan source).rest = [] := by decide +kernel
  have hr : (parse "a" source).toOption.map render =
      some "@f(x: bool): int \x7b\n.a:\n  true: int = true true x -8;\n  jmp .a;\n\x7d\n" := by decide +kernel
  cases hp : parse "a" source with
  | error e =>
    rw [hp] at hr
    cases hr
  | ok l =>
    rw [hp] at hr
    obtain ⟨d, hd, hyield, _, honly⟩ := (parse_ok_iff_derivation "a" source hrest).2 l hp
    exact ⟨hrest, l, d, rfl, Option.some.inj hr, hd, hyield, fun d' hd' => honly d' (hd'.trans hyield)⟩

end BlockIR.Listing
