import BlockIR.Proofs.Listing.Acceptance
import BlockIR.Proofs.Number.LeadingZero
import BlockIR.Proofs.Program.Lowering

namespace BlockIR

namespace Listing

def Token.isInt (t : Token) : Bool :=
  t.kind = .int

namespace Phrase

def IntsIn (e : Phrase) (ops : e.Derivation → List operand.Derivation) : Prop :=
  ∀ d, (∀ t ∈ e.yield d, t.Whole) → (e.yield d).filter Token.isInt = (ops d).filterMap int?

namespace IntsIn

variable {a b : Phrase} {f : a.Derivation → List operand.Derivation} {g : b.Derivation → List operand.Derivation}

lemma none (ha : exclusive [.kind .int] a.terminals = true) : a.IntsIn fun _ => [] := by
  intro d hw
  refine List.filter_eq_nil_iff.2 fun t ht hint => ?_
  have hkind : t.kind = .int := of_decide_eq_true hint
  exact not_matches_of_exclusive ha hw ht (List.mem_singleton_self _) hkind

lemma seq (ha : a.IntsIn f) (hb : b.IntsIn g) : (a.seq b).IntsIn fun d => f d.1 ++ g d.2 := by
  rintro ⟨x, y⟩ hw
  rw [yield_seq] at hw ⊢
  obtain ⟨hx, hy⟩ := List.forall_mem_append.1 hw
  rw [List.filter_append, ha x hx, hb y hy, List.filterMap_append]

lemma alt (ha : a.IntsIn f) (hb : b.IntsIn g) : (a.alt b).IntsIn fun d => d.elim f g := by
  rintro (x | y) hw
  · exact ha x hw
  · exact hb y hw

lemma many (ha : a.IntsIn f) : a.many.IntsIn fun ds => ds.flatMap f := by
  intro ds hw
  induction ds with
  | nil => rfl
  | cons d ds ih =>
    rw [yield_cons] at hw ⊢
    obtain ⟨hd, hds⟩ := List.forall_mem_append.1 hw
    rw [List.filter_append, ha d hd, ih hds]
    simp

end IntsIn

lemma operand_ints : operand.IntsIn fun o => [o] := by
  rintro (⟨m, x⟩ | ⟨m, x⟩ | n | t | x) hw
  · exact IntsIn.none (a := (literal "@").seq ident) (by decide) (m, x) hw
  · exact IntsIn.none (a := (literal ".").seq ident) (by decide) (m, x) hw
  · exact List.filter_cons_of_pos (decide_eq_true n.2)
  · exact IntsIn.none (a := truth) (by decide) t hw
  · exact IntsIn.none (a := ident) (by decide) x hw

lemma instruction_ints : instruction.IntsIn instrOperands := by
  have h := (IntsIn.none (a := target.opt) (by decide)).seq ((IntsIn.none (a := ident) (by decide)).seq
    (operand_ints.many.seq (IntsIn.none (a := literal ";") (by decide))))
  intro d hw
  rw [h d hw]
  simp [instrOperands]

lemma bodyItem_ints : bodyItem.IntsIn itemOperands := by
  have h := (IntsIn.none (a := label) (by decide)).alt instruction_ints
  intro d hw
  rw [h d hw]
  cases d <;> rfl

lemma function_ints : function.IntsIn funcOperands := by
  have h := (IntsIn.none (a := literal "@") (by decide)).seq ((IntsIn.none (a := ident) (by decide)).seq
    ((IntsIn.none (a := params) (by decide)).seq ((IntsIn.none (a := resultType) (by decide)).seq
      ((IntsIn.none (a := literal "\x7b") (by decide)).seq
        (bodyItem_ints.many.seq (IntsIn.none (a := literal "\x7d") (by decide)))))))
  intro d hw
  rw [h d hw]
  simp [funcOperands]

end Phrase

def Operand.int? (o : Operand) : Option Int64 :=
  match o.value with
  | .int n => some n
  | _ => none

def Item.operands : Item → List Operand
  | label _ => []
  | instr i => i.operands

def Func.operands (f : Func) : List Operand :=
  f.body.flatMap Item.operands

def integers (l : Listing) : List Int64 :=
  (l.funcs.flatMap Func.operands).filterMap Operand.int?

namespace Phrase

abbrev Read : List operand.Derivation → List Operand → Prop :=
  List.Forall₂ fun o x => readOperand o = .ok x

lemma readInstr_read {d : instruction.Derivation} {i : Instr} (h : readInstr d = .ok i) :
    Read (instrOperands d) i.operands := by
  obtain ⟨_ | t, op, xs, s⟩ := d
  all_goals
    obtain ⟨os, hos, rfl⟩ := map_eq_ok.1 h
    exact mapM_eq_ok.1 hos

lemma readItem_read {d : bodyItem.Derivation} {i : Item} (h : readItem d = .ok i) :
    Read (itemOperands d) i.operands := by
  cases d with
  | inl x =>
    cases h
    exact .nil
  | inr d =>
    obtain ⟨j, hj, rfl⟩ := map_eq_ok.1 h
    exact readInstr_read hj

lemma readFunc_read {d : function.Derivation} {f : Func} (h : readFunc d = .ok f) :
    Read (funcOperands d) f.operands := by
  obtain ⟨c, x, ps, t, o, body, e⟩ := d
  obtain ⟨its, hits, rfl⟩ := map_eq_ok.1 h
  exact List.rel_flatMap (mapM_eq_ok.1 hits) fun _ _ => readItem_read

lemma readProgram_read {d : program.Derivation} {l : Listing} (h : readProgram d = .ok l) :
    Read (operands d) (l.funcs.flatMap Func.operands) := by
  obtain ⟨fs, hfs, rfl⟩ := map_eq_ok.1 h
  exact List.rel_flatMap (mapM_eq_ok.1 hfs) fun _ _ => readFunc_read

lemma readOperand_int? {o : operand.Derivation} {x : Operand} (h : readOperand o = .ok x) :
    Option.Rel (fun t n => Decimal.readPrefixedInt64 t.text = .ok n) (int? o) x.int? := by
  rcases o with _ | _ | n | (_ | _) | _
  case inr.inr.inl =>
    obtain ⟨k, hk, rfl⟩ := map_eq_ok.1 h
    exact .some hk
  all_goals
    cases h
    exact .none

end Phrase

open Phrase

variable {file source : String}

lemma ints_of_derivation {d : Phrase.program.Derivation}
    (hd : Phrase.program.yield d = (scan source).tokens.filter fun t => !t.kind.isIdle) :
    (scan source).tokens.filter Token.isInt = (operands d).filterMap Phrase.int? := by
  have hwhole : ∀ t ∈ Phrase.program.yield d, t.Whole := by
    intro t ht
    rw [hd] at ht
    exact scanFrom_whole _ _ _ t (List.mem_of_mem_filter ht)
  have hbusy : (scan source).tokens.filter Token.isInt =
      ((scan source).tokens.filter fun t => !t.kind.isIdle).filter Token.isInt := by
    rw [List.filter_filter]
    refine List.filter_congr fun t _ => ?_
    cases hk : t.kind <;> simp [Token.isInt, hk, TokenKind.isIdle]
  rw [hbusy, ← hd]
  exact function_ints.many d hwhole

lemma integers_read {l : Listing} (h : parse file source = .ok l) :
    List.Forall₂ (fun t n => Decimal.readPrefixedInt64 t.text = .ok n)
      ((scan source).tokens.filter Token.isInt) l.integers := by
  obtain ⟨d, hd, _, hr⟩ := exists_readProgram h
  rw [ints_of_derivation hd]
  exact List.rel_filterMap (fun _ _ h => readOperand_int? h) (readProgram_read hr)

lemma parse_ok_iff_ints (hrest : (scan source).rest = []) {d : Phrase.program.Derivation}
    (hd : Phrase.program.yield d = (scan source).tokens.filter fun t => !t.kind.isIdle) (file : String) :
    (∃ l, parse file source = .ok l) ↔
      ∀ t ∈ (scan source).tokens.filter Token.isInt, ∃ n, Decimal.readPrefixedInt64 t.text = .ok n := by
  constructor
  · rintro ⟨l, hl⟩
    exact forall₂_right (integers_read hl).flip (fun n _ => trivial) fun n _ _ h => ⟨n, h⟩
  · intro h
    refine exists_parse_ok hrest hd (fun o ho t ht => h t ?_) file
    rw [ints_of_derivation hd]
    exact List.mem_filterMap.2 ⟨o, ho, ht⟩

end Listing

namespace Tree

mutual

def numbers : Tree → List Numeral
  | null | bool _ | text _ | texts _ => []
  | number n => [n]
  | list items => itemNumbers items
  | object fields => fieldNumbers fields

def itemNumbers : List Tree → List Numeral
  | [] => []
  | t :: ts => numbers t ++ itemNumbers ts

def fieldNumbers : List (String × Tree) → List Numeral
  | [] => []
  | (_, t) :: es => numbers t ++ fieldNumbers es

end

@[simp] lemma numbers_number (n : Numeral) : (number n).numbers = [n] := by rw [numbers]

@[simp] lemma numbers_bool (b : Bool) : (bool b).numbers = [] := by rw [numbers]

@[simp] lemma numbers_text (s : Text) : (text s).numbers = [] := by rw [numbers]

@[simp] lemma numbers_list (ts : List Tree) : (list ts).numbers = ts.flatMap numbers := by
  rw [numbers]
  induction ts with
  | nil => rfl
  | cons t ts ih => rw [itemNumbers, ih, List.flatMap_cons]

@[simp] lemma numbers_object (fields : List (String × Tree)) :
    (object fields).numbers = fields.flatMap fun e => e.2.numbers := by
  rw [numbers]
  induction fields with
  | nil => rfl
  | cons e es ih => rw [fieldNumbers, ih, List.flatMap_cons]

end Tree

@[simp] lemma Literal.numbers_tree_int (n : Int64) : (int n).tree.numbers = [.word n] :=
  Tree.numbers_number _

@[simp] lemma Literal.numbers_tree_bool (b : Bool) : (bool b).tree.numbers = [] :=
  Tree.numbers_bool b

lemma flatMap_eq_of_forall₂ {α β γ : Type} {R : α → β → Prop} {f : α → List γ} {g : β → List γ} {as : List α}
    {bs : List β} (h : List.Forall₂ R as bs) (hR : ∀ a b, R a b → g b = f a) : bs.flatMap g = as.flatMap f := by
  induction h with
  | nil => rfl
  | cons hr _ ih => rw [List.flatMap_cons, List.flatMap_cons, hR _ _ hr, ih]

namespace Listing

@[simp] lemma numbers_textsField (key : String) (ss : List Text) :
    (textsField key ss).flatMap (fun e => e.2.numbers) = [] := by
  cases ss <;> simp [textsField]

@[simp] lemma numbers_targetFields (t : Option Target) : (targetFields t).flatMap (fun e => e.2.numbers) = [] := by
  cases t <;> simp [targetFields]

@[simp] lemma numbers_paramsField (ps : List Param) : (paramsField ps).flatMap (fun e => e.2.numbers) = [] := by
  cases ps <;> simp [paramsField, Param.toTree]

@[simp] lemma numbers_typeField (t : Option Name) : (typeField t).flatMap (fun e => e.2.numbers) = [] := by
  cases t <;> simp [typeField]

lemma numbers_literals (os : List Operand) : (os.filterMap Operand.lit?).flatMap (fun v => v.tree.numbers) =
    (os.filterMap Operand.int?).map .word := by
  induction os with
  | nil => rfl
  | cons o os ih =>
    obtain ⟨v, p⟩ := o
    cases v <;> simp [List.filterMap_cons, Operand.lit?, Operand.int?, ih]

lemma Item.numbers_toTree {i : Item} {t : Tree} (h : i.toTree file = .ok t) :
    t.numbers = (i.operands.filterMap Operand.int?).map .word := by
  cases i with
  | label l =>
    cases h
    simp [Item.operands]
  | instr i =>
    obtain ⟨o, ho, rfl⟩ := Instr.toTree_ok.1 h
    have hvalue := numbers_literals i.operands
    rw [ho] at hvalue
    simpa [Instr.fields, Item.operands, List.flatMap_map] using hvalue

lemma Func.numbers_toTree {f : Func} {t : Tree} (h : f.toTree file = .ok t) :
    t.numbers = (f.operands.filterMap Operand.int?).map .word := by
  obtain ⟨ts, hts, rfl⟩ := Func.toTree_ok.1 h
  have hbody := flatMap_eq_of_forall₂ hts fun _ _ => Item.numbers_toTree
  simpa [Func.fields, Func.operands, List.filterMap_flatMap, List.map_flatMap] using hbody

lemma numbers_toTree {l : Listing} {t : Tree} (h : l.toTree file = .ok t) :
    t.numbers = l.integers.map .word := by
  obtain ⟨ts, hts, h⟩ := bind_eq_ok.1 h
  cases h
  have hfuncs := flatMap_eq_of_forall₂ (mapM_eq_ok.1 hts) fun _ _ => Func.numbers_toTree
  simpa [integers, List.filterMap_flatMap, List.map_flatMap] using hfuncs

lemma forall₂_iff_forall_mem {α β : Type} {R S : α → β → Prop} {as : List α} {bs : List β}
    (h : List.Forall₂ R as bs) (hR : ∀ a b b', R a b → R a b' → b = b') :
    List.Forall₂ S as bs ↔ ∀ a ∈ as, ∃ b, R a b ∧ S a b := by
  induction h with
  | nil => simp
  | cons hr _ ih =>
    rw [List.forall₂_cons, List.forall_mem_cons, ih]
    refine and_congr_left fun _ => ⟨fun hs => ⟨_, hr, hs⟩, ?_⟩
    rintro ⟨b, hr', hs⟩
    exact hR _ _ _ hr' hr ▸ hs

lemma asLiteral_written {s : String} {n : Int64} (h : Decimal.Spells s.toList n.toInt) :
    Decode.asLiteral (.number (.written s)) = .ok (.int n) := by
  have hread : Numeral.toInt64? (.written s) = some n := toOption_eq_some.2 (Decimal.readInt64_ok.2 h)
  rw [Decode.asLiteral, Decode.asLiteralAt, hread]

/-- In a source whose tokens have a derivation, an integer in range is refused only if it has zeros in front and a
digit that is not octal, and it is lowered to the number that is decoded from the same text only if it has no zeros
in front or is less than eight. -/
theorem integers_decimal_iff (file source : String) (hrest : (scan source).rest = [])
    (d : Phrase.program.Derivation)
    (hd : Phrase.program.yield d = (scan source).tokens.filter fun t => !t.kind.isIdle) :
    let ints := (scan source).tokens.filter fun t => t.kind = .int
    ((∀ t ∈ ints, ∃ n : Int64, Decimal.Spells t.text.toList n.toInt) →
      ((∃ l, parse file source = .ok l) ↔
        ∀ t ∈ ints, Decimal.Padded t.text.toList → '8' ∉ t.text.toList ∧ '9' ∉ t.text.toList) ∧
      ((∃ l, parse file source = .ok l ∧
          List.Forall₂ (fun t k => Decimal.Spells t.text.toList k.toInt) ints l.integers) ↔
        ∀ t ∈ ints, ∀ n : Int64, Decimal.Spells t.text.toList n.toInt →
          Decimal.Padded t.text.toList → n.toInt.natAbs < 8)) ∧
    ∀ l, parse file source = .ok l →
      List.Forall₂ (fun t k => ∀ n : Int64, Decimal.Spells t.text.toList n.toInt →
        Decode.asLiteral (.number (.written t.text)) = .ok (.int n) ∧
        (k = n ↔ (Decimal.Padded t.text.toList → n.toInt.natAbs < 8))) ints l.integers ∧
      ∀ tree, l.toTree file = .ok tree → tree.numbers = l.integers.map .word := by
  intro ints
  have haccept := parse_ok_iff_ints hrest hd file
  have hunique (t : Token) (m n : Int64) (hm : Decimal.readPrefixedInt64 t.text = .ok m)
      (hn : Decimal.readPrefixedInt64 t.text = .ok n) : m = n := Except.ok.inj (hm.symm.trans hn)
  refine ⟨fun hrange => ⟨?_, ?_, ?_⟩, fun l hl => ⟨?_, fun _ => numbers_toTree⟩⟩
  · refine haccept.trans (forall₂_congr fun t ht => ?_)
    obtain ⟨n, hn⟩ := hrange t ht
    exact Decimal.exists_readPrefixedInt64_iff hn
  · rintro ⟨l, hl, hspells⟩ t ht n hn
    obtain ⟨k, hread, hk⟩ := (forall₂_iff_forall_mem (integers_read hl) hunique).1 hspells t ht
    -- A text spells one number.
    have hsame : n = k := Except.ok.inj ((Decimal.readInt64_ok.2 hn).symm.trans (Decimal.readInt64_ok.2 hk))
    exact (Decimal.readPrefixedInt64_eq_iff hn).1 (hsame ▸ hread)
  · intro hsmall
    have hread : ∀ t ∈ ints, ∃ n, Decimal.readPrefixedInt64 t.text = .ok n ∧ Decimal.Spells t.text.toList n.toInt := by
      intro t ht
      obtain ⟨n, hn⟩ := hrange t ht
      exact ⟨n, (Decimal.readPrefixedInt64_eq_iff hn).2 (hsmall t ht n hn), hn⟩
    obtain ⟨l, hl⟩ := haccept.2 fun t ht => (hread t ht).imp fun _ => And.left
    exact ⟨l, hl, (forall₂_iff_forall_mem (integers_read hl) hunique).2 hread⟩
  · refine (integers_read hl).imp fun t k hk n hn => ⟨asLiteral_written hn, ?_⟩
    rw [← Decimal.readPrefixedInt64_eq_iff hn, hk, Except.ok.injEq]

theorem integers_decimal_iff_padded :
    let source := "@f \x7b print -007 0 10 012 -9223372036854775808; \x7d"
    (∃ l, parse "a" source = .ok l ∧ l.integers = [-7, 0, 10, 10, -9223372036854775808]) ∧
      ¬ ∃ l, parse "a" source = .ok l ∧ List.Forall₂ (fun t k => Decimal.Spells t.text.toList k.toInt)
        ((scan source).tokens.filter fun t => t.kind = .int) l.integers := by
  intro source
  have hints : (parse "a" source).toOption.map integers = some [-7, 0, 10, 10, -9223372036854775808] := by
    decide +kernel
  obtain ⟨l, hl, hints⟩ := Option.map_eq_some_iff.1 hints
  have hparse := toOption_eq_some.1 hl
  refine ⟨⟨l, hparse, hints⟩, ?_⟩
  obtain ⟨d, hd, _⟩ := exists_readProgram hparse
  have hrange : ((scan source).tokens.filter fun t => t.kind = .int).all
      (fun t => (Decimal.readInt64 t.text).toOption.isSome) = true := by decide +kernel
  have htoken : ⟨.int, "012", ⟨1, 22, 21⟩⟩ ∈ (scan source).tokens.filter fun t => t.kind = .int := by decide +kernel
  rw [((integers_decimal_iff "a" source (by decide +kernel) d hd).1 fun t ht => ?_).2]
  · intro h
    have := h _ htoken 12 (Decimal.readInt64_ok.1 (by decide +kernel)) (by decide)
    exact absurd this (by decide)
  · obtain ⟨n, hn⟩ := Option.isSome_iff_exists.1 (List.all_eq_true.1 hrange t ht)
    exact ⟨n, Decimal.readInt64_ok.1 (toOption_eq_some.1 hn)⟩

theorem integers_octal :
    let source := "@f \x7b\n  x: int = const 010;\n\x7d"
    ∃ d, Phrase.program.yield d = (scan source).tokens.filter (fun t => !t.kind.isIdle) ∧
      ∃ t ∈ (scan source).tokens, t.kind = .int ∧ Decimal.Spells t.text.toList (10 : Int64).toInt ∧
        Decode.asLiteral (.number (.written t.text)) = .ok (.int 10) ∧
        ∃ l tree, parse "a" source = .ok l ∧ l.toTree "a" = .ok tree ∧ tree.numbers = [.word 8] := by
  intro source
  have hints : (parse "a" source).toOption.map integers = some [8] := by decide +kernel
  obtain ⟨l, hl, hints⟩ := Option.map_eq_some_iff.1 hints
  have hparse := toOption_eq_some.1 hl
  obtain ⟨d, hd, _⟩ := exists_readProgram hparse
  have htoken : ⟨.int, "010", ⟨2, 18, 22⟩⟩ ∈ (scan source).tokens := by decide +kernel
  have hten : Decimal.Spells "010".toList (10 : Int64).toInt := Decimal.readInt64_ok.1 (by decide +kernel)
  have htree : ((parse "a" source).toOption.bind fun l => (l.toTree "a").toOption).isSome = true := by
    decide +kernel
  rw [hl] at htree
  obtain ⟨tree, htree⟩ := Option.isSome_iff_exists.1 htree
  have hlower := toOption_eq_some.1 htree
  refine ⟨d, hd, _, htoken, rfl, hten, asLiteral_written hten, l, tree, hparse, hlower, ?_⟩
  rw [numbers_toTree hlower, hints]
  rfl

end Listing

end BlockIR
