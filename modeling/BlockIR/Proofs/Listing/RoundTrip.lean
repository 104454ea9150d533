import BlockIR.Proofs.Listing.Completeness
import BlockIR.Proofs.Listing.Spelling

namespace BlockIR.Listing

def Name.bare (x : Name) : Name :=
  ⟨x.text, nowhere⟩

def Param.bare (p : Param) : Param :=
  ⟨p.name.bare, p.type.bare⟩

def OperandValue.bare : OperandValue → OperandValue
  | func x => func x.bare
  | label x => label x.bare
  | int n => int n
  | bool b => bool b
  | arg x => arg x.bare

def Operand.bare (o : Operand) : Operand :=
  ⟨o.value.bare, nowhere⟩

def Target.bare (t : Target) : Target :=
  ⟨t.dest.bare, t.type.bare⟩

def Instr.bare (i : Instr) : Instr :=
  ⟨i.target.map Target.bare, i.op.bare, i.operands.map Operand.bare, nowhere⟩

def Label.bare (l : Label) : Label :=
  ⟨l.name.bare, nowhere⟩

def Item.bare : Item → Item
  | label l => label l.bare
  | instr i => instr i.bare

def Func.bare (f : Func) : Func :=
  ⟨f.name.bare, f.params.map Param.bare, f.type.map Name.bare, f.body.map Item.bare, nowhere⟩

/-- A listing without the places of its parts. -/
def bare (l : Listing) : Listing :=
  ⟨l.funcs.map Func.bare⟩

def wordsOf (w : List Lexeme) : List Word :=
  w.map (·.token.word)

lemma wordsOf_eq_nil {w : List Lexeme} : wordsOf w = [] ↔ w = [] :=
  List.map_eq_nil_iff

lemma wordsOf_eq_cons {w : List Lexeme} {a : Word} {as : List Word} :
    wordsOf w = a :: as ↔ ∃ l v, w = l :: v ∧ l.token.word = a ∧ wordsOf v = as :=
  List.map_eq_cons_iff

lemma wordsOf_eq_append {w : List Lexeme} {as bs : List Word} :
    wordsOf w = as ++ bs ↔ ∃ u v, w = u ++ v ∧ wordsOf u = as ∧ wordsOf v = bs :=
  List.map_eq_append_iff

section Derive

variable {w : List Lexeme}

lemma exists_many {α : Type} {D : List Lexeme → α → Prop} {words : α → List Word} {f : α → α} {as : List α}
    (h : ∀ a ∈ as, ∀ u, wordsOf u = words a → ∃ b, D u b ∧ f b = f a) (hw : wordsOf w = as.flatMap words) :
    ∃ bs, Many D w bs ∧ bs.map f = as.map f := by
  induction as generalizing w with
  | nil =>
    obtain rfl := wordsOf_eq_nil.1 hw
    exact ⟨[], .nil, rfl⟩
  | cons a as ih =>
    obtain ⟨ha, has⟩ := List.forall_mem_cons.1 h
    obtain ⟨u, v, rfl, hu, hv⟩ := wordsOf_eq_append.1 hw
    obtain ⟨b, hb, hab⟩ := ha u hu
    obtain ⟨bs, hbs, habs⟩ := ih has hv
    exact ⟨b :: bs, .cons hb hbs, by simp [hab, habs]⟩

lemma exists_name {l : Lexeme} {x : Name} (hx : x.Writable) (h : l.token.word = x.word) :
    ∃ y, IsName l y ∧ y.bare = x.bare := by
  obtain ⟨s, hs, _⟩ := Text.isIdent_iff.1 hx
  obtain ⟨hk, ht⟩ := Prod.ext_iff.1 h
  refine ⟨⟨.plain l.token.text, l.token.start⟩, ⟨hk, rfl⟩, ?_⟩
  have htext : l.token.text = s := ht.trans (by simp [Name.word, hs])
  simp [Name.bare, hs, htext]

lemma exists_param {p : Param} (hp : p.Writable) (h : wordsOf w = p.words) :
    ∃ q, IsParam w q ∧ q.bare = p.bare := by
  simp only [Param.words, wordsOf_eq_cons, wordsOf_eq_nil] at h
  obtain ⟨l, _, rfl, hl, m, _, rfl, hm, n, _, rfl, hn, rfl⟩ := h
  obtain ⟨x, hx, hxb⟩ := exists_name hp.1 hl
  obtain ⟨t, ht, htb⟩ := exists_name hp.2 hn
  exact ⟨⟨x, t⟩, .mk hx (Prod.ext_iff.1 hm).2 ht, by simp [Param.bare, hxb, htb]⟩

lemma exists_target {t : Target} (hp : t.Writable) (h : wordsOf w = t.words) :
    ∃ s, IsTarget w s ∧ s.bare = t.bare := by
  simp only [Target.words, wordsOf_eq_cons, wordsOf_eq_nil] at h
  obtain ⟨l, _, rfl, hl, m, _, rfl, hm, n, _, rfl, hn, k, _, rfl, hk, rfl⟩ := h
  obtain ⟨x, hx, hxb⟩ := exists_name hp.1 hl
  obtain ⟨t, ht, htb⟩ := exists_name hp.2 hn
  exact ⟨⟨x, t⟩, .mk hx (Prod.ext_iff.1 hm).2 ht (Prod.ext_iff.1 hk).2, by simp [Target.bare, hxb, htb]⟩

lemma exists_operand {o : Operand} (ho : o.value.Writable) (h : wordsOf w = o.value.words) :
    ∃ q, IsOperand w q ∧ q.bare = o.bare := by
  obtain ⟨v, p⟩ := o
  cases v with
  | func x =>
    simp only [OperandValue.words, wordsOf_eq_cons, wordsOf_eq_nil] at h
    obtain ⟨l, _, rfl, hl, m, _, rfl, hm, rfl⟩ := h
    obtain ⟨y, hy, hyb⟩ := exists_name ho hm
    exact ⟨_, .func (Prod.ext_iff.1 hl).2 hy, by simp [Operand.bare, OperandValue.bare, hyb]⟩
  | label x =>
    simp only [OperandValue.words, wordsOf_eq_cons, wordsOf_eq_nil] at h
    obtain ⟨l, _, rfl, hl, m, _, rfl, hm, rfl⟩ := h
    obtain ⟨y, hy, hyb⟩ := exists_name ho hm
    exact ⟨_, .label (Prod.ext_iff.1 hl).2 hy, by simp [Operand.bare, OperandValue.bare, hyb]⟩
  | int n =>
    simp only [OperandValue.words, wordsOf_eq_cons, wordsOf_eq_nil] at h
    obtain ⟨l, _, rfl, hl, rfl⟩ := h
    obtain ⟨hk, ht⟩ := Prod.ext_iff.1 hl
    have hread : Decimal.readPrefixedInt64 l.token.text = .ok n :=
      (congrArg _ ht).trans (Decimal.readPrefixedInt64_ofInt n)
    exact ⟨_, .int hk hread, rfl⟩
  | bool b =>
    simp only [OperandValue.words, wordsOf_eq_cons, wordsOf_eq_nil] at h
    obtain ⟨l, _, rfl, hl, rfl⟩ := h
    exact ⟨_, .bool b (Prod.ext_iff.1 hl).2, rfl⟩
  | arg x =>
    obtain ⟨hx, htrue, hfalse⟩ := ho
    simp only [OperandValue.words, wordsOf_eq_cons, wordsOf_eq_nil] at h
    obtain ⟨l, _, rfl, hl, rfl⟩ := h
    obtain ⟨y, hy, hyb⟩ := exists_name hx hl
    have htext : x.text = .plain l.token.text := by
      have hxy : y.text = x.text := by simpa [Name.bare] using hyb
      rw [← hxy, hy.2]
    refine ⟨_, .arg hy ?_ ?_, by simp [Operand.bare, OperandValue.bare, hyb]⟩
    · rintro ht
      exact htrue (by rw [htext, ht])
    · rintro ht
      exact hfalse (by rw [htext, ht])

lemma exists_instr {i : Instr} (hi : i.Writable) (h : wordsOf w = i.words) :
    ∃ j, IsInstr w j ∧ j.bare = i.bare := by
  obtain ⟨t, op, os, p⟩ := i
  simp only [Instr.words, wordsOf_eq_cons, wordsOf_eq_nil, wordsOf_eq_append] at h
  obtain ⟨u, _, rfl, hu, l, _, rfl, hl, v, _, rfl, hv, s, _, rfl, hs, rfl⟩ := h
  obtain ⟨op', hop, hopb⟩ := exists_name hi.op hl
  obtain ⟨os', hos, hosb⟩ := exists_many (f := Operand.bare)
    (fun o ho u hu => exists_operand (hi.operands o ho) hu) hv
  have hsemi : s.token.text = ";" := (Prod.ext_iff.1 hs).2
  cases t with
  | none =>
    obtain rfl := wordsOf_eq_nil.1 hu
    exact ⟨_, .plain hop hos hsemi, by simp [Instr.bare, hopb, hosb]⟩
  | some t =>
    obtain ⟨t', ht, htb⟩ := exists_target (hi.target t rfl) hu
    exact ⟨_, .targeted ht hop hos hsemi, by simp [Instr.bare, hopb, hosb, htb]⟩

lemma exists_item {i : Item} (hi : i.Writable) (h : wordsOf w = i.words) :
    ∃ j, IsItem w j ∧ j.bare = i.bare := by
  cases i with
  | label l =>
    simp only [Item.words, wordsOf_eq_cons, wordsOf_eq_nil] at h
    obtain ⟨k, _, rfl, hk, m, _, rfl, hm, n, _, rfl, hn, rfl⟩ := h
    obtain ⟨x, hx, hxb⟩ := exists_name hi hm
    exact ⟨_, .label (.mk (Prod.ext_iff.1 hk).2 hx (Prod.ext_iff.1 hn).2), by simp [Item.bare, Label.bare, hxb]⟩
  | instr i =>
    obtain ⟨j, hj, hjb⟩ := exists_instr hi h
    exact ⟨_, .instr hj, by simp [Item.bare, hjb]⟩

lemma exists_params {ps : List Param} (hp : ∀ p ∈ ps, p.Writable) (h : wordsOf w = paramsWords ps) :
    ∃ qs, IsParams w qs ∧ qs.map Param.bare = ps.map Param.bare := by
  cases ps with
  | nil =>
    obtain rfl := wordsOf_eq_nil.1 h
    exact ⟨[], .none, rfl⟩
  | cons p ps =>
    obtain ⟨hp, hps⟩ := List.forall_mem_cons.1 hp
    simp only [paramsWords, wordsOf_eq_cons, wordsOf_eq_nil, wordsOf_eq_append] at h
    obtain ⟨l, _, rfl, hl, u, _, rfl, hu, v, _, rfl, hv, r, _, rfl, hr, rfl⟩ := h
    obtain ⟨q, hq, hqb⟩ := exists_param hp hu
    have hnext : ∀ p ∈ ps, ∀ u, wordsOf u = mark "," :: p.words → ∃ q, IsNextParam u q ∧ q.bare = p.bare := by
      intro p hp u hu
      obtain ⟨l, v, rfl, hl, hv⟩ := wordsOf_eq_cons.1 hu
      obtain ⟨q, hq, hqb⟩ := exists_param (hps p hp) hv
      exact ⟨q, .mk (Prod.ext_iff.1 hl).2 hq, hqb⟩
    obtain ⟨qs, hqs, hqsb⟩ := exists_many hnext hv
    refine ⟨q :: qs, ?_, by simp [hqb, hqsb]⟩
    simpa using IsParams.some (Prod.ext_iff.1 hl).2 hq hqs (Prod.ext_iff.1 hr).2

lemma exists_type {t : Option Name} (ht : ∀ x ∈ t, x.Writable) (h : wordsOf w = typeWords t) :
    ∃ s, IsType w s ∧ s.map Name.bare = t.map Name.bare := by
  cases t with
  | none =>
    obtain rfl := wordsOf_eq_nil.1 h
    exact ⟨none, .none, rfl⟩
  | some x =>
    simp only [typeWords, wordsOf_eq_cons, wordsOf_eq_nil] at h
    obtain ⟨l, _, rfl, hl, m, _, rfl, hm, rfl⟩ := h
    obtain ⟨y, hy, hyb⟩ := exists_name (ht x rfl) hm
    exact ⟨some y, .some (Prod.ext_iff.1 hl).2 hy, by simp [hyb]⟩

lemma exists_func {f : Func} (hf : f.Writable) (h : wordsOf w = f.words) :
    ∃ g, IsFunc w g ∧ g.bare = f.bare := by
  simp only [Func.words, wordsOf_eq_cons, wordsOf_eq_nil, wordsOf_eq_append] at h
  obtain ⟨l, _, rfl, hl, m, _, rfl, hm, u, _, rfl, hu, v, _, rfl, hv, b, _, rfl, hb, w, _, rfl, hw,
    e, _, rfl, he, rfl⟩ := h
  obtain ⟨x, hx, hxb⟩ := exists_name hf.name hm
  obtain ⟨ps, hps, hpsb⟩ := exists_params hf.params hu
  obtain ⟨t, ht, htb⟩ := exists_type hf.type hv
  obtain ⟨body, hbody, hbodyb⟩ := exists_many (f := Item.bare)
    (fun i hi u hu => exists_item (hf.body i hi) hu) hw
  exact ⟨_, .mk (Prod.ext_iff.1 hl).2 hx hps ht (Prod.ext_iff.1 hb).2 hbody (Prod.ext_iff.1 he).2,
    by simp [Func.bare, hxb, hpsb, htb, hbodyb]⟩

end Derive

lemma parse_render {l : Listing} (hl : ∀ f ∈ l.funcs, f.Writable) (file : String) :
    ∃ l', parse file l.render = .ok l' ∧ l'.bare = l.bare := by
  obtain ⟨hrest, hwords⟩ := (lexes_render hl).scanFrom .start
  have hw : wordsOf (lexemes (scan l.render).tokens) = l.funcs.flatMap Func.words := by
    rw [← hwords, scan, ← lexemesFrom_token none]
    simp [wordsOf, lexemes]
  obtain ⟨fs, hfs, hbare⟩ := exists_many (f := Func.bare) (fun f hf u hu => exists_func (hl f hf) hu) hw
  refine ⟨⟨fs⟩, ?_, by simp [bare, hbare]⟩
  simp only [parse]
  rw [if_pos (by simp [scan, hrest]), readAll_complete hfs (lexemes_proper _)]
  rfl

lemma parse_ok {file source : String} {l : Listing} (h : parse file source = .ok l) :
    Many IsFunc (lexemes (scan source).tokens) l.funcs := by
  simp only [parse] at h
  split at h
  · rcases hr : readAll (lexemes (scan source).tokens) (scan source).stop with e | l'
    · rw [hr] at h
      cases h
    · rw [hr] at h
      cases h
      exact readAll_sound hr
  · cases h

section Writable

variable {w : List Lexeme}

lemma Many.exists_of_mem {α : Type} {D : List Lexeme → α → Prop} {as : List α} {a : α} (h : Many D w as)
    (ha : a ∈ as) : ∃ u, D u a ∧ u <:+: w := by
  induction h with
  | nil => cases ha
  | @cons u v _ _ hd _ ih =>
    rcases List.mem_cons.1 ha with rfl | ha
    · exact ⟨u, hd, (List.prefix_append u v).isInfix⟩
    · obtain ⟨x, hx, hpart⟩ := ih ha
      exact ⟨x, hx, hpart.trans (List.suffix_append u v).isInfix⟩

lemma Many.forall {α : Type} {D : List Lexeme → α → Prop} {P : α → Prop} {as : List α}
    (hD : ∀ u a, D u a → (∀ l ∈ u, l.Proper) → P a) (h : Many D w as) (hp : ∀ l ∈ w, l.Proper) :
    ∀ a ∈ as, P a := by
  intro a ha
  obtain ⟨u, hu, hpart⟩ := h.exists_of_mem ha
  exact hD u a hu fun l hl => hp l (hpart.subset hl)

lemma IsName.writable {l : Lexeme} {x : Name} (h : IsName l x) (hp : l.Proper) : x.Writable := by
  obtain ⟨hk, rfl⟩ := h
  have hw := hp.whole
  rw [hk] at hw
  refine Text.isIdent_iff.2 ⟨_, rfl, ?_⟩
  rcases hs : l.token.text.toList with _ | ⟨c, cs⟩
  · exact absurd hs hp.nonempty
  · rw [hs] at hw
    simp only [TokenKind.lexeme] at hw
    split at hw
    · rename_i hc
      exact ⟨c, cs, rfl, hc, List.takeWhile_eq_self_iff.1 (List.cons.inj hw).2⟩
    · cases hw

lemma IsParam.writable {p : Param} (h : IsParam w p) (hp : ∀ l ∈ w, l.Proper) : p.Writable := by
  obtain ⟨hl, _, hn⟩ := h
  exact ⟨hl.writable (hp _ (by simp)), hn.writable (hp _ (by simp))⟩

lemma IsParams.writable {ps : List Param} (h : IsParams w ps) (hp : ∀ l ∈ w, l.Proper) :
    ∀ p ∈ ps, p.Writable := by
  cases h with
  | none => simp
  | empty _ _ => simp
  | some _ hw hv _ =>
    refine List.forall_mem_cons.2 ⟨hw.writable fun l hl => hp l (by simp [hl]), ?_⟩
    refine hv.forall ?_ fun l hl => hp l (by simp [hl])
    rintro _ _ ⟨_, h⟩ hu
    exact h.writable fun l hl => hu l (by simp [hl])

lemma IsOperand.writable {o : Operand} (h : IsOperand w o) (hp : ∀ l ∈ w, l.Proper) : o.value.Writable := by
  cases h with
  | func _ hm => exact hm.writable (hp _ (by simp))
  | label _ hm => exact hm.writable (hp _ (by simp))
  | int _ _ => trivial
  | bool _ _ => trivial
  | arg hx ht hf =>
    refine ⟨hx.writable (hp _ (by simp)), ?_⟩
    rw [hx.2]
    simpa using ⟨ht, hf⟩

lemma IsInstr.writable {i : Instr} (h : IsInstr w i) (hp : ∀ l ∈ w, l.Proper) : i.Writable := by
  have hops {v : List Lexeme} {os : List Operand} (hv : Many IsOperand v os) (hsub : v ⊆ w) :
      ∀ o ∈ os, o.value.Writable :=
    hv.forall (fun _ _ h hu => h.writable hu) fun l hl => hp l (hsub hl)
  cases h with
  | plain hl hv _ =>
    exact ⟨by simp, hl.writable (hp _ (by simp)), hops hv fun l hl => by simp [hl]⟩
  | targeted ht hl hv _ =>
    refine ⟨?_, hl.writable (hp _ (by simp)), hops hv fun l hl => by simp [hl]⟩
    rintro t hmem
    obtain rfl := Option.mem_some_iff.1 hmem
    obtain ⟨hx, _, hy, _⟩ := ht
    exact ⟨hx.writable (hp _ (by simp)), hy.writable (hp _ (by simp))⟩

lemma IsItem.writable {i : Item} (h : IsItem w i) (hp : ∀ l ∈ w, l.Proper) : i.Writable := by
  cases h with
  | label hx =>
    obtain ⟨_, hm, _⟩ := hx
    exact hm.writable (hp _ (by simp))
  | instr hi => exact hi.writable hp

lemma IsFunc.writable {f : Func} (h : IsFunc w f) (hp : ∀ l ∈ w, l.Proper) : f.Writable := by
  obtain ⟨_, hm, hu, hv, _, hw, _⟩ := h
  refine ⟨hm.writable (hp _ (by simp)), hu.writable fun l hl => hp l (by simp [hl]), ?_,
    hw.forall (fun _ _ h hu => h.writable hu) fun l hl => hp l (by simp [hl])⟩
  cases hv with
  | none => simp
  | some _ ht =>
    rintro t hmem
    obtain rfl := Option.mem_some_iff.1 hmem
    exact ht.writable (hp _ (by simp))

lemma writable_of_parse {file source : String} {l : Listing} (h : parse file source = .ok l) :
    ∀ f ∈ l.funcs, f.Writable :=
  (parse_ok h).forall (fun _ _ h hu => h.writable hu) (lexemes_proper source)

end Writable

section Render

lemma Operand.render_bare (o : Operand) : o.bare.render = o.render := by
  obtain ⟨v, p⟩ := o
  cases v <;> rfl

lemma Instr.render_bare (i : Instr) : i.bare.render = i.render := by
  have ht : (i.target.map Target.bare).map Target.render = i.target.map Target.render := by
    rw [Option.map_map]
    rfl
  simp [Instr.render, Instr.bare, ht, Function.comp_def, Operand.render_bare, Name.bare]

lemma Item.render_bare (i : Item) : i.bare.render = i.render := by
  cases i with
  | label l => rfl
  | instr i => simp [Item.bare, Item.render, Instr.render_bare]

lemma Func.render_bare (f : Func) : f.bare.render = f.render := by
  have hp : (f.params.map Param.bare).map Param.render = f.params.map Param.render := by
    rw [List.map_map]
    rfl
  have hb : (f.body.map Item.bare).map Item.render = f.body.map Item.render := by
    simp [Function.comp_def, Item.render_bare]
  simp [Func.render, Func.bare, hp, hb, Function.comp_def, Name.bare]

lemma render_bare (l : Listing) : l.bare.render = l.render := by
  simp [render, bare, Function.comp_def, Func.render_bare]

/-- What was read from some source is written as a source of its own, from which it is read again up to
places, and writing that once more changes nothing. -/
theorem parse_render_of_parse (file file' source : String) (l : Listing) (h : parse file source = .ok l) :
    ∃ l', parse file' l.render = .ok l' ∧ l'.bare = l.bare ∧ l'.render = l.render := by
  obtain ⟨l', hl', hbare⟩ := parse_render (writable_of_parse h) file'
  refine ⟨l', hl', hbare, ?_⟩
  calc l'.render
    _ = l'.bare.render := l'.render_bare.symm
    _ = l.bare.render := by rw [hbare]
    _ = l.render := l.render_bare

theorem parse_render_loose_source :
    ∃ l l', parse "a" "# c\n@f ( ) \x7b.a.b :x.1:int=const -010 true;#\x7d\n\x7d" = .ok l ∧
      l.render = "@f \x7b\n.a.b:\n  x.1: int = const -8 true;\n\x7d\n" ∧
      parse "b" l.render = .ok l' ∧ l'.bare = l.bare ∧ l'.render = l.render := by
  have hr : (parse "a" "# c\n@f ( ) \x7b.a.b :x.1:int=const -010 true;#\x7d\n\x7d").toOption.map render =
      some "@f \x7b\n.a.b:\n  x.1: int = const -8 true;\n\x7d\n" := by decide +kernel
  cases hp : parse "a" "# c\n@f ( ) \x7b.a.b :x.1:int=const -010 true;#\x7d\n\x7d" with
  | error e =>
    rw [hp] at hr
    cases hr
  | ok l =>
    rw [hp] at hr
    obtain ⟨l', h⟩ := parse_render_of_parse "a" "b" _ l hp
    exact ⟨l, l', rfl, Option.some.inj hr, h⟩

end Render

end BlockIR.Listing
