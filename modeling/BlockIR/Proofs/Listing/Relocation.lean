import BlockIR.Proofs.Listing.RoundTrip

/-! What words stand for does not depend on where they are. So a text whose words are those of some functions
is read as these functions, up to places. -/

namespace BlockIR.Listing

def Movable {α : Type} (D : List Lexeme → α → Prop) (bare : α → α) : Prop :=
  ∀ ⦃w v : List Lexeme⦄ ⦃x : α⦄, D w x → wordsOf v = wordsOf w → ∃ y, D v y ∧ bare y = bare x

@[simp] lemma wordsOf_nil : wordsOf [] = [] := rfl

@[simp] lemma wordsOf_cons (l : Lexeme) (w : List Lexeme) : wordsOf (l :: w) = l.token.word :: wordsOf w := rfl

@[simp] lemma wordsOf_append (u v : List Lexeme) : wordsOf (u ++ v) = wordsOf u ++ wordsOf v :=
  List.map_append

lemma text_of_word {l m : Lexeme} {s : String} (h : l.token.word = m.token.word) (hm : m.token.text = s) :
    l.token.text = s :=
  (congrArg Prod.snd h).trans hm

lemma kind_of_word {l m : Lexeme} {k : TokenKind} (h : l.token.word = m.token.word) (hm : m.token.kind = k) :
    l.token.kind = k :=
  (congrArg Prod.fst h).trans hm

lemma IsName.moved {l m : Lexeme} {x : Name} (h : IsName l x) (hw : m.token.word = l.token.word) :
    ∃ y, IsName m y ∧ y.bare = x.bare := by
  obtain ⟨hk, rfl⟩ := h
  exact ⟨_, ⟨kind_of_word hw hk, rfl⟩, by simp [Name.bare, text_of_word hw rfl]⟩

lemma many_movable {α : Type} {D : List Lexeme → α → Prop} {bare : α → α} (h : Movable D bare) :
    Movable (Many D) (List.map bare) := by
  intro w v xs hw
  induction hw generalizing v with
  | nil =>
    intro hv
    obtain rfl := wordsOf_eq_nil.1 hv
    exact ⟨[], .nil, rfl⟩
  | cons hd _ ih =>
    intro hv
    obtain ⟨u, v, rfl, hu, hv⟩ := wordsOf_eq_append.1 (hv.trans (wordsOf_append _ _))
    obtain ⟨y, hy, hyb⟩ := h hd hu
    obtain ⟨ys, hys, hysb⟩ := ih hv
    exact ⟨y :: ys, .cons hy hys, by simp [hyb, hysb]⟩

lemma param_movable : Movable IsParam Param.bare := by
  rintro _ v _ ⟨hl, hm, hn⟩ hv
  simp only [wordsOf_cons, wordsOf_nil, wordsOf_eq_cons, wordsOf_eq_nil] at hv
  obtain ⟨l, _, rfl, hlw, m, _, rfl, hmw, n, _, rfl, hnw, rfl⟩ := hv
  obtain ⟨x, hx, hxb⟩ := hl.moved hlw
  obtain ⟨t, ht, htb⟩ := hn.moved hnw
  exact ⟨_, .mk hx (text_of_word hmw hm) ht, by simp [Param.bare, hxb, htb]⟩

lemma nextParam_movable : Movable IsNextParam Param.bare := by
  rintro _ v _ ⟨hl, hp⟩ hv
  obtain ⟨l, v, rfl, hlw, hv⟩ := wordsOf_eq_cons.1 (hv.trans (wordsOf_cons _ _))
  obtain ⟨q, hq, hqb⟩ := param_movable hp hv
  exact ⟨q, .mk (text_of_word hlw hl) hq, hqb⟩

lemma params_movable : Movable IsParams (List.map Param.bare) := by
  rintro _ v _ (_ | ⟨hl, hr⟩ | ⟨hl, hp, hps, hr⟩) hv
  · obtain rfl := wordsOf_eq_nil.1 hv
    exact ⟨[], .none, rfl⟩
  · simp only [wordsOf_cons, wordsOf_nil, wordsOf_eq_cons, wordsOf_eq_nil] at hv
    obtain ⟨l, _, rfl, hlw, r, _, rfl, hrw, rfl⟩ := hv
    exact ⟨[], .empty (text_of_word hlw hl) (text_of_word hrw hr), rfl⟩
  · simp only [List.cons_append, List.append_assoc, wordsOf_cons, wordsOf_append, wordsOf_nil, wordsOf_eq_cons,
      wordsOf_eq_append, wordsOf_eq_nil] at hv
    obtain ⟨l, _, rfl, hlw, u, _, rfl, hu, v, _, rfl, hv, r, _, rfl, hrw, rfl⟩ := hv
    obtain ⟨q, hq, hqb⟩ := param_movable hp hu
    obtain ⟨qs, hqs, hqsb⟩ := many_movable nextParam_movable hps hv
    refine ⟨q :: qs, ?_, by simp [hqb, hqsb]⟩
    simpa using IsParams.some (text_of_word hlw hl) hq hqs (text_of_word hrw hr)

lemma type_movable : Movable IsType (Option.map Name.bare) := by
  rintro _ v _ (_ | ⟨hl, hm⟩) hv
  · obtain rfl := wordsOf_eq_nil.1 hv
    exact ⟨none, .none, rfl⟩
  · simp only [wordsOf_cons, wordsOf_nil, wordsOf_eq_cons, wordsOf_eq_nil] at hv
    obtain ⟨l, _, rfl, hlw, m, _, rfl, hmw, rfl⟩ := hv
    obtain ⟨y, hy, hyb⟩ := hm.moved hmw
    exact ⟨some y, .some (text_of_word hlw hl) hy, by simp [hyb]⟩

lemma target_movable : Movable IsTarget Target.bare := by
  rintro _ v _ ⟨hl, hm, hn, hk⟩ hv
  simp only [wordsOf_cons, wordsOf_nil, wordsOf_eq_cons, wordsOf_eq_nil] at hv
  obtain ⟨l, _, rfl, hlw, m, _, rfl, hmw, n, _, rfl, hnw, k, _, rfl, hkw, rfl⟩ := hv
  obtain ⟨x, hx, hxb⟩ := hl.moved hlw
  obtain ⟨t, ht, htb⟩ := hn.moved hnw
  exact ⟨_, .mk hx (text_of_word hmw hm) ht (text_of_word hkw hk), by simp [Target.bare, hxb, htb]⟩

lemma operand_movable : Movable IsOperand Operand.bare := by
  intro w v o hw hv
  cases hw with
  | func hl hm =>
    simp only [wordsOf_cons, wordsOf_nil, wordsOf_eq_cons, wordsOf_eq_nil] at hv
    obtain ⟨l, _, rfl, hlw, m, _, rfl, hmw, rfl⟩ := hv
    obtain ⟨y, hy, hyb⟩ := hm.moved hmw
    exact ⟨_, .func (text_of_word hlw hl) hy, by simp [Operand.bare, OperandValue.bare, hyb]⟩
  | label hl hm =>
    simp only [wordsOf_cons, wordsOf_nil, wordsOf_eq_cons, wordsOf_eq_nil] at hv
    obtain ⟨l, _, rfl, hlw, m, _, rfl, hmw, rfl⟩ := hv
    obtain ⟨y, hy, hyb⟩ := hm.moved hmw
    exact ⟨_, .label (text_of_word hlw hl) hy, by simp [Operand.bare, OperandValue.bare, hyb]⟩
  | int hk hn =>
    simp only [wordsOf_cons, wordsOf_nil, wordsOf_eq_cons, wordsOf_eq_nil] at hv
    obtain ⟨l, _, rfl, hlw, rfl⟩ := hv
    exact ⟨_, .int (kind_of_word hlw hk) (by rwa [text_of_word hlw rfl]), rfl⟩
  | bool b hl =>
    simp only [wordsOf_cons, wordsOf_nil, wordsOf_eq_cons, wordsOf_eq_nil] at hv
    obtain ⟨l, _, rfl, hlw, rfl⟩ := hv
    exact ⟨_, .bool b (text_of_word hlw hl), rfl⟩
  | arg hx ht hf =>
    simp only [wordsOf_cons, wordsOf_nil, wordsOf_eq_cons, wordsOf_eq_nil] at hv
    obtain ⟨l, _, rfl, hlw, rfl⟩ := hv
    obtain ⟨y, hy, hyb⟩ := hx.moved hlw
    have htext := text_of_word hlw rfl
    exact ⟨_, .arg hy (by rwa [htext]) (by rwa [htext]), by simp [Operand.bare, OperandValue.bare, hyb]⟩

lemma instr_movable : Movable IsInstr Instr.bare := by
  rintro _ v _ (⟨hl, hos, hs⟩ | ⟨ht, hl, hos, hs⟩) hv
  · simp only [List.cons_append, wordsOf_cons, wordsOf_append, wordsOf_nil, wordsOf_eq_cons, wordsOf_eq_append,
      wordsOf_eq_nil] at hv
    obtain ⟨l, _, rfl, hlw, u, _, rfl, hu, s, _, rfl, hsw, rfl⟩ := hv
    obtain ⟨op, hop, hopb⟩ := hl.moved hlw
    obtain ⟨os, hos, hosb⟩ := many_movable operand_movable hos hu
    exact ⟨_, .plain hop hos (text_of_word hsw hs), by simp [Instr.bare, hopb, hosb]⟩
  · simp only [List.cons_append, wordsOf_cons, wordsOf_append, wordsOf_nil, wordsOf_eq_cons, wordsOf_eq_append,
      wordsOf_eq_nil] at hv
    obtain ⟨w, _, rfl, hw, l, _, rfl, hlw, u, _, rfl, hu, s, _, rfl, hsw, rfl⟩ := hv
    obtain ⟨t, ht, htb⟩ := target_movable ht hw
    obtain ⟨op, hop, hopb⟩ := hl.moved hlw
    obtain ⟨os, hos, hosb⟩ := many_movable operand_movable hos hu
    exact ⟨_, .targeted ht hop hos (text_of_word hsw hs), by simp [Instr.bare, htb, hopb, hosb]⟩

lemma item_movable : Movable IsItem Item.bare := by
  rintro _ v _ (hx | hi) hv
  · obtain ⟨hl, hm, hn⟩ := hx
    simp only [wordsOf_cons, wordsOf_nil, wordsOf_eq_cons, wordsOf_eq_nil] at hv
    obtain ⟨l, _, rfl, hlw, m, _, rfl, hmw, n, _, rfl, hnw, rfl⟩ := hv
    obtain ⟨x, hx, hxb⟩ := hm.moved hmw
    exact ⟨_, .label (.mk (text_of_word hlw hl) hx (text_of_word hnw hn)), by simp [Item.bare, Label.bare, hxb]⟩
  · obtain ⟨j, hj, hjb⟩ := instr_movable hi hv
    exact ⟨_, .instr hj, by simp [Item.bare, hjb]⟩

lemma func_movable : Movable IsFunc Func.bare := by
  rintro _ v _ ⟨hl, hm, hps, ht, hb, hbody, he⟩ hv
  simp only [wordsOf_cons, wordsOf_append, wordsOf_nil, wordsOf_eq_cons, wordsOf_eq_append, wordsOf_eq_nil] at hv
  obtain ⟨l, _, rfl, hlw, m, _, rfl, hmw, u, _, rfl, hu, v, _, rfl, hv, b, _, rfl, hbw, w, _, rfl, hw, e, _, rfl,
    hew, rfl⟩ := hv
  obtain ⟨x, hx, hxb⟩ := hm.moved hmw
  obtain ⟨ps, hps, hpsb⟩ := params_movable hps hu
  obtain ⟨t, ht, htb⟩ := type_movable ht hv
  obtain ⟨body, hbody, hbodyb⟩ := many_movable item_movable hbody hw
  exact ⟨_, .mk (text_of_word hlw hl) hx hps ht (text_of_word hbw hb) hbody (text_of_word hew he),
    by simp [Func.bare, hxb, hpsb, htb, hbodyb]⟩

lemma parse_of_lexes {w : List Lexeme} {fs : List Func} (h : Many IsFunc w fs) {source : String}
    (hs : Lexes source.toList (wordsOf w)) (file : String) :
    ∃ l, parse file source = .ok l ∧ l.funcs.map Func.bare = fs.map Func.bare := by
  obtain ⟨hrest, hwords⟩ := hs.scanFrom .start
  have hw : wordsOf (lexemes (scan source).tokens) = wordsOf w := by
    rw [← hwords, scan, ← lexemesFrom_token none]
    simp [wordsOf, lexemes]
  obtain ⟨gs, hgs, hbare⟩ := many_movable func_movable h hw
  refine ⟨⟨gs⟩, ?_, hbare⟩
  simp only [parse]
  rw [if_pos (by simp [scan, hrest]), readAll_complete hgs (lexemes_proper _)]
  rfl

end BlockIR.Listing
