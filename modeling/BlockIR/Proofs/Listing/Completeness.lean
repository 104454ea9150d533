import BlockIR.Proofs.Listing.Derivation
import BlockIR.Proofs.Listing.Lexing

/-! Every word of the language is read, and as what it stands for. One token tells the alternatives of
the grammar apart; only whether an instruction has a target is known no sooner than at its second token. -/

namespace BlockIR.Listing

open Rule

def marks : List String :=
  ["@", ".", ":", ";", ",", "(", ")", "\x7b", "\x7d", "="]

namespace Lexeme.Proper

variable {l : Lexeme} {s : String}

lemma kind_of_mark (h : l.Proper) (hs : l.token.text ∈ marks) : l.token.kind = .punctuation :=
  h.kind ((by decide : ∀ s ∈ marks, TokenKind.punctuation.lexeme s.toList ≠ []) _ hs)

lemma kind_of_bool (h : l.Proper) (b : Bool) (hs : l.token.text = (if b then "true" else "false")) :
    l.token.kind = .ident := by
  refine h.kind ?_
  rw [hs]
  cases b <;> decide

lemma not_mark (h : l.Proper) (hk : l.token.kind ≠ .punctuation) (hs : s ∈ marks) : l.token.text ≠ s := by
  rintro rfl
  exact hk (h.kind_of_mark hs)

end Lexeme.Proper

lemma Many.and_forall {α : Type} {D : List Lexeme → α → Prop} {P : Lexeme → Prop} {w : List Lexeme}
    {as : List α} (h : Many D w as) (hp : ∀ l ∈ w, P l) :
    Many (fun u a => D u a ∧ ∀ l ∈ u, P l) w as := by
  induction h with
  | nil => exact .nil
  | cons hd _ ih =>
    obtain ⟨hu, hv⟩ := List.forall_mem_append.1 hp
    exact .cons ⟨hd, hu⟩ (ih hv)

lemma param_finds {w rest : List Lexeme} {p : Param} (h : IsParam w p) : param.Finds w p rest := by
  obtain ⟨hl, hm, hn⟩ := h
  exact (((name_finds hl).seq (.cons (literal_finds hm) (Tail.finds_last (name_finds hn)))).named _).map _

lemma target_finds {w rest : List Lexeme} {t : Target} (h : IsTarget w t) : target.Finds w t rest := by
  obtain ⟨hl, hm, hn, hk⟩ := h
  exact (((name_finds hl).seq (.cons (literal_finds hm) (.cons (name_finds hn)
    (Tail.finds_last (literal_finds hk))))).named _).map _

lemma target_givesUp {l m : Lexeme} {ls : List Lexeme} {x : Name} (hl : IsName l x)
    (hm : m.token.text ≠ ":") : target.GivesUp (l :: m :: ls) := by
  intro c hc
  have hname : name.run c = (.found x, c.advance) :=
    map_found.2 ⟨l, token_found.2 ⟨⟨_, hc⟩, by simpa using hl.1, rfl⟩, hl.2.symm⟩
  -- The trial fails after one token, which is within the lookahead.
  obtain ⟨e, he⟩ := seq_cons_misses (t := .cons name (.last (literal "="))) hname
    (literal_misses (s := ":") (by simpa [hc] using hm))
  refine ⟨_, .inr ⟨e, _, map_failed.2 (named_failed.2 ⟨_, he, rfl⟩), ?_, rfl⟩, by simpa using hc, by simp⟩
  simp [Cursor.committed, Cursor.lookahead]

lemma bool_misses {rest : List Lexeme} (ht : ∀ l ∈ rest.head?, l.token.text ≠ "true")
    (hf : ∀ l ∈ rest.head?, l.token.text ≠ "false") :
    (group (choice [(literal "true").map fun _ => RawOperand.bool true,
      (literal "false").map fun _ => RawOperand.bool false])).Misses rest :=
  Misses.group (choice_misses ⟨(literal_misses ht).map _, (literal_misses hf).map _⟩)

lemma operand_finds {w rest : List Lexeme} {o : Operand} (h : IsOperand w o) (hp : ∀ l ∈ w, l.Proper) :
    operand.Finds w o rest := by
  cases h with
  | @func l m x hl hm =>
    have hr : rawOperand.Finds [l, m] (.func x) rest :=
      choice_finds [] _ trivial (((literal_finds hl).seq (Tail.finds_last (name_finds hm))).map _)
    exact (hr.named _).convert rfl
  | @label l m x hl hm =>
    have hr : rawOperand.Finds [l, m] (.label x) rest :=
      choice_finds [_] _ (((literal_misses (by simp [hl])).seq _).map _)
        (((literal_finds hl).seq (Tail.finds_last (name_finds hm))).map _)
    exact (hr.named _).convert rfl
  | @int l n hk hn =>
    have hne {s : String} (hs : s ∈ marks) := (hp l (by simp)).not_mark (by simp [hk]) hs
    have hr : rawOperand.Finds [l] (.int l) rest := by
      refine choice_finds [_, _] _ ⟨((literal_misses ?_).seq _).map _, ((literal_misses ?_).seq _).map _⟩
        ((token_finds (by simpa using hk)).map _)
      · simpa using hne (by decide)
      · simpa using hne (by decide)
    exact (hr.named _).convert (by simp [RawOperand.read, hn, Except.map])
  | @bool l b hl =>
    have hk := (hp l (by simp)).kind_of_bool b hl
    exact ((rawOperand_finds_bool hk b hl).named _).convert rfl
  | @arg l x hx ht hf =>
    have hne {s : String} (hs : s ∈ marks) := (hp l (by simp)).not_mark (by simp [hx.1]) hs
    have hr : rawOperand.Finds [l] (.arg x) rest := by
      refine choice_finds [_, _, _, _] [] ⟨((literal_misses ?_).seq _).map _, ((literal_misses ?_).seq _).map _,
        (ofKind_misses (by simp [hx.1])).map _, bool_misses ?_ ?_⟩ ((name_finds hx).map _)
      · simpa using hne (by decide)
      · simpa using hne (by decide)
      · simpa using ht
      · simpa using hf
    exact (hr.named _).convert rfl

lemma operand_misses {l : Lexeme} {rest : List Lexeme} (hl : l.token.text = ";") (hp : l.Proper) :
    operand.Misses (l :: rest) := by
  have hk : l.token.kind = .punctuation := hp.kind_of_mark (by simp [hl, marks])
  have hraw : rawOperand.Misses (l :: rest) :=
    choice_misses ⟨((literal_misses (by simp [hl])).seq _).map _, ((literal_misses (by simp [hl])).seq _).map _,
      (ofKind_misses (by simp [hk])).map _, bool_misses (by simp [hl]) (by simp [hl]),
      (name_misses (by simp [hk])).map _⟩
  exact (hraw.named _).convert _

lemma IsOperand.head {w : List Lexeme} {o : Operand} (h : IsOperand w o) (hp : ∀ l ∈ w, l.Proper) :
    ∃ l v, w = l :: v ∧ l.token.text ≠ ":" := by
  cases h with
  | func hl _ => exact ⟨_, _, rfl, by simp [hl]⟩
  | label hl _ => exact ⟨_, _, rfl, by simp [hl]⟩
  | int hk _ => exact ⟨_, _, rfl, (hp _ (by simp)).not_mark (by simp [hk]) (by decide)⟩
  | bool b hl => exact ⟨_, _, rfl, by cases b <;> simp [hl]⟩
  | arg hx _ _ => exact ⟨_, _, rfl, (hp _ (by simp)).not_mark (by simp [hx.1]) (by decide)⟩

lemma operands_head {w : List Lexeme} {xs : List Operand} {l : Lexeme} (h : Many IsOperand w xs)
    (hl : l.token.text = ";") (hp : ∀ l ∈ w, l.Proper) :
    ∃ m v, w ++ [l] = m :: v ∧ m.token.text ≠ ":" := by
  cases h with
  | nil => exact ⟨l, [], rfl, by simp [hl]⟩
  | @cons u v _ _ hu _ =>
    obtain ⟨m, u', rfl, hm⟩ := hu.head fun l hl => hp l (List.mem_append_left v hl)
    exact ⟨m, u' ++ v ++ [l], rfl, hm⟩

lemma operands_finds {w rest : List Lexeme} {xs : List Operand} {l : Lexeme} (h : Many IsOperand w xs)
    (hl : l.token.text = ";") (hw : ∀ l ∈ w, l.Proper) (hp : l.Proper) :
    (many operand).Finds w xs (l :: rest) := by
  refine many_finds (h.and_forall hw) ?_ (fun _ _ _ h => operand_finds h.1 h.2) (operand_misses hl hp).givesUp
  rintro u o ⟨ho, hu⟩ rfl
  obtain ⟨_, _, hnil, _⟩ := ho.head hu
  cases hnil

lemma instr_finds {w rest : List Lexeme} {i : Instr} (h : IsInstr w i) (hp : ∀ l ∈ w, l.Proper) :
    instr.Finds w i rest := by
  cases h with
  | @plain l s w op xs hl hw hs =>
    have hpw : ∀ l ∈ w, l.Proper := fun m hm => hp m (by simp [hm])
    obtain ⟨m, v, hv, hm⟩ := operands_head hw hs hpw
    have ht : target.GivesUp ([l] ++ (w ++ [s]) ++ rest) := by
      rw [hv]
      exact target_givesUp hl hm
    rw [hl.pos]
    exact ((ht.opt.seq (.cons (name_finds hl) (.cons (operands_finds hw hs hpw (hp s (by simp)))
      (Tail.finds_last (literal_finds hs))))).named _).map _
  | @targeted l s v w t op xs ht hl hw hs =>
    have hpw : ∀ l ∈ w, l.Proper := fun m hm => hp m (by simp [hm])
    obtain ⟨hx, hc, hy, he⟩ := ht
    rw [hx.pos]
    exact (((target_finds (.mk hx hc hy he)).opt.seq (.cons (name_finds hl)
      (.cons (operands_finds hw hs hpw (hp s (by simp))) (Tail.finds_last (literal_finds hs))))).named _).map _

lemma label_finds {w rest : List Lexeme} {x : Label} (h : IsLabel w x) : label.Finds w x rest := by
  obtain ⟨hl, hm, hn⟩ := h
  exact (((literal_finds hl).seq (.cons (name_finds hm) (Tail.finds_last (literal_finds hn)))).named _).map _

lemma label_misses {l : Lexeme} {rest : List Lexeme} (h : l.token.text ≠ ".") : label.Misses (l :: rest) :=
  (((literal_misses (by simpa using h)).seq _).named _).map _

lemma IsInstr.head {w : List Lexeme} {i : Instr} (h : IsInstr w i) :
    ∃ l v, w = l :: v ∧ l.token.kind = .ident := by
  cases h with
  | plain hl _ _ => exact ⟨_, _, rfl, hl.1⟩
  | targeted ht _ _ _ =>
    obtain ⟨hx, _, _, _⟩ := ht
    exact ⟨_, _, rfl, hx.1⟩

lemma IsItem.head {w : List Lexeme} {i : Item} (h : IsItem w i) : ∃ l v, w = l :: v := by
  cases h with
  | label hx =>
    obtain ⟨_, _, _⟩ := hx
    exact ⟨_, _, rfl⟩
  | instr hi =>
    obtain ⟨l, v, hw, _⟩ := hi.head
    exact ⟨l, v, hw⟩

lemma item_finds {w rest : List Lexeme} {i : Item} (h : IsItem w i) (hp : ∀ l ∈ w, l.Proper) :
    item.Finds w i rest := by
  obtain ⟨l, v, rfl⟩ := h.head
  have hc : (choice [label.map Item.label, instr.map Item.instr]).Finds (l :: v) i rest := by
    cases h with
    | label hx => exact choice_finds [] _ trivial ((label_finds hx).map _)
    | instr hi =>
      obtain ⟨_, _, hv, hk⟩ := hi.head
      cases hv
      have hdot := (hp l (by simp)).not_mark (by simp [hk]) (s := ".") (by decide)
      refine choice_finds [_] [] ?_ ((instr_finds hi hp).map _)
      exact (label_misses hdot).map _
  exact (hc.named _).map _

lemma item_givesUp {l : Lexeme} {rest : List Lexeme} (hl : l.token.text = "\x7d") (hp : l.Proper) :
    item.GivesUp (l :: rest) := by
  intro c hc
  have hk : l.token.kind = .punctuation := hp.kind_of_mark (by simp [hl, marks])
  have hlabel : (label.map Item.label).run c = (.absent, c) :=
    (label_misses (by simp [hl])).map _ c hc
  have hname : name.Misses (l :: rest) := name_misses (by simp [hk])
  have htarget : target.Misses (l :: rest) := ((hname.seq _).named _).map _
  -- The target is optional, so an instruction does not miss here: it fails, before its first token.
  have hinstr : ∃ e, (instr.map Item.instr).run c = (.failed e, (c.accept c).note e) := by
    have hopt : (opt target).run c = (.found none, c.accept c) := by simp [opt, htarget c hc]
    obtain ⟨e, he⟩ := seq_cons_misses (t := .cons (many operand) (.last (literal ";"))) hopt
      (by simpa [hc] using hname)
    exact ⟨e, map_failed.2 (map_failed.2 (named_failed.2 ⟨_, he, rfl⟩))⟩
  obtain ⟨e, he⟩ := hinstr
  have hstay : c.committed ((c.accept c).note e) = false := by simp [Cursor.committed]
  have hchoice : (choice [label.map Item.label, instr.map Item.instr]).run c =
      (.failed e, (c.heed ((c.accept c).note e) e).note e) := by
    simp [choice, firstOf, hlabel, he, hstay]
  refine ⟨_, .inr ⟨e, _, map_failed.2 (named_failed.2 ⟨_, hchoice, rfl⟩), ?_, rfl⟩, by simpa using hc, by simp⟩
  simp [Cursor.committed]

lemma nextParams_finds {w : List Lexeme} {ps : List Param} {r : Lexeme} (h : Many IsNextParam w ps)
    (hr : r.token.text = ")") (rest : List Lexeme) :
    ∃ qs, (many (group ((literal ",").seq (.last param)))).Finds w qs (r :: rest) ∧ qs.map (·.2) = ps := by
  have hlift : ∃ qs : List (Lexeme × Param),
      Many (fun u q => u.head? = some q.1 ∧ IsNextParam u q.2) w qs ∧ qs.map (·.2) = ps := by
    induction h with
    | nil => exact ⟨[], .nil, rfl⟩
    | cons hu _ ih =>
      obtain ⟨qs, hqs, rfl⟩ := ih
      obtain ⟨hl, hp⟩ := hu
      exact ⟨(_, _) :: qs, .cons ⟨rfl, .mk hl hp⟩ hqs, rfl⟩
  obtain ⟨qs, hqs, rfl⟩ := hlift
  refine ⟨qs, many_finds hqs ?_ ?_ ?_, rfl⟩
  · rintro _ _ ⟨hu, _⟩ rfl
    cases hu
  · rintro _ v ⟨l, p⟩ ⟨hu, hp⟩
    obtain ⟨hl, hp⟩ := hp
    cases hu
    exact ((literal_finds hl).seq (Tail.finds_last (param_finds hp))).group
  · exact ((literal_misses (by simp [hr])).seq _).group.givesUp

lemma params_finds {w rest : List Lexeme} {ps : List Param} (h : IsParams w ps) (hp : ∀ l ∈ w, l.Proper)
    (hrest : ∀ l ∈ rest.head?, l.token.text ≠ "(") : params.Finds w ps rest := by
  cases h with
  | none => exact (((literal_misses hrest).seq _).group.givesUp.opt).map _
  | @empty l r hl hr =>
    have hk : r.token.kind = .punctuation := (hp r (by simp)).kind_of_mark (by simp [hr, marks])
    have hparam : param.Misses ([r] ++ rest) := (((name_misses (by simp [hk])).seq _).named _).map _
    exact (((literal_finds hl).seq (.cons (hparam.seq _).group.givesUp.opt
      (Tail.finds_last (literal_finds hr)))).group.opt).map _
  | @some l r w v p ps hl hw hv hr =>
    obtain ⟨qs, hqs, rfl⟩ := nextParams_finds hv hr rest
    exact (((literal_finds hl).seq (.cons ((param_finds hw).seq (Tail.finds_last hqs)).group.opt
      (Tail.finds_last (literal_finds hr)))).group.opt).map _

lemma resultType_finds {w rest : List Lexeme} {t : Option Name} (h : IsType w t)
    (hrest : ∀ l ∈ rest.head?, l.token.text ≠ ":") : resultType.Finds w t rest := by
  cases h with
  | none => exact (((literal_misses hrest).seq _).group.givesUp.opt).map _
  | some hl ht => exact (((literal_finds hl).seq (Tail.finds_last (name_finds ht))).group.opt).map _

lemma func_finds {w rest : List Lexeme} {f : Func} (h : IsFunc w f) (hp : ∀ l ∈ w, l.Proper) :
    func.Finds w f rest := by
  obtain @⟨l, m, b, e, u, v, w, x, ps, t, body, hl, hm, hu, hv, hb, hw, he⟩ := h
  have hparams : params.Finds u ps ((v ++ ([b] ++ (w ++ [e]))) ++ rest) := by
    refine params_finds hu (fun l hl => hp l (by simp [hl])) ?_
    cases hv with
    | none => simp [hb]
    | some hc _ => simp [hc]
  have hbody : (many item).Finds w body ([e] ++ rest) := by
    refine many_finds (hw.and_forall fun l hl => hp l (by simp [hl])) ?_ (fun _ _ _ h => item_finds h.1 h.2)
      (item_givesUp he (hp e (by simp)))
    rintro _ _ ⟨hi, _⟩ rfl
    obtain ⟨_, _, hnil⟩ := hi.head
    cases hnil
  exact (((literal_finds hl).seq (.cons (name_finds hm) (.cons hparams
    (.cons (resultType_finds hv (by simp [hb])) (.cons (literal_finds hb) (.cons hbody
      (Tail.finds_last (literal_finds he)))))))).named _).map _

lemma readAll_complete {ls : List Lexeme} {fs : List Func} (h : Many IsFunc ls fs) (hp : ∀ l ∈ ls, l.Proper)
    (stop : Position) : readAll ls stop = .ok ⟨fs⟩ := by
  have hend : func.GivesUp [] := (((literal_misses (by simp)).seq _).named _).map _ |>.givesUp
  have hall : program.Finds ls fs [] := by
    refine many_finds (h.and_forall hp) ?_ (fun _ _ _ h => func_finds h.1 h.2) hend
    rintro _ _ ⟨hf, _⟩ rfl
    cases hf
  obtain ⟨c, hc, hrest⟩ := hall ⟨0, ls, stop, 0, none⟩ (by simp)
  simp only [readAll, hc, readAll.finish, hrest]
  rfl

end BlockIR.Listing
