import BlockIR.Listing.Tree
import BlockIR.Proofs.Except
import BlockIR.Proofs.Listing.Places
import BlockIR.Proofs.Listing.RoundTrip

/-! Which places a failure can have. Rules blame where the next token starts, where the source ends or, for an
integer, where the token before it ends; whatever they remember and pass on comes from there. So a failure lies
where a token starts or at the end of the source. -/

namespace BlockIR.Listing

namespace Cursor

structure Within (P : Position → Prop) (c : Cursor) : Prop where
  lexemes : ∀ l ∈ c.rest, P l.token.start ∧ P l.lead
  stop : P c.stop
  blame : ∀ e ∈ c.blame, P e.pos

namespace Within

variable {P : Position → Prop} {c trial : Cursor} {e : Fault}

lemma pos (h : c.Within P) : P c.pos := by
  unfold Cursor.pos
  split
  · exact h.stop
  · rename_i l ls hrest
    exact (h.lexemes l (by simp [hrest])).1

lemma advance (h : c.Within P) : c.advance.Within P :=
  ⟨fun l hl => h.lexemes l (List.mem_of_mem_tail hl), h.stop, h.blame⟩

lemma note (h : c.Within P) (he : P e.pos) : (c.note e).Within P := by
  unfold Cursor.note
  split
  · exact ⟨h.lexemes, h.stop, by simpa using he⟩
  · exact h

lemma accept (h : c.Within P) (ht : trial.Within P) : (c.accept trial).Within P := by
  unfold Cursor.accept
  split
  · exact ht
  · exact ⟨ht.lexemes, ht.stop, h.blame⟩

lemma heed (h : c.Within P) (ht : trial.Within P) (he : P e.pos) : (c.heed trial e).Within P := by
  unfold Cursor.heed
  split
  · exact ⟨h.lexemes, h.stop, ht.blame⟩
  · split
    · exact ⟨h.lexemes, h.stop, by simpa using he⟩
    · exact h

end Within

end Cursor

variable {α β : Type} {P : Position → Prop}

def Outcome.At (P : Position → Prop) : Outcome α → Prop
  | absent | found _ => True
  | failed e => P e.pos

def Fault.At (P : Position → Prop) : Except Fault α → Prop
  | .ok _ => True
  | .error e => P e.pos

/-- Fails only at places with a property and remembers only failures at such places, if the cursor has no others. -/
def Rule.Blames (P : Position → Prop) (r : Rule α) : Prop :=
  ∀ c, c.Within P → (r.run c).2.Within P ∧ (r.run c).1.At P

def Tail.Blames (P : Position → Prop) (t : Tail α) : Prop :=
  ∀ c, c.Within P → (t.run c).2.Within P ∧ Fault.At P (t.run c).1

namespace Rule

lemma token_blames (text : String) (p : Token → Bool) : (token text p).Blames P := by
  intro c hc
  rcases hrest : c.rest with _ | ⟨l, ls⟩
  · simp only [token, hrest]
    exact ⟨hc, trivial⟩
  · simp only [token, hrest]
    split
    · exact ⟨hc.advance, trivial⟩
    · exact ⟨hc, trivial⟩

lemma Blames.map {r : Rule α} (hr : r.Blames P) (f : α → β) : (r.map f).Blames P := by
  intro c hc
  have h := hr c hc
  rcases hrun : r.run c with ⟨_ | a | e, d⟩ <;> rw [hrun] at h <;> simp only [Rule.map, hrun] <;> exact h

lemma Blames.seq {r : Rule α} {t : Tail β} (hr : r.Blames P) (ht : t.Blames P) : (r.seq t).Blames P := by
  intro c hc
  have h := hr c hc
  rcases hrun : r.run c with ⟨_ | a | e, d⟩ <;> rw [hrun] at h <;> simp only [Rule.seq, hrun]
  · exact h
  · have h' := ht d h.1
    rcases hrun' : t.run d with ⟨e | b, d'⟩ <;> rw [hrun'] at h' <;> exact h'
  · exact h

lemma Blames.group {r : Rule α} (hr : r.Blames P) : (group r).Blames P :=
  hr

lemma failed_blames {c d : Cursor} {e : Fault} {o : Outcome β} (hc : c.Within P) (hd : d.Within P) (he : P e.pos)
    (ho : o.At P) :
    let c' := (c.note e).heed d e
    let out : Outcome β × Cursor := if c.committed d then (.failed e, c'.accept d) else (o, c')
    out.2.Within P ∧ out.1.At P := by
  have hheed := (hc.note he).heed hd he
  intro c' out
  by_cases hcommitted : c.committed d
  · simp only [out, if_pos hcommitted]
    exact ⟨hheed.accept hd, he⟩
  · simp only [out, if_neg hcommitted]
    exact ⟨hheed, ho⟩

lemma Blames.opt {r : Rule α} (hr : r.Blames P) : (opt r).Blames P := by
  intro c hc
  have h := hr c hc
  rcases hrun : r.run c with ⟨_ | a | e, d⟩ <;> rw [hrun] at h <;> simp only [Rule.opt, hrun]
  · exact ⟨hc.accept h.1, trivial⟩
  · exact ⟨hc.accept h.1, trivial⟩
  · exact failed_blames hc h.1 h.2 trivial

lemma Blames.manyFrom {r : Rule α} (hr : r.Blames P) (fuel : Nat) {c : Cursor} (hc : c.Within P) :
    (manyFrom r fuel c).2.Within P ∧ (manyFrom r fuel c).1.At P := by
  induction fuel generalizing c with
  | zero => exact ⟨hc, trivial⟩
  | succ fuel ih =>
    have h := hr c hc
    rcases hrun : r.run c with ⟨_ | a | e, d⟩ <;> rw [hrun] at h <;> simp only [Rule.manyFrom, hrun]
    · exact ⟨hc.accept h.1, trivial⟩
    · have h' := ih (hc.accept h.1)
      rcases hrest : Rule.manyFrom r fuel (c.accept d) with ⟨_ | as | e, d'⟩ <;> rw [hrest] at h' <;> exact h'
    · exact failed_blames hc h.1 h.2 trivial

lemma Blames.many {r : Rule α} (hr : r.Blames P) : (many r).Blames P :=
  fun _ hc => hr.manyFrom _ hc

lemma firstOf_blames {rs : List (Rule α)} (hrs : ∀ r ∈ rs, r.Blames P) {worst : Option (Fault × Nat)}
    (hworst : ∀ w ∈ worst, P w.1.pos) {c : Cursor} (hc : c.Within P) :
    (firstOf worst rs c).2.Within P ∧ (firstOf worst rs c).1.At P := by
  induction rs generalizing worst c with
  | nil =>
    cases worst with
    | none => exact ⟨hc, trivial⟩
    | some w => exact ⟨hc.note (hworst w rfl), hworst w rfl⟩
  | cons r rs ih =>
    obtain ⟨hr, hrs⟩ := List.forall_mem_cons.1 hrs
    have h := hr c hc
    rcases hrun : r.run c with ⟨_ | a | e, d⟩ <;> rw [hrun] at h <;> simp only [Rule.firstOf, hrun]
    · exact ih hrs hworst hc
    · exact ⟨hc.accept h.1, trivial⟩
    · have hheed := hc.heed h.1 h.2
      split
      · exact ⟨hheed.accept h.1, h.2⟩
      · refine ih hrs (fun w hw => ?_) hheed
        split at hw
        · cases hw
          exact h.2
        · exact hworst w hw

lemma choice_blames {rs : List (Rule α)} (hrs : rs.Forall (·.Blames P)) : (choice rs).Blames P :=
  fun _ hc => firstOf_blames (List.forall_iff_forall_mem.1 hrs) (by simp) hc

lemma Blames.named {r : Rule α} (hr : r.Blames P) (name : String) : (named name r).Blames P := by
  intro c hc
  have h := hr c hc
  rcases hrun : r.run c with ⟨_ | a | e, d⟩ <;> rw [hrun] at h <;> simp only [Rule.named, hrun]
  · exact h
  · exact h
  · exact ⟨h.1.note h.2, h.2⟩

lemma Blames.convert {r : Rule α} (hr : r.Blames P) {f : α → Except Fault β}
    (hf : ∀ ⦃c a c'⦄, r.run c = (.found a, c') → c.Within P → Fault.At P (f a)) : (convert f r).Blames P := by
  intro c hc
  have h := hr c hc
  rcases hrun : r.run c with ⟨_ | a | e, d⟩ <;> rw [hrun] at h <;> simp only [Rule.convert, hrun]
  · exact h
  · have hfa := hf hrun hc
    rcases hfa' : f a with e | b <;> rw [hfa'] at hfa <;> exact ⟨h.1, hfa⟩
  · exact h

end Rule

namespace Tail

lemma need_blames {r : Rule α} (hr : r.Blames P) (expected : String) {c : Cursor} (hc : c.Within P) :
    (need expected r c).2.Within P ∧ Fault.At P (need expected r c).1 := by
  have h := hr c hc
  rcases hrun : r.run c with ⟨_ | a | e, d⟩ <;> rw [hrun] at h <;> simp only [need, hrun]
  · exact ⟨h.1, h.1.pos⟩
  · exact h
  · exact h

lemma last_blames {r : Rule α} (hr : r.Blames P) : (last r).Blames P :=
  fun _ hc => need_blames hr _ hc

lemma Blames.cons {r : Rule α} {t : Tail β} (hr : r.Blames P) (ht : t.Blames P) : (cons r t).Blames P := by
  intro c hc
  have h := need_blames hr (r.text ++ " " ++ t.text) hc
  rcases hrun : need (r.text ++ " " ++ t.text) r c with ⟨e | a, d⟩ <;> rw [hrun] at h <;>
    simp only [Tail.cons, hrun]
  · exact h
  · have h' := ht d h.1
    rcases hrun' : t.run d with ⟨e | b, d'⟩ <;> rw [hrun'] at h' <;> exact h'

end Tail

section Grammar

open Rule Tail

lemma literal_blames (s : String) : (literal s).Blames P :=
  token_blames _ _

lemma name_blames : name.Blames P :=
  (token_blames _ _).map _

lemma param_blames : param.Blames P :=
  ((name_blames.seq (.cons (literal_blames _) (last_blames name_blames))).named _).map _

lemma target_blames : target.Blames P :=
  ((name_blames.seq (.cons (literal_blames _) (.cons name_blames (last_blames (literal_blames _))))).named _).map _

lemma rawOperand_blames : rawOperand.Blames P := by
  have hmarked (s : String) : ((literal s).seq (.last name)).Blames P :=
    (literal_blames s).seq (last_blames name_blames)
  exact choice_blames ⟨(hmarked "@").map _, (hmarked ".").map _, (token_blames _ _).map _,
    Blames.group (choice_blames ⟨(literal_blames _).map _, (literal_blames _).map _⟩), name_blames.map _⟩

lemma operand_blames : operand.Blames P := by
  refine (rawOperand_blames.named _).convert fun c ⟨raw, q⟩ c' hrun hc => ?_
  obtain ⟨hraw, _⟩ := named_found.1 hrun
  obtain ⟨w, hw, hd⟩ := rawOperand_sound.found c raw c' hraw
  cases hd with
  | func | label | bool | arg => trivial
  | @int l _ =>
    -- An integer is blamed on the end of the token before it.
    have hlead := (hc.lexemes l (by simp [hw])).2
    simp only [RawOperand.read]
    split
    · trivial
    · exact hlead

lemma instr_blames : instr.Blames P :=
  ((target_blames.opt.seq (.cons name_blames (.cons operand_blames.many
    (last_blames (literal_blames _))))).named _).map _

lemma label_blames : label.Blames P :=
  (((literal_blames _).seq (.cons name_blames (last_blames (literal_blames _)))).named _).map _

lemma item_blames : item.Blames P := by
  have hchoice : (choice [label.map Item.label, instr.map Item.instr]).Blames P :=
    choice_blames ⟨label_blames.map _, instr_blames.map _⟩
  exact (hchoice.named _).map _

lemma params_blames : params.Blames P := by
  have hnext : (group ((literal ",").seq (.last param))).Blames P :=
    ((literal_blames _).seq (last_blames param_blames)).group
  exact (((literal_blames _).seq (.cons (param_blames.seq (last_blames hnext.many)).group.opt
    (last_blames (literal_blames _)))).group.opt).map _

lemma resultType_blames : resultType.Blames P :=
  (((literal_blames _).seq (last_blames name_blames)).group.opt).map _

lemma func_blames : func.Blames P :=
  (((literal_blames _).seq (.cons name_blames (.cons params_blames (.cons resultType_blames
    (.cons (literal_blames _) (.cons item_blames.many (last_blames (literal_blames _)))))))).named _).map _

lemma program_blames : program.Blames P :=
  func_blames.many

end Grammar

lemma readAll_blames {ls : List Lexeme} {stop : Position} {e : Fault} (hls : ∀ l ∈ ls, P l.token.start ∧ P l.lead)
    (hstop : P stop) (h : readAll ls stop = .error e) : P e.pos := by
  have hfinish {fs : List Func} {c : Cursor} (hc : c.Within P) (hf : readAll.finish fs c = .error e) : P e.pos := by
    unfold readAll.finish at hf
    split at hf
    · cases hf
    · split at hf
      · cases hf
        exact hc.pos
      · rename_i e' he'
        cases hf
        split
        · exact hc.pos
        · exact hc.blame e' he'
  have hstart : Cursor.Within P { passed := 0, rest := ls, stop } := ⟨hls, hstop, by simp⟩
  have hrun := program_blames _ hstart
  unfold readAll at h
  split at h <;> rename_i hprogram <;> rw [hprogram] at hrun
  · cases h
    exact hrun.2
  · exact hfinish hrun.1 h
  · exact hfinish hrun.1 h

lemma lead_of_mem_lexemesFrom {lead : Option Position} {ts : List Token} {l : Lexeme}
    (h : l ∈ lexemesFrom lead ts) : lead = some l.lead ∨ ∃ t ∈ ts, l.lead = t.start := by
  have hgetD (t : Token) : lead = some (lead.getD t.start) ∨ lead.getD t.start = t.start := by
    cases lead <;> simp
  induction ts generalizing lead with
  | nil => cases h
  | cons t ts ih =>
    unfold lexemesFrom at h
    split at h
    · rcases ih h (by simp) with hl | ⟨u, hu, hl⟩
      · rcases hgetD t with hlead | hlead
        · exact .inl (hlead.trans hl)
        · exact .inr ⟨t, List.mem_cons_self, by rw [← hlead, Option.some.inj hl]⟩
      · exact .inr ⟨u, List.mem_cons_of_mem t hu, hl⟩
    · rcases List.mem_cons.1 h with rfl | h
      · exact (hgetD t).imp_right fun hlead => ⟨t, List.mem_cons_self, hlead⟩
      · obtain ⟨u, hu, hl⟩ := (ih h (by simp)).resolve_left (by simp)
        exact .inr ⟨u, List.mem_cons_of_mem t hu, hl⟩

lemma parse_fails_inside {file source : String} {e : SourceFailure} (h : parse file source = .error e) :
    ∃ p, Inside source p ∧ e.place = p.inFile file := by
  unfold parse at h
  dsimp only at h
  split at h
  · obtain ⟨fault, hfault, rfl⟩ := mapError_eq_error.1 h
    refine ⟨fault.pos, readAll_blames (fun l hl => ⟨?_, ?_⟩) (inside_stop source) hfault, rfl⟩
    · exact inside_start (token_of_mem_lexemes hl).1
    · obtain ⟨t, ht, hlead⟩ := (lead_of_mem_lexemesFrom hl).resolve_left (by simp)
      exact hlead ▸ inside_start ht
  · cases h
    exact ⟨_, inside_stop source, rfl⟩

lemma IsOperand.pos {w : List Lexeme} {o : Operand} (h : IsOperand w o) : ∃ l ∈ w, o.pos = l.token.start := by
  cases h <;> exact ⟨_, List.mem_cons_self, rfl⟩

lemma IsInstr.exists_operands {w : List Lexeme} {i : Instr} (h : IsInstr w i) :
    ∃ v, Many IsOperand v i.operands ∧ v ⊆ w := by
  cases h with
  | plain _ hv _ => exact ⟨_, hv, fun l hl => by simp [hl]⟩
  | targeted _ _ hv _ => exact ⟨_, hv, fun l hl => by simp [hl]⟩

lemma operand_inside {file source : String} {l : Listing} (h : parse file source = .ok l) {f : Func}
    (hf : f ∈ l.funcs) {i : Instr} (hi : .instr i ∈ f.body) {o : Operand} (ho : o ∈ i.operands) :
    Inside source o.pos := by
  obtain ⟨u, ⟨_, _, _, _, _, hbody, _⟩, hu⟩ := (parse_ok h).exists_of_mem hf
  obtain ⟨v, hitem, hv⟩ := hbody.exists_of_mem hi
  cases hitem with
  | instr hinstr =>
    obtain ⟨w, hoperands, hw⟩ := hinstr.exists_operands
    obtain ⟨x, hx, hxw⟩ := hoperands.exists_of_mem ho
    obtain ⟨m, hm, hpos⟩ := hx.pos
    have hmem : m ∈ lexemes (scan source).tokens := hu.subset (by simp [hv.subset (hw (hxw.subset hm))])
    exact hpos ▸ inside_start (token_of_mem_lexemes hmem).1

lemma toTree_eq_error {file : String} {l : Listing} {e : SourceFailure} (h : l.toTree file = .error e) :
    ∃ f ∈ l.funcs, ∃ i, .instr i ∈ f.body ∧ ∃ o ∈ i.operands, e.place = o.pos.inFile file := by
  have hbind {α β : Type} {x : Except SourceFailure α} {g : α → β} (h : (x >>= fun a => .ok (g a)) = .error e) :
      x = .error e := (bind_eq_error.1 h).resolve_right (by simp)
  obtain ⟨f, hf, hfail⟩ := exists_of_mapM_eq_error (hbind h)
  obtain ⟨_ | i, hi, hfail⟩ := exists_of_mapM_eq_error (hbind hfail)
  · cases hfail
  · have hvalue := hbind hfail
    refine ⟨f, hf, i, hi, ?_⟩
    rcases hlits : i.operands.filterMap Operand.literal? with _ | ⟨a, _ | ⟨⟨v, p⟩, rest⟩⟩ <;> rw [hlits] at hvalue
    · cases hvalue
    · cases hvalue
    · cases hvalue
      have hmem : (v, p) ∈ i.operands.filterMap Operand.literal? := by simp [hlits]
      obtain ⟨o, ho, hlit⟩ := List.mem_filterMap.1 hmem
      have hpos : o.pos = p := by
        unfold Operand.literal? at hlit
        split at hlit <;> cases hlit <;> rfl
      exact ⟨o, ho, congrArg (Position.inFile · file) hpos.symm⟩

lemma lower_fails_inside {file source : String} {e : SourceFailure}
    (h : (parse file source >>= toTree file) = .error e) : ∃ p, Inside source p ∧ e.place = p.inFile file := by
  rcases bind_eq_error.1 h with hparse | ⟨l, hparse, hlower⟩
  · exact parse_fails_inside hparse
  · obtain ⟨f, hf, i, hi, o, ho, hplace⟩ := toTree_eq_error hlower
    exact ⟨o.pos, operand_inside hparse hf hi ho, hplace⟩

end BlockIR.Listing
