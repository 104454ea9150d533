import BlockIR.Proofs.Listing.Phrase

namespace BlockIR.Listing.Phrase

abbrev literal (s : String) : Phrase :=
  .terminal (.literal s)

abbrev int : Phrase :=
  .terminal (.kind .int)

abbrev ident : Phrase :=
  .terminal (.kind .ident)

abbrev param : Phrase :=
  ident.seq ((literal ":").seq ident)

abbrev target : Phrase :=
  ident.seq ((literal ":").seq (ident.seq (literal "=")))

abbrev truth : Phrase :=
  (literal "true").alt (literal "false")

abbrev operand : Phrase :=
  ((literal "@").seq ident).alt (((literal ".").seq ident).alt (int.alt (truth.alt ident)))

abbrev instruction : Phrase :=
  target.opt.seq (ident.seq (operand.many.seq (literal ";")))

abbrev label : Phrase :=
  (literal ".").seq (ident.seq (literal ":"))

abbrev bodyItem : Phrase :=
  label.alt instruction

abbrev params : Phrase :=
  ((literal "(").seq ((param.seq ((literal ",").seq param).many).opt.seq (literal ")"))).opt

abbrev resultType : Phrase :=
  ((literal ":").seq ident).opt

abbrev function : Phrase :=
  (literal "@").seq (ident.seq (params.seq (resultType.seq
    ((literal "\x7b").seq (bodyItem.many.seq (literal "\x7d"))))))

abbrev program : Phrase :=
  function.many

def arg? : operand.Derivation → Option Token
  | .inr (.inr (.inr (.inr t))) => some t.1
  | _ => none

def TruthFirst (o : operand.Derivation) : Prop :=
  ∀ t ∈ arg? o, t.text ≠ "true" ∧ t.text ≠ "false"

def instrOperands (d : instruction.Derivation) : List operand.Derivation :=
  d.2.2.1

def itemOperands : bodyItem.Derivation → List operand.Derivation
  | .inl _ => []
  | .inr i => instrOperands i

def funcOperands : function.Derivation → List operand.Derivation
  | (_, _, _, _, _, body, _) => body.flatMap itemOperands

def operands (d : program.Derivation) : List operand.Derivation :=
  d.flatMap funcOperands

variable {gs : List Terminal}

lemma ident_determined : ident.Determined (fun _ => True) gs :=
  .terminal _ _

lemma literal_determined (s : String) : (literal s).Determined (fun _ => True) gs :=
  .terminal _ _

lemma param_determined : param.Determined (fun _ => True) gs :=
  (ident_determined.seq ((literal_determined _).seq ident_determined)).imp (by simp)

lemma target_determined : target.Determined (fun _ => True) gs :=
  (ident_determined.seq ((literal_determined _).seq (ident_determined.seq (literal_determined _)))).imp (by simp)

lemma label_determined : label.Determined (fun _ => True) gs :=
  ((literal_determined _).seq (ident_determined.seq (literal_determined _))).imp (by simp)

lemma operand_determined : operand.Determined TruthFirst gs := by
  have hmarked (s : String) : ((literal s).seq ident).Determined (fun _ => True) gs :=
    ((literal_determined s).seq ident_determined).imp (by simp)
  have htruth : truth.Determined (fun _ => True) gs :=
    ((literal_determined _).alt_of_exclusive (literal_determined _) rfl rfl (by decide)).imp (by simp)
  have harg : ident.Determined (fun t => t.1.text ≠ "true" ∧ t.1.text ≠ "false") gs := .terminal _ _
  have hword : (truth.alt ident).Determined
      (fun d => d.elim (fun _ => True) fun t => t.1.text ≠ "true" ∧ t.1.text ≠ "false") gs := by
    refine htruth.alt harg ?_
    rintro (⟨t, ht⟩ | ⟨t, ht⟩) ⟨u, _⟩ r r' _ hu _ h
    · cases (List.cons.inj h).1
      exact hu.1 ht
    · cases (List.cons.inj h).1
      exact hu.2 ht
  refine ((hmarked "@").alt_of_exclusive ((hmarked ".").alt_of_exclusive ((Determined.terminal (.kind .int)
    fun _ => True).alt_of_exclusive hword rfl rfl (by decide)) rfl rfl (by decide)) rfl rfl (by decide)).imp ?_
  rintro (_ | _ | _ | _ | t) h
  · trivial
  · trivial
  · trivial
  · trivial
  · exact h t.1 rfl

lemma operands_determined :
    operand.many.Determined (fun xs => ∀ o ∈ xs, TruthFirst o) [.literal ";"] :=
  operand_determined.many rfl (by decide)

lemma target_append_ne {t : target.Derivation} {d : (ident.seq (operand.many.seq (literal ";"))).Derivation}
    {r r' : List Token} (hw : ∀ u ∈ target.yield t ++ r, u.Whole) :
    target.yield t ++ r ≠ (ident.seq (operand.many.seq (literal ";"))).yield d ++ r' := by
  obtain ⟨x, c, y, e⟩ := t
  obtain ⟨op, xs, s⟩ := d
  intro h
  have hcolon : Leads [.literal ":"] (c.1 :: y.1 :: e.1 :: r) := by
    rintro u ⟨⟩
    exact ⟨_, List.mem_singleton_self _, c.2⟩
  have hrest : Leads (operand.many.firstBefore [.literal ";"]) (operand.many.yield xs ++ ([s.1] ++ r')) := by
    refine leads_yield_append xs ?_
    rintro u ⟨⟩
    exact ⟨_, List.mem_singleton_self _, s.2⟩
  have htail : c.1 :: y.1 :: e.1 :: r = operand.many.yield xs ++ [s.1] ++ r' := (List.cons.inj h).2
  rw [← List.append_assoc, ← htail] at hrest
  exact hcolon.not_leads (by decide) (by simp) (List.forall_mem_cons.1 hw).2 hrest

lemma instruction_determined :
    instruction.Determined (fun d => ∀ o ∈ instrOperands d, TruthFirst o) gs := by
  have hrest : (ident.seq (operand.many.seq (literal ";"))).Determined (fun d => ∀ o ∈ d.2.1, TruthFirst o) gs :=
    (ident_determined.seq (operands_determined.seq (literal_determined _))).imp (by simp)
  refine (target_determined.opt_seq hrest fun _ _ _ _ _ _ => target_append_ne).imp fun d hd => ?_
  exact ⟨fun _ _ => trivial, hd⟩

lemma bodyItem_determined :
    bodyItem.Determined (fun d => ∀ o ∈ itemOperands d, TruthFirst o) gs := by
  refine (label_determined.alt_of_exclusive instruction_determined rfl rfl (by decide)).imp ?_
  rintro (_ | i) h
  · trivial
  · exact h

lemma params_determined : params.Determined (fun _ => True) [.literal ":", .literal "\x7b"] := by
  have hnext : ((literal ",").seq param).many.Determined (fun _ => True) [.literal ")"] :=
    (((literal_determined _).seq param_determined).many rfl (by decide)).imp (by simp)
  have hlist : (param.seq ((literal ",").seq param).many).opt.Determined (fun _ => True) [.literal ")"] :=
    ((param_determined.seq hnext).opt rfl (by decide)).imp (by simp)
  exact (((literal_determined _).seq (hlist.seq (literal_determined _))).opt rfl (by decide)).imp (by simp)

lemma resultType_determined : resultType.Determined (fun _ => True) [.literal "\x7b"] :=
  (((literal_determined _).seq ident_determined).opt rfl (by decide)).imp (by simp)

lemma function_determined :
    function.Determined (fun d => ∀ o ∈ funcOperands d, TruthFirst o) gs := by
  have hbody : bodyItem.many.Determined (fun d => ∀ i ∈ d, ∀ o ∈ itemOperands i, TruthFirst o)
      [.literal "\x7d"] := bodyItem_determined.many rfl (by decide)
  refine .imp (.seq (literal_determined _) (.seq ident_determined (.seq params_determined
    (.seq resultType_determined (.seq (literal_determined _) (.seq hbody (literal_determined _))))))) ?_
  rintro ⟨_, _, _, _, _, body, _⟩ h
  exact ⟨trivial, trivial, trivial, trivial, trivial, List.forall_mem_flatMap.1 h, trivial⟩

lemma program_unambiguous {d d' : program.Derivation} (hd : ∀ o ∈ operands d, TruthFirst o)
    (hd' : ∀ o ∈ operands d', TruthFirst o) (hw : ∀ t ∈ program.yield d, t.Whole)
    (h : program.yield d = program.yield d') : d = d' := by
  have hall : program.Determined (fun d => ∀ f ∈ d, ∀ o ∈ funcOperands f, TruthFirst o) [] :=
    function_determined.many rfl rfl
  have hnone : Leads [] [] := by simp [Leads]
  exact (hall (List.forall_mem_flatMap.1 hd) (List.forall_mem_flatMap.1 hd') hnone hnone (by simpa using hw)
    (by simpa using h)).1

end BlockIR.Listing.Phrase
