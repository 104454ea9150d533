import BlockIR.Listing.Grammar
import BlockIR.Proofs.Listing.Rule

/-! The language of listings as relations between words of tokens and what they stand for, and the rules
of the grammar read against it: a rule finds nothing but words of its language. -/

namespace BlockIR

namespace Listing

def IsName (l : Lexeme) (x : Name) : Prop :=
  l.token.kind = .ident ∧ x = ⟨.plain l.token.text, l.token.start⟩

lemma IsName.pos {l : Lexeme} {x : Name} (h : IsName l x) : x.pos = l.token.start := by
  rw [h.2]

inductive IsParam : List Lexeme → Param → Prop
  | mk {l m n : Lexeme} {x t : Name} : IsName l x → m.token.text = ":" → IsName n t →
      IsParam [l, m, n] ⟨x, t⟩

inductive IsNextParam : List Lexeme → Param → Prop
  | mk {l : Lexeme} {w : List Lexeme} {p : Param} : l.token.text = "," → IsParam w p →
      IsNextParam (l :: w) p

inductive IsParams : List Lexeme → List Param → Prop
  | none : IsParams [] []
  | empty {l r : Lexeme} : l.token.text = "(" → r.token.text = ")" → IsParams [l, r] []
  | some {l r : Lexeme} {w v : List Lexeme} {p : Param} {ps : List Param} : l.token.text = "(" →
      IsParam w p → Many IsNextParam v ps → r.token.text = ")" →
      IsParams (l :: (w ++ v) ++ [r]) (p :: ps)

inductive IsType : List Lexeme → Option Name → Prop
  | none : IsType [] none
  | some {l m : Lexeme} {t : Name} : l.token.text = ":" → IsName m t → IsType [l, m] (some t)

inductive IsTarget : List Lexeme → Target → Prop
  | mk {l m n k : Lexeme} {x t : Name} : IsName l x → m.token.text = ":" → IsName n t →
      k.token.text = "=" → IsTarget [l, m, n, k] ⟨x, t⟩

/-- An integer must be readable, and the words for truth values are no arguments. -/
inductive IsOperand : List Lexeme → Operand → Prop
  | func {l m : Lexeme} {x : Name} : l.token.text = "@" → IsName m x →
      IsOperand [l, m] ⟨.func x, l.token.start⟩
  | label {l m : Lexeme} {x : Name} : l.token.text = "." → IsName m x →
      IsOperand [l, m] ⟨.label x, l.token.start⟩
  | int {l : Lexeme} {n : Int64} : l.token.kind = .int →
      Decimal.readPrefixedInt64 l.token.text = .ok n → IsOperand [l] ⟨.int n, l.token.start⟩
  | bool {l : Lexeme} (b : Bool) : l.token.text = (if b then "true" else "false") →
      IsOperand [l] ⟨.bool b, l.token.start⟩
  | arg {l : Lexeme} {x : Name} : IsName l x → l.token.text ≠ "true" → l.token.text ≠ "false" →
      IsOperand [l] ⟨.arg x, l.token.start⟩

inductive IsInstr : List Lexeme → Instr → Prop
  | plain {l s : Lexeme} {w : List Lexeme} {op : Name} {xs : List Operand} : IsName l op →
      Many IsOperand w xs → s.token.text = ";" → IsInstr (l :: w ++ [s]) ⟨none, op, xs, op.pos⟩
  | targeted {l s : Lexeme} {v w : List Lexeme} {t : Target} {op : Name} {xs : List Operand} :
      IsTarget v t → IsName l op → Many IsOperand w xs → s.token.text = ";" →
      IsInstr (v ++ (l :: w ++ [s])) ⟨some t, op, xs, t.dest.pos⟩

inductive IsLabel : List Lexeme → Label → Prop
  | mk {l m n : Lexeme} {x : Name} : l.token.text = "." → IsName m x → n.token.text = ":" →
      IsLabel [l, m, n] ⟨x, l.token.start⟩

inductive IsItem : List Lexeme → Item → Prop
  | label {w : List Lexeme} {x : Label} : IsLabel w x → IsItem w (.label x)
  | instr {w : List Lexeme} {i : Instr} : IsInstr w i → IsItem w (.instr i)

inductive IsFunc : List Lexeme → Func → Prop
  | mk {l m b e : Lexeme} {u v w : List Lexeme} {x : Name} {ps : List Param} {t : Option Name}
      {body : List Item} : l.token.text = "@" → IsName m x → IsParams u ps → IsType v t →
      b.token.text = "\x7b" → Many IsItem w body → e.token.text = "\x7d" →
      IsFunc (l :: m :: (u ++ (v ++ (b :: (w ++ [e]))))) ⟨x, ps, t, body, l.token.start⟩

lemma Many.map {α β : Type} {D : List Lexeme → α → Prop} {E : List Lexeme → β → Prop} (f : α → β)
    (hf : ∀ w a, D w a → E w (f a)) {w : List Lexeme} {as : List α} (h : Many D w as) :
    Many E w (as.map f) := by
  induction h with
  | nil => exact .nil
  | cons hd _ ih => exact .cons (hf _ _ hd) ih

open Rule

lemma literal_sound (s : String) : (literal s).Sound fun w l => w = [l] ∧ l.token.text = s :=
  (token_sound _ _).imp fun _ _ h => ⟨h.1, by simpa using h.2⟩

lemma name_sound : name.Sound fun w x => ∃ l, w = [l] ∧ IsName l x := by
  refine ((token_sound _ _).map _).imp ?_
  rintro _ _ ⟨l, ⟨rfl, hk⟩, rfl⟩
  exact ⟨l, rfl, by simpa using hk, rfl⟩

lemma param_sound : param.Sound IsParam := by
  refine (((name_sound.seq (.cons (literal_sound _) (Tail.sound_last name_sound))).named _).map _).imp ?_
  rintro _ _ ⟨⟨⟨x, m, t⟩, _⟩, ⟨⟨_, _, rfl, ⟨l, rfl, hl⟩, _, _, rfl, ⟨rfl, hm⟩, n, rfl, hn⟩, _⟩, rfl⟩
  exact .mk hl hm hn

lemma target_sound : target.Sound IsTarget := by
  refine (((name_sound.seq (.cons (literal_sound _) (.cons name_sound
    (Tail.sound_last (literal_sound _))))).named _).map _).imp ?_
  rintro _ _ ⟨⟨⟨x, m, t, k⟩, _⟩, ⟨⟨_, _, rfl, ⟨l, rfl, hl⟩, _, _, rfl, ⟨rfl, hm⟩, _, _, rfl, ⟨n, rfl, hn⟩,
    rfl, hk⟩, _⟩, rfl⟩
  exact .mk hl hm hn hk

lemma label_sound : label.Sound IsLabel := by
  refine ((((literal_sound _).seq (.cons name_sound (Tail.sound_last (literal_sound _)))).named _).map _).imp ?_
  rintro _ _ ⟨⟨⟨l, x, n⟩, q⟩, ⟨⟨_, _, rfl, ⟨rfl, hl⟩, _, _, rfl, ⟨m, rfl, hm⟩, rfl, hn⟩, hq⟩, rfl⟩
  obtain rfl := hq l _ rfl
  exact .mk hl hm hn

inductive IsRawOperand : List Lexeme → RawOperand → Prop
  | func {l m : Lexeme} {x : Name} : l.token.text = "@" → IsName m x → IsRawOperand [l, m] (.func x)
  | label {l m : Lexeme} {x : Name} : l.token.text = "." → IsName m x → IsRawOperand [l, m] (.label x)
  | int {l : Lexeme} : l.token.kind = .int → IsRawOperand [l] (.int l)
  | bool {l : Lexeme} (b : Bool) : l.token.text = (if b then "true" else "false") →
      IsRawOperand [l] (.bool b)
  | arg {l : Lexeme} {x : Name} : IsName l x → IsRawOperand [l] (.arg x)

lemma rawOperand_sound : rawOperand.Sound IsRawOperand := by
  refine choice_sound ⟨?_, ?_, ?_, ?_, ?_⟩
  · refine (((literal_sound _).seq (Tail.sound_last name_sound)).map _).imp ?_
    rintro _ _ ⟨⟨l, x⟩, ⟨_, _, rfl, ⟨rfl, hl⟩, m, rfl, hm⟩, rfl⟩
    exact .func hl hm
  · refine (((literal_sound _).seq (Tail.sound_last name_sound)).map _).imp ?_
    rintro _ _ ⟨⟨l, x⟩, ⟨_, _, rfl, ⟨rfl, hl⟩, m, rfl, hm⟩, rfl⟩
    exact .label hl hm
  · refine ((token_sound _ _).map _).imp ?_
    rintro _ _ ⟨l, ⟨rfl, hl⟩, rfl⟩
    exact .int (by simpa using hl)
  · refine Sound.group (choice_sound ⟨?_, ?_⟩)
    · refine ((literal_sound _).map _).imp ?_
      rintro _ _ ⟨l, ⟨rfl, hl⟩, rfl⟩
      exact .bool true hl
    · refine ((literal_sound _).map _).imp ?_
      rintro _ _ ⟨l, ⟨rfl, hl⟩, rfl⟩
      exact .bool false hl
  · refine (name_sound.map _).imp ?_
    rintro _ _ ⟨x, ⟨l, rfl, hl⟩, rfl⟩
    exact .arg hl

lemma literal_finds {s : String} {l : Lexeme} (h : l.token.text = s) {rest : List Lexeme} :
    (literal s).Finds [l] l rest :=
  token_finds (by simpa using h)

lemma literal_misses {s : String} {rest : List Lexeme} (h : ∀ l ∈ rest.head?, l.token.text ≠ s) :
    (literal s).Misses rest :=
  token_misses fun l hl => by simpa using h l hl

lemma ofKind_misses {k : TokenKind} {rest : List Lexeme} (h : ∀ l ∈ rest.head?, l.token.kind ≠ k) :
    (ofKind k).Misses rest :=
  token_misses fun l hl => by simpa using h l hl

lemma name_finds {l : Lexeme} {x : Name} (h : IsName l x) {rest : List Lexeme} : name.Finds [l] x rest := by
  obtain ⟨hk, rfl⟩ := h
  exact (token_finds (by simpa using hk)).map _

lemma name_misses {rest : List Lexeme} (h : ∀ l ∈ rest.head?, l.token.kind ≠ .ident) : name.Misses rest :=
  (ofKind_misses h).map _

lemma rawOperand_finds_bool {l : Lexeme} (hk : l.token.kind = .ident) (b : Bool)
    (h : l.token.text = (if b then "true" else "false")) {rest : List Lexeme} :
    rawOperand.Finds [l] (.bool b) rest := by
  have hne : l.token.text ≠ "@" ∧ l.token.text ≠ "." := by
    rw [h]
    cases b <;> decide
  have hb : (group (choice [(literal "true").map fun _ => RawOperand.bool true,
      (literal "false").map fun _ => RawOperand.bool false])).Finds [l] (.bool b) rest := by
    refine Finds.group ?_
    cases b with
    | true => exact choice_finds [] _ trivial ((literal_finds h).map _)
    | false => exact choice_finds [_] [] ((literal_misses (by simp [h])).map _) ((literal_finds h).map _)
  refine choice_finds [_, _, _] [_] ⟨((literal_misses ?_).seq _).map _, ((literal_misses ?_).seq _).map _,
    (ofKind_misses ?_).map _⟩ hb
  · simpa using hne.1
  · simpa using hne.2
  · simp [hk]

lemma rawOperand_found_arg {c c' : Cursor} {x : Name} (h : rawOperand.run c = (.found (.arg x), c'))
    {l : Lexeme} (hc : c.rest = [l] ++ c'.rest) (hk : l.token.kind = .ident) (b : Bool) :
    l.token.text ≠ (if b then "true" else "false") := by
  -- Words for truth values are tried before names.
  intro ht
  obtain ⟨d, hd, _⟩ := rawOperand_finds_bool hk b ht c hc
  simp [h] at hd

lemma operand_sound : operand.Sound IsOperand := by
  refine ⟨fun c o c' h => ?_, fun c c' h => (rawOperand_sound.named _).absent c c' (convert_absent.1 h)⟩
  obtain ⟨⟨raw, q⟩, hr, hf⟩ := convert_found.1 h
  obtain ⟨hraw, hq⟩ := named_found.1 hr
  obtain ⟨w, hw, hd⟩ := rawOperand_sound.found c raw c' hraw
  refine ⟨w, hw, ?_⟩
  have hstart {l : Lexeme} {ls : List Lexeme} (hl : w = l :: ls) : q = l.token.start :=
    hq.trans (Cursor.pos_of_rest (by rw [hw, hl]; rfl))
  cases hd with
  | func hl hm =>
    obtain rfl := hstart rfl
    cases hf
    exact .func hl hm
  | label hl hm =>
    obtain rfl := hstart rfl
    cases hf
    exact .label hl hm
  | @int l hl =>
    obtain rfl := hstart rfl
    simp only [RawOperand.read] at hf
    split at hf
    · rename_i n hn
      cases hf
      exact .int hl hn
    · cases hf
  | bool b hl =>
    obtain rfl := hstart rfl
    cases hf
    exact .bool b hl
  | arg hl =>
    obtain rfl := hstart rfl
    cases hf
    have hne := rawOperand_found_arg hraw hw hl.1
    exact .arg hl (hne true) (hne false)

lemma instr_sound : instr.Sound IsInstr := by
  refine (((target_sound.opt.seq (.cons name_sound (.cons operand_sound.many
    (Tail.sound_last (literal_sound _))))).named _).map _).imp ?_
  rintro _ _ ⟨⟨⟨t, op, xs, s⟩, q⟩, ⟨⟨v, _, rfl, ht, _, _, rfl, ⟨l, rfl, hl⟩, w, _, rfl, hw, rfl, hs⟩, hq⟩, rfl⟩
  rcases ht with ⟨rfl, ht⟩ | ⟨t', ht, hv⟩
  · obtain rfl : t = none := ht
    have hq : q = op.pos := (hq l _ rfl).trans hl.pos.symm
    subst hq
    exact .plain hl hw hs
  · obtain rfl : t = some t' := ht
    have hq : q = t'.dest.pos := by
      obtain ⟨hx, _, _, _⟩ := hv
      exact (hq _ _ rfl).trans hx.pos.symm
    subst hq
    exact .targeted hv hl hw hs

lemma item_sound : item.Sound IsItem := by
  have hc : (choice [label.map Item.label, instr.map Item.instr]).Sound IsItem := by
    refine choice_sound ⟨?_, ?_⟩
    · refine (label_sound.map _).imp ?_
      rintro _ _ ⟨x, hx, rfl⟩
      exact .label hx
    · refine (instr_sound.map _).imp ?_
      rintro _ _ ⟨i, hi, rfl⟩
      exact .instr hi
  refine ((hc.named _).map _).imp ?_
  rintro _ _ ⟨⟨i, _⟩, ⟨hi, _⟩, rfl⟩
  exact hi

lemma params_sound : params.Sound IsParams := by
  have hnext : (group ((literal ",").seq (.last param))).Sound fun w p => IsNextParam w p.2 := by
    refine ((literal_sound _).seq (Tail.sound_last param_sound)).group.imp ?_
    rintro _ ⟨l, p⟩ ⟨_, _, rfl, ⟨rfl, hl⟩, hp⟩
    exact .mk hl hp
  refine ((((literal_sound _).seq (.cons (param_sound.seq (Tail.sound_last hnext.many)).group.opt
    (Tail.sound_last (literal_sound _)))).group.opt).map _).imp ?_
  rintro _ _ ⟨o, ⟨rfl, rfl⟩ | ⟨⟨l, o', r⟩, rfl, _, _, rfl, ⟨rfl, hl⟩, _, _, rfl, ho, rfl, hr⟩, rfl⟩
  · exact .none
  · rcases ho with ⟨rfl, ho⟩ | ⟨⟨p, ps⟩, ho, _, _, rfl, hp, hps⟩
    · obtain rfl : o' = none := ho
      exact .empty hl hr
    · obtain rfl : o' = some (p, ps) := ho
      exact .some hl hp (hps.map Prod.snd fun _ _ h => h) hr

lemma resultType_sound : resultType.Sound IsType := by
  refine ((((literal_sound _).seq (Tail.sound_last name_sound)).group.opt).map _).imp ?_
  rintro _ _ ⟨o, ⟨rfl, rfl⟩ | ⟨⟨l, t⟩, rfl, _, _, rfl, ⟨rfl, hl⟩, m, rfl, hm⟩, rfl⟩
  · exact .none
  · exact .some hl hm

lemma func_sound : func.Sound IsFunc := by
  refine ((((literal_sound _).seq (.cons name_sound (.cons params_sound (.cons resultType_sound
    (.cons (literal_sound _) (.cons item_sound.many
      (Tail.sound_last (literal_sound _)))))))).named _).map _).imp ?_
  rintro _ _ ⟨⟨⟨l, x, ps, t, b, body, e⟩, q⟩, ⟨⟨_, _, rfl, ⟨rfl, hl⟩, _, _, rfl, ⟨m, rfl, hm⟩, u, _, rfl, hu,
    v, _, rfl, hv, _, _, rfl, ⟨rfl, hb⟩, w, _, rfl, hw, rfl, he⟩, hq⟩, rfl⟩
  obtain rfl := hq l _ rfl
  exact .mk hl hm hu hv hb hw he

lemma readAll_sound {ls : List Lexeme} {stop : Position} {l : Listing} (h : readAll ls stop = .ok l) :
    Many IsFunc ls l.funcs := by
  have hfinish {fs : List Func} {c : Cursor} (hf : readAll.finish fs c = .ok l) : c.rest = [] ∧ l = ⟨fs⟩ := by
    unfold readAll.finish at hf
    split at hf
    · rename_i hc
      cases hf
      exact ⟨List.isEmpty_iff.1 hc, rfl⟩
    · split at hf <;> cases hf
  unfold readAll at h
  split at h
  · cases h
  · rename_i c hc
    exact (manyFrom_ne_absent hc).elim
  · rename_i fs c hc
    obtain ⟨hrest, rfl⟩ := hfinish h
    obtain ⟨w, hw, hd⟩ := func_sound.many.found _ _ _ hc
    simp only [hrest, List.append_nil] at hw
    exact hw ▸ hd

end Listing

end BlockIR
