import BlockIR.Listing.Render
import BlockIR.Proofs.Listing.Lexing
import BlockIR.Proofs.Number.Decimal

namespace BlockIR

def Text.isIdent : Text → Bool
  | .plain s =>
    match s.toList with
    | [] => false
    | c :: cs => Listing.isIdentStart c && cs.all Listing.isIdentRest
  | .broken _ _ => false

lemma Text.isIdent_iff {t : Text} : t.isIdent = true ↔ ∃ s, t = .plain s ∧ ∃ c cs, s.toList = c :: cs ∧
    Listing.isIdentStart c = true ∧ ∀ d ∈ cs, Listing.isIdentRest d = true := by
  cases t with
  | plain s => rcases h : s.toList with _ | ⟨c, cs⟩ <;> simp [isIdent, h]
  | broken bs hb => simp [isIdent]

namespace Listing

def Name.Writable (x : Name) : Prop :=
  x.text.isIdent = true

def Param.Writable (p : Param) : Prop :=
  p.name.Writable ∧ p.type.Writable

def OperandValue.Writable : OperandValue → Prop
  | func x | label x => x.Writable
  | arg x => x.Writable ∧ x.text ≠ "true" ∧ x.text ≠ "false"
  | int _ | bool _ => True

def Target.Writable (t : Target) : Prop :=
  t.dest.Writable ∧ t.type.Writable

structure Instr.Writable (i : Instr) : Prop where
  target : ∀ t ∈ i.target, t.Writable
  op : i.op.Writable
  operands : ∀ o ∈ i.operands, o.value.Writable

def Item.Writable : Item → Prop
  | label l => l.name.Writable
  | instr i => i.Writable

structure Func.Writable (f : Func) : Prop where
  name : f.name.Writable
  params : ∀ p ∈ f.params, p.Writable
  type : ∀ t ∈ f.type, t.Writable
  body : ∀ i ∈ f.body, i.Writable

abbrev Word := TokenKind × String

def mark (s : String) : Word :=
  (.punctuation, s)

def Name.word (x : Name) : Word :=
  (.ident, x.text.shown)

def Param.words (p : Param) : List Word :=
  [p.name.word, mark ":", p.type.word]

def OperandValue.words : OperandValue → List Word
  | func x => [mark "@", x.word]
  | label x => [mark ".", x.word]
  | int n => [(.int, Decimal.ofInt n.toInt)]
  | bool b => [(.ident, if b then "true" else "false")]
  | arg x => [x.word]

def Target.words (t : Target) : List Word :=
  [t.dest.word, mark ":", t.type.word, mark "="]

def Instr.words (i : Instr) : List Word :=
  (i.target.elim [] Target.words) ++ i.op.word :: (i.operands.flatMap (·.value.words) ++ [mark ";"])

def Item.words : Item → List Word
  | label l => [mark ".", l.name.word, mark ":"]
  | instr i => i.words

def paramsWords : List Param → List Word
  | [] => []
  | p :: ps => mark "(" :: (p.words ++ (ps.flatMap (mark "," :: Param.words ·) ++ [mark ")"]))

def typeWords : Option Name → List Word
  | none => []
  | some t => [mark ":", t.word]

def Func.words (f : Func) : List Word :=
  mark "@" :: f.name.word :: (paramsWords f.params ++ (typeWords f.type ++
    mark "\x7b" :: (f.body.flatMap Item.words ++ [mark "\x7d"])))

def paramsText : List Param → List Char
  | [] => []
  | p :: ps => '(' :: (p.render.toList ++ (ps.flatMap (',' :: ' ' :: ·.render.toList) ++ [')']))

def typeText : Option Name → List Char
  | none => []
  | some t => ':' :: ' ' :: t.text.shown.toList

lemma intercalate_cons {α : Type} (sep a : List α) (as : List (List α)) :
    sep.intercalate (a :: as) = a ++ as.flatMap (sep ++ ·) := by
  induction as generalizing a with
  | nil => simp [List.intercalate]
  | cons b as ih => simpa [List.intercalate] using ih b

lemma Func.render_toList (f : Func) : f.render.toList =
    '@' :: (f.name.text.shown.toList ++ (paramsText f.params ++ (typeText f.type ++
      ' ' :: '\x7b' :: '\n' :: (f.body.flatMap (·.render.toList) ++ ['\x7d', '\n'])))) := by
  rcases f with ⟨x, _ | ⟨q, ps⟩, _ | t, body, p⟩ <;>
    simp [Func.render, paramsText, typeText, intercalate_cons, List.flatMap_map]

def Stops (cs : List Char) : Prop :=
  ∀ c ∈ cs.head?, isIdentRest c = false

lemma stops_cons {c : Char} (hc : isIdentRest c = false) (cs : List Char) : Stops (c :: cs) := by
  simpa [Stops] using hc

namespace Lexes

variable {cs : List Char} {ws : List Word}

lemma punctuation {c : Char} (hc : isPunctuation c = true) (h : Lexes cs ws) :
    Lexes (c :: cs) ((.punctuation, String.ofList [c]) :: ws) := by
  have hl : TokenKind.punctuation.lexeme ([c] ++ cs) = [c] := by simp [TokenKind.lexeme, hc]
  exact Lexes.token rfl hl (by simp) h

lemma takeWhile_append_of_stops {p : Char → Bool} (hp : ∀ c, p c = true → isIdentRest c = true)
    {text : List Char} (ht : ∀ c ∈ text, p c = true) (hs : Stops cs) : (text ++ cs).takeWhile p = text := by
  rw [List.takeWhile_append_of_pos ht]
  cases cs with
  | nil => simp
  | cons c cs =>
    have hc : p c ≠ true := fun h => by simpa [hs c rfl] using hp c h
    rw [List.takeWhile_cons_of_neg hc, List.append_nil]

lemma ident {t : Text} (ht : t.isIdent = true) (hs : Stops cs) (h : Lexes cs ws) :
    Lexes (t.shown.toList ++ cs) ((.ident, t.shown) :: ws) := by
  obtain ⟨s, rfl, c, text, hsl, hc, hrest⟩ := Text.isIdent_iff.1 ht
  have hl : TokenKind.ident.lexeme (c :: text ++ cs) = c :: text := by
    simp only [TokenKind.lexeme, List.cons_append, hc, if_true,
      takeWhile_append_of_stops (fun _ h => h) hrest hs]
  have htok := Lexes.token rfl hl (by simp) h
  rwa [← hsl, String.ofList_toList] at htok

lemma digits (n : Nat) (hs : Stops cs) :
    (Decimal.digits n ++ cs).takeWhile Decimal.isDigit = Decimal.digits n :=
  takeWhile_append_of_stops (fun c h => by simp [isIdentRest, h]) Decimal.isDigit_of_mem_digits hs

lemma lexeme_ofInt (n : Int) (hs : Stops cs) :
    TokenKind.int.lexeme ((Decimal.ofInt n).toList ++ cs) = (Decimal.ofInt n).toList ∧
      (Decimal.ofInt n).toList ≠ [] := by
  rcases n with n | n
  · have hne := Decimal.digits_ne_nil n
    simp only [Decimal.ofInt, Decimal.ofNat, String.toList_ofList]
    refine ⟨?_, hne⟩
    rw [TokenKind.lexeme_int_of_ne, digits n hs]
    rintro c hc rfl
    rw [List.head?_append, Option.or_of_isSome (by simp [hne])] at hc
    exact absurd (Decimal.isDigit_of_mem_digits _ (List.mem_of_mem_head? hc)) (by decide)
  · simp [Decimal.ofInt, Decimal.ofNat, TokenKind.lexeme_int_minus, digits _ hs, Decimal.digits_ne_nil]

lemma int (n : Int) (hs : Stops cs) (h : Lexes cs ws) :
    Lexes ((Decimal.ofInt n).toList ++ cs) ((.int, Decimal.ofInt n) :: ws) := by
  obtain ⟨hl, hne⟩ := lexeme_ofInt n hs
  have htok := Lexes.token rfl hl hne h
  rwa [String.ofList_toList] at htok

lemma flatMap {α : Type} {P : List Char → Prop} {as : List α} {text : α → List Char} {words : α → List Word}
    (ha : ∀ a ∈ as, ∀ cs ws, P cs → Lexes cs ws → P (text a ++ cs) ∧ Lexes (text a ++ cs) (words a ++ ws))
    (hP : P cs) (h : Lexes cs ws) :
    P (as.flatMap text ++ cs) ∧ Lexes (as.flatMap text ++ cs) (as.flatMap words ++ ws) := by
  induction as with
  | nil => exact ⟨hP, h⟩
  | cons a as ih =>
    obtain ⟨ha, has⟩ := List.forall_mem_cons.1 ha
    obtain ⟨hP', h'⟩ := ih has
    simpa only [List.flatMap_cons, List.append_assoc] using ha _ _ hP' h'

lemma flatMap_of_forall {α : Type} {as : List α} {text : α → List Char} {words : α → List Word}
    (ha : ∀ a ∈ as, ∀ cs ws, Lexes cs ws → Lexes (text a ++ cs) (words a ++ ws)) (h : Lexes cs ws) :
    Lexes (as.flatMap text ++ cs) (as.flatMap words ++ ws) :=
  (flatMap (P := fun _ => True) (fun a hmem cs ws _ h => ⟨trivial, ha a hmem cs ws h⟩) trivial h).2

lemma param {p : Param} (hp : p.Writable) (hs : Stops cs) (h : Lexes cs ws) :
    Lexes (p.render.toList ++ cs) (p.words ++ ws) := by
  have ht : p.render.toList ++ cs =
      p.name.text.shown.toList ++ ':' :: ' ' :: (p.type.text.shown.toList ++ cs) := by
    simp [Param.render]
  rw [ht]
  exact ident hp.1 (stops_cons rfl _) (punctuation rfl (space rfl (ident hp.2 hs h)))

lemma target {t : Target} (hw : t.Writable) (h : Lexes cs ws) :
    Lexes (t.render.toList ++ cs) (t.words ++ ws) := by
  have ht : t.render.toList ++ cs =
      t.dest.text.shown.toList ++ ':' :: ' ' :: (t.type.text.shown.toList ++ ' ' :: '=' :: ' ' :: cs) := by
    simp [Target.render]
  rw [ht]
  exact ident hw.1 (stops_cons rfl _) (punctuation rfl (space rfl (ident hw.2 (stops_cons rfl _)
    (space rfl (punctuation rfl (space rfl h))))))

lemma operand {v : OperandValue} (hv : v.Writable) (hs : Stops cs) (h : Lexes cs ws) :
    Lexes (v.render.toList ++ cs) (v.words ++ ws) := by
  cases v with
  | func x =>
    have ht : (OperandValue.func x).render.toList ++ cs = '@' :: (x.text.shown.toList ++ cs) := by
      simp [OperandValue.render]
    rw [ht]
    exact punctuation rfl (ident hv hs h)
  | label x =>
    have ht : (OperandValue.label x).render.toList ++ cs = '.' :: (x.text.shown.toList ++ cs) := by
      simp [OperandValue.render]
    rw [ht]
    exact punctuation rfl (ident hv hs h)
  | int n => exact int n.toInt hs h
  | bool b => cases b <;> exact ident (t := .plain _) (by decide) hs h
  | arg x => exact ident hv.1 hs h

lemma operands {os : List Operand} (ho : ∀ o ∈ os, o.value.Writable) (h : Lexes cs ws) :
    Stops (os.flatMap (' ' :: ·.value.render.toList) ++ ';' :: cs) ∧
      Lexes (os.flatMap (' ' :: ·.value.render.toList) ++ ';' :: cs)
        (os.flatMap (·.value.words) ++ mark ";" :: ws) := by
  refine flatMap ?_ (stops_cons rfl cs) (punctuation rfl h)
  intro o hmem cs ws hs h
  exact ⟨stops_cons rfl _, space rfl (operand (ho o hmem) hs h)⟩

lemma instr {i : Instr} (hi : i.Writable) (h : Lexes cs ws) :
    Lexes (i.render.toList ++ cs) (i.words ++ ws) := by
  obtain ⟨hstop, hops⟩ := operands hi.operands h
  have hop := ident hi.op hstop hops
  have ht : i.render.toList ++ cs = i.target.elim [] (·.render.toList) ++ (i.op.text.shown.toList ++
      (i.operands.flatMap (' ' :: ·.value.render.toList) ++ ';' :: cs)) := by
    rcases i with ⟨_ | t, op, os, p⟩ <;> simp [Instr.render, Operand.render, List.flatMap_map]
  have hw : i.words ++ ws = i.target.elim [] Target.words ++ (i.op.word ::
      (i.operands.flatMap (·.value.words) ++ mark ";" :: ws)) := by
    simp [Instr.words]
  rw [ht, hw]
  rcases htarget : i.target with _ | t
  · exact hop
  · exact target (hi.target t htarget) hop

lemma item {i : Item} (hi : i.Writable) (h : Lexes cs ws) : Lexes (i.render.toList ++ cs) (i.words ++ ws) := by
  cases i with
  | label l =>
    have ht : (Item.label l).render.toList ++ cs = '.' :: (l.name.text.shown.toList ++ ':' :: '\n' :: cs) := by
      simp [Item.render, Label.render]
    rw [ht]
    exact punctuation rfl (ident hi (stops_cons rfl _) (punctuation rfl (space rfl h)))
  | instr i =>
    have ht : (Item.instr i).render.toList ++ cs = ' ' :: ' ' :: (i.render.toList ++ '\n' :: cs) := by
      simp [Item.render]
    rw [ht]
    exact space rfl (space rfl (instr hi (space rfl h)))

lemma params {ps : List Param} (hp : ∀ p ∈ ps, p.Writable) (hs : Stops cs) (h : Lexes cs ws) :
    Stops (paramsText ps ++ cs) ∧ Lexes (paramsText ps ++ cs) (paramsWords ps ++ ws) := by
  cases ps with
  | nil => exact ⟨hs, h⟩
  | cons p ps =>
    obtain ⟨hp, hps⟩ := List.forall_mem_cons.1 hp
    obtain ⟨hstop, hrest⟩ : Stops (ps.flatMap (',' :: ' ' :: ·.render.toList) ++ ')' :: cs) ∧
        Lexes (ps.flatMap (',' :: ' ' :: ·.render.toList) ++ ')' :: cs)
          (ps.flatMap (mark "," :: Param.words ·) ++ mark ")" :: ws) := by
      refine flatMap ?_ (stops_cons rfl cs) (punctuation rfl h)
      intro q hq cs ws hs h
      exact ⟨stops_cons rfl _, punctuation rfl (space rfl (param (hps q hq) hs h))⟩
    have hall := punctuation (c := '(') rfl (param hp hstop hrest)
    refine ⟨stops_cons rfl _, ?_⟩
    simp only [paramsText, paramsWords, List.cons_append, List.append_assoc, List.nil_append]
    exact hall

lemma type {t : Option Name} (ht : ∀ x ∈ t, x.Writable) (hs : Stops cs) (h : Lexes cs ws) :
    Stops (typeText t ++ cs) ∧ Lexes (typeText t ++ cs) (typeWords t ++ ws) := by
  cases t with
  | none => exact ⟨hs, h⟩
  | some x => exact ⟨stops_cons rfl _, punctuation rfl (space rfl (ident (ht x rfl) hs h))⟩

lemma func {f : Func} (hf : f.Writable) (h : Lexes cs ws) : Lexes (f.render.toList ++ cs) (f.words ++ ws) := by
  have hbody : Lexes (f.body.flatMap (·.render.toList) ++ '\x7d' :: '\n' :: cs)
      (f.body.flatMap Item.words ++ mark "\x7d" :: ws) :=
    flatMap_of_forall (fun i hi cs ws h => item (hf.body i hi) h) (punctuation rfl (space rfl h))
  obtain ⟨htstop, ht⟩ := type hf.type (stops_cons (c := ' ') rfl _)
    (space rfl (punctuation (c := '\x7b') rfl (space (c := '\n') rfl hbody)))
  obtain ⟨hpstop, hp⟩ := params hf.params htstop ht
  have hall := punctuation (c := '@') rfl (ident hf.name hpstop hp)
  simp only [Func.render_toList, Func.words, List.cons_append, List.append_assoc, List.nil_append]
  exact hall

end Lexes

lemma lexes_render {l : Listing} (hl : ∀ f ∈ l.funcs, f.Writable) :
    Lexes l.render.toList (l.funcs.flatMap Func.words) := by
  obtain ⟨fs⟩ := l
  cases fs with
  | nil => exact .nil
  | cons f fs =>
    obtain ⟨hf, hfs⟩ := List.forall_mem_cons.1 hl
    have hrest : Lexes (fs.flatMap ('\n' :: ·.render.toList) ++ []) (fs.flatMap Func.words ++ []) :=
      Lexes.flatMap_of_forall (fun f hf cs ws h => .space rfl (.func (hfs f hf) h)) .nil
    have ht : (render ⟨f :: fs⟩).toList = f.render.toList ++ (fs.flatMap ('\n' :: ·.render.toList) ++ []) := by
      simp [render, intercalate_cons, List.flatMap_map]
    rw [ht]
    simpa using Lexes.func hf hrest

end Listing

end BlockIR
