import BlockIR.Proofs.Instr.Shape
import BlockIR.Proofs.Listing.Spelling

namespace BlockIR

lemma eq_of_intercalate_eq {c : Char} {ls ks : List (List Char)} (hl : ∀ l ∈ ls, c ∉ l) (hk : ∀ k ∈ ks, c ∉ k)
    (hls : ls ≠ [[]]) (hks : ks ≠ [[]]) (h : [c].intercalate ls = [c].intercalate ks) : ls = ks := by
  have hsplit {ms : List (List Char)} (hm : ∀ m ∈ ms, c ∉ m) (hne : ms ≠ []) :
      ([c].intercalate ms).splitOn c = ms := List.splitOn_intercalate c hm hne
  by_cases hnl : ls = []
  · subst hnl
    by_contra hnk
    have hempty := hsplit hk (Ne.symm hnk)
    rw [← h] at hempty
    exact hks hempty.symm
  · by_cases hnk : ks = []
    · subst hnk
      have hempty := hsplit hl hnl
      rw [h] at hempty
      exact absurd hempty.symm hls
    · rw [← hsplit hl hnl, h, hsplit hk hnk]

lemma not_mem_intercalate {c d : Char} {ls : List (List Char)} (hl : ∀ l ∈ ls, c ∉ l) (hd : c ≠ d) :
    c ∉ [d].intercalate ls := by
  cases ls with
  | nil => simp
  | cons l ls =>
    obtain ⟨hl, hls⟩ := List.forall_mem_cons.1 hl
    rw [Listing.intercalate_cons, List.mem_append, not_or]
    exact ⟨hl, by simpa [hd] using hls⟩

lemma append_cons_inj_of_not_mem {c : Char} {xs ys rs ss : List Char} (hx : c ∉ xs) (hy : c ∉ ys)
    (h : xs ++ c :: rs = ys ++ c :: ss) : xs = ys ∧ rs = ss := by
  induction xs generalizing ys with
  | nil =>
    cases ys with
    | nil => exact ⟨rfl, (List.cons.inj h).2⟩
    | cons y ys => exact absurd (List.cons.inj h).1 (List.ne_of_not_mem_cons hy)
  | cons x xs ih =>
    cases ys with
    | nil => exact absurd (List.cons.inj h).1.symm (List.ne_of_not_mem_cons hx)
    | cons y ys =>
      obtain ⟨rfl, hrest⟩ := List.cons.inj h
      obtain ⟨rfl, hrest'⟩ := ih (List.not_mem_of_not_mem_cons hx) (List.not_mem_of_not_mem_cons hy) hrest
      exact ⟨rfl, hrest'⟩

lemma eq_of_map_eq {α β : Type} {P : α → Prop} {f : α → β} (hf : ∀ a b, P a → P b → f a = f b → a = b)
    {as bs : List α} (ha : ∀ a ∈ as, P a) (hb : ∀ b ∈ bs, P b) (h : as.map f = bs.map f) : as = bs := by
  induction as generalizing bs with
  | nil => exact (List.map_eq_nil_iff.1 h.symm).symm
  | cons a as ih =>
    obtain ⟨b, bs, rfl, hab, hrest⟩ := List.map_eq_cons_iff.1 h.symm
    obtain ⟨ha, has⟩ := List.forall_mem_cons.1 ha
    obtain ⟨hb, hbs⟩ := List.forall_mem_cons.1 hb
    rw [hf a b ha hb hab.symm, ih has hbs hrest.symm]

namespace Text

lemma not_mem_shown {x : Text} (hx : x.isIdent = true) {c : Char} (hc : Listing.isIdentRest c = false) :
    c ∉ x.shown.toList := by
  obtain ⟨s, rfl, d, ds, hs, hd, hds⟩ := isIdent_iff.1 hx
  intro hmem
  have hrest : Listing.isIdentRest c = true := by
    rw [shown_plain, hs] at hmem
    rcases List.mem_cons.1 hmem with rfl | hmem
    · simp [Listing.isIdentRest, hd]
    · exact hds c hmem
  rw [hc] at hrest
  cases hrest

lemma eq_of_shown_eq {x y : Text} (hx : x.isIdent = true) (hy : y.isIdent = true)
    (h : x.shown.toList = y.shown.toList) : x = y := by
  obtain ⟨s, rfl, _⟩ := isIdent_iff.1 hx
  obtain ⟨t, rfl, _⟩ := isIdent_iff.1 hy
  exact congrArg plain (String.toList_injective h)

end Text

namespace Ty

lemma displayOption_injective {s t : Option Ty} (h : (displayOption s).toList = (displayOption t).toList) :
    s = t := by
  rcases s with _ | s | s <;> rcases t with _ | t | t <;> first | rfl | exact absurd h (by decide)

lemma displayOption_letters (t : Option Ty) : (displayOption t).toList.all Listing.isIdentStart = true := by
  rcases t with _ | t | t <;> decide

end Ty

namespace Op

lemma display_injective {a b : Op} (h : a.display.toList = b.display.toList) : a = b :=
  (by decide : ∀ a ∈ all, ∀ b ∈ all, a.display.toList = b.display.toList → a = b) a (mem_all a) b (mem_all b) h

lemma display_letters (op : Op) : op.display.toList.all Listing.isIdentStart = true :=
  (by decide : ∀ op ∈ all, op.display.toList.all Listing.isIdentStart = true) op (mem_all op)

end Op

lemma not_mem_of_letters {cs : List Char} (h : cs.all Listing.isIdentStart = true) {c : Char}
    (hc : Listing.isIdentRest c = false) : c ∉ cs := by
  intro hmem
  simp [Listing.isIdentRest, List.all_eq_true.1 h c hmem] at hc

lemma Presence.eq_of_admits {p : Presence} (hp : p ≠ optional) {a b : Bool} (ha : p.Admits a) (hb : p.Admits b) :
    a = b := by
  cases p with
  | forbidden => exact ha.trans hb.symm
  | required => exact ha.trans hb.symm
  | optional => exact absurd rfl hp

lemma Shape.value_ne_optional (op : Op) : (ofOp op).value ≠ .optional := by
  cases op <;> decide

namespace Literal

lemma display_injective {v w : Literal} (h : v.display = w.display) : v = w := by
  have hword (b : Bool) : Decimal.readPrefixedInt64 (bool b).display = .error .malformed := by
    cases b <;> decide
  cases v with
  | int m =>
    have hm : Decimal.readPrefixedInt64 (int m).display = .ok m := Decimal.readPrefixedInt64_ofInt m
    rw [h] at hm
    cases w with
    | int n => exact congrArg int (Except.ok.inj (hm.symm.trans (Decimal.readPrefixedInt64_ofInt n)))
    | bool b => cases (hword b).symm.trans hm
  | bool a =>
    have ha := hword a
    rw [h] at ha
    cases w with
    | int n => cases (Decimal.readPrefixedInt64_ofInt n).symm.trans ha
    | bool b => cases a <;> cases b <;> first | rfl | exact absurd h (by decide)

lemma not_mem_display (v : Literal) {c : Char} (hc : Listing.isIdentRest c = false) (hminus : c ≠ '-') :
    c ∉ v.display.toList := by
  have hdigits (n : Nat) : c ∉ Decimal.digits n := fun hmem => by
    simp [Listing.isIdentRest, Decimal.isDigit_of_mem_digits c hmem] at hc
  cases v with
  | int n =>
    rw [display]
    rcases n.toInt with n | n <;> simp [Decimal.ofInt, Decimal.ofNat, hdigits, hminus]
  | bool b =>
    refine not_mem_of_letters ?_ hc
    cases b <;> decide

end Literal

namespace Instr

variable {i j : Instr}

def targetWords (i : Instr) : List (List Char) :=
  match i.dest with
  | none => []
  | some x => [x.shown.toList ++ [':'], (Ty.displayOption i.type).toList, ['=']]

def operandWords (i : Instr) : List (List Char) :=
  i.value.toList.map (·.display.toList) ++ (i.funcs.map ('@' :: ·.shown.toList) ++
    (i.args.map (·.shown.toList) ++ i.labels.map ('.' :: ·.shown.toList)))

def displayWords (i : Instr) : List (List Char) :=
  i.targetWords ++ i.op.display.toList :: i.operandWords

lemma displayWords_ne (i : Instr) : i.displayWords ≠ [[]] := by
  have hop : i.op.display.toList ≠ [] := by cases i.op <;> decide
  unfold displayWords targetWords
  split <;> simp [hop]

lemma display_toList (i : Instr) : i.display.toList = [' '].intercalate i.displayWords ++ [';'] := by
  rcases i with ⟨op, _ | x, type, args, funcs, labels, _ | v⟩ <;>
    simp [display, displayWords, targetWords, operandWords, Listing.intercalate_cons, List.flatMap_map]

@[mk_iff]
structure Legible (i : Instr) : Prop where
  shape : i.shapeFault? = none
  dest : ∀ x ∈ i.dest, x.isIdent = true
  args : ∀ x ∈ i.args, x.isIdent = true
  funcs : ∀ x ∈ i.funcs, x.isIdent = true
  labels : ∀ x ∈ i.labels, x.isIdent = true

namespace Legible

lemma not_mem_targetWords (h : i.Legible) {c : Char} (hc : Listing.isIdentRest c = false) (hcolon : c ≠ ':')
    (hequal : c ≠ '=') : ∀ w ∈ i.targetWords, c ∉ w := by
  unfold targetWords
  split
  · simp
  · rename_i x hx
    have hname : c ∉ x.shown.toList := Text.not_mem_shown (h.dest x hx) hc
    simpa [hname, hcolon, hequal] using not_mem_of_letters (Ty.displayOption_letters i.type) hc

lemma not_mem_operandWords (h : i.Legible) {c : Char} (hc : Listing.isIdentRest c = false) (hminus : c ≠ '-')
    (hat : c ≠ '@') : ∀ w ∈ i.operandWords, c ∉ w := by
  have hdot : c ≠ '.' := by
    rintro rfl
    cases hc
  simp only [operandWords, List.forall_mem_append, List.forall_mem_map]
  refine ⟨fun v _ => v.not_mem_display hc hminus, fun x hx => ?_, fun x hx => ?_, fun x hx => ?_⟩
  · simpa [hat] using Text.not_mem_shown (h.funcs x hx) hc
  · exact Text.not_mem_shown (h.args x hx) hc
  · simpa [hdot] using Text.not_mem_shown (h.labels x hx) hc

lemma not_mem_displayWords (h : i.Legible) {c : Char} (hc : Listing.isIdentRest c = false)
    (hmark : c ∉ ['-', ':', '=', '@']) : ∀ w ∈ i.displayWords, c ∉ w := by
  simp only [List.mem_cons, List.not_mem_nil, or_false, not_or] at hmark
  obtain ⟨hminus, hcolon, hequal, hat⟩ := hmark
  refine List.forall_mem_append.2 ⟨h.not_mem_targetWords hc hcolon hequal, List.forall_mem_cons.2 ⟨?_, ?_⟩⟩
  · exact not_mem_of_letters i.op.display_letters hc
  · exact h.not_mem_operandWords hc hminus hat

lemma eq_of_operandWords_eq (hi : i.Legible) (hj : j.Legible) (hop : i.op = j.op)
    (h : i.operandWords = j.operandWords) :
    i.value = j.value ∧ i.funcs = j.funcs ∧ i.args = j.args ∧ i.labels = j.labels := by
  have hfi := shapeFault?_eq_none_iff.1 hi.shape
  have hfj := shapeFault?_eq_none_iff.1 hj.shape
  rw [hop] at hfi
  have hvalue : i.value.isSome = j.value.isSome :=
    Presence.eq_of_admits (Shape.value_ne_optional j.op) hfi.value hfj.value
  obtain ⟨hv, h⟩ := List.append_inj h (by simp [Option.length_toList, hvalue])
  obtain ⟨hf, h⟩ := List.append_inj h (by simp [hfi.funcs, hfj.funcs])
  obtain ⟨ha, hl⟩ := List.append_inj' h (by simp [hfi.labels, hfj.labels])
  have hmarked (c : Char) (x y : Text) (hx : x.isIdent = true) (hy : y.isIdent = true)
      (hxy : c :: x.shown.toList = c :: y.shown.toList) : x = y :=
    Text.eq_of_shown_eq hx hy (List.cons.inj hxy).2
  refine ⟨?_, eq_of_map_eq (hmarked '@') hi.funcs hj.funcs hf,
    eq_of_map_eq (fun _ _ => Text.eq_of_shown_eq) hi.args hj.args ha,
    eq_of_map_eq (hmarked '.') hi.labels hj.labels hl⟩
  have hdisplay : Function.Injective fun v : Literal => v.display.toList :=
    fun v w hvw => Literal.display_injective (String.toList_injective hvw)
  have hlists := hdisplay.list_map hv
  cases hvi : i.value <;> cases hvj : j.value <;> simp_all

lemma eq_of_displayWords_eq (hi : i.Legible) (hj : j.Legible) (h : i.displayWords = j.displayWords) : i = j := by
  have hcolon (op : Op) (x : Text) : op.display.toList ≠ x.shown.toList ++ [':'] := fun he =>
    not_mem_of_letters op.display_letters rfl (he ▸ List.mem_append_right _ List.mem_cons_self)
  have hfields (hdest : i.dest = j.dest) (htype : i.type = j.type)
      (hwords : i.op.display.toList :: i.operandWords = j.op.display.toList :: j.operandWords) : i = j := by
    obtain ⟨hop, hwords⟩ := List.cons.inj hwords
    have hop : i.op = j.op := Op.display_injective hop
    obtain ⟨hvalue, hfuncs, hargs, hlabels⟩ := hi.eq_of_operandWords_eq hj hop hwords
    cases i
    cases j
    simp_all
  have hti := (shapeFault?_eq_none_iff.1 hi.shape).typed
  have htj := (shapeFault?_eq_none_iff.1 hj.shape).typed
  cases hdi : i.dest with
  | none =>
    cases hdj : j.dest with
    | none =>
      simp only [displayWords, targetWords, hdi, hdj, List.nil_append] at h
      have htype : i.type = j.type := by simp_all
      exact hfields (hdi.trans hdj.symm) htype h
    | some y =>
      simp only [displayWords, targetWords, hdi, hdj, List.nil_append, List.cons_append] at h
      exact absurd (List.cons.inj h).1 (hcolon i.op y)
  | some x =>
    cases hdj : j.dest with
    | none =>
      simp only [displayWords, targetWords, hdi, hdj, List.nil_append, List.cons_append] at h
      exact absurd (List.cons.inj h).1.symm (hcolon j.op x)
    | some y =>
      simp only [displayWords, targetWords, hdi, hdj, List.nil_append, List.cons_append, List.cons.injEq] at h
      obtain ⟨hname, htype, _, hwords⟩ := h
      have hxy : x = y := Text.eq_of_shown_eq (hi.dest x hdi) (hj.dest y hdj) (List.append_cancel_right hname)
      exact hfields (by rw [hdi, hdj, hxy]) (Ty.displayOption_injective htype) (by rw [hwords.1, hwords.2])

lemma eq_of_display_eq (hi : i.Legible) (hj : j.Legible) (h : i.display.toList = j.display.toList) : i = j := by
  rw [display_toList, display_toList] at h
  have hblank {k : Instr} (hk : k.Legible) : ∀ w ∈ k.displayWords, ' ' ∉ w :=
    hk.not_mem_displayWords (by decide) (by decide)
  exact hi.eq_of_displayWords_eq hj (eq_of_intercalate_eq (hblank hi) (hblank hj) i.displayWords_ne
    j.displayWords_ne (List.append_cancel_right h))

lemma newline_not_mem_display (h : i.Legible) : '\n' ∉ i.display.toList := by
  have hwords := h.not_mem_displayWords (c := '\n') (by decide) (by decide)
  rw [display_toList, List.mem_append, not_or]
  exact ⟨not_mem_intercalate hwords (by decide), by decide⟩

end Legible

end Instr

end BlockIR
