import BlockIR.Proofs.Listing.Unambiguity

namespace BlockIR.Listing

def turn (s : String) : Int :=
  if s = "\x7b" then 1 else if s = "\x7d" then -1 else 0

def nesting : List (TokenKind × String) → Int
  | [] => 0
  | w :: ws => turn w.2 + nesting ws

@[simp] lemma nesting_nil : nesting [] = 0 := rfl

@[simp] lemma nesting_cons (w : TokenKind × String) (ws : List (TokenKind × String)) :
    nesting (w :: ws) = turn w.2 + nesting ws := rfl

@[simp] lemma nesting_append (us vs : List (TokenKind × String)) : nesting (us ++ vs) = nesting us + nesting vs := by
  induction us with
  | nil => simp
  | cons u us ih =>
    rw [List.cons_append, nesting_cons, nesting_cons, ih]
    omega

lemma nesting_eq_zero {ts : List Token} (h : ∀ t ∈ ts, turn t.text = 0) : nesting (ts.map Token.word) = 0 := by
  induction ts with
  | nil => rfl
  | cons t ts ih =>
    obtain ⟨ht, hts⟩ := List.forall_mem_cons.1 h
    simp [Token.word, ht, ih hts]

namespace Phrase

def braceless (e : Phrase) : Bool :=
  exclusive [.literal "\x7b", .literal "\x7d"] e.terminals

lemma turn_of_braceless {e : Phrase} (he : e.braceless = true) (d : e.Derivation)
    (hw : ∀ t ∈ e.yield d, t.Whole) : ∀ t ∈ e.yield d, turn t.text = 0 := by
  intro t ht
  have hne {s : String} (hs : Terminal.literal s ∈ [Terminal.literal "\x7b", .literal "\x7d"]) : t.text ≠ s :=
    not_matches_of_exclusive he hw ht hs
  simp [turn, hne (s := "\x7b") (by simp), hne (s := "\x7d") (by simp)]

lemma many_cut {a : Phrase} {d : a.many.Derivation} {us vs : List Token} (h : us ++ vs = a.many.yield d) :
    (∃ d₁ d₂ : a.many.Derivation, d = d₁ ++ d₂ ∧ us = a.many.yield d₁ ∧ vs = a.many.yield d₂) ∨
      ∃ (d₁ : a.many.Derivation) (x : a.Derivation) (d₂ : a.many.Derivation) (u v : List Token),
        d = d₁ ++ x :: d₂ ∧ u ≠ [] ∧ v ≠ [] ∧ u ++ v = a.yield x ∧ us = a.many.yield d₁ ++ u ∧
          vs = v ++ a.many.yield d₂ := by
  induction d generalizing us with
  | nil =>
    obtain ⟨rfl, rfl⟩ := List.append_eq_nil_iff.1 h
    exact .inl ⟨[], [], rfl, rfl, rfl⟩
  | cons x d ih =>
    rw [yield_cons] at h
    rcases List.append_eq_append_iff.1 h with ⟨v, hx, rfl⟩ | ⟨ws, rfl, hd⟩
    · by_cases hu : us = []
      · subst hu
        exact .inl ⟨[], x :: d, rfl, rfl, by simp [hx]⟩
      · by_cases hv : v = []
        · subst hv
          exact .inl ⟨[x], d, rfl, by simpa [yield] using hx.symm, rfl⟩
        · exact .inr ⟨[], x, d, us, v, rfl, hu, hv, hx.symm, rfl, rfl⟩
    · rcases ih hd.symm with ⟨d₁, d₂, rfl, rfl, rfl⟩ | ⟨d₁, y, d₂, u, v, rfl, hu, hv, hy, rfl, rfl⟩
      · exact .inl ⟨x :: d₁, d₂, rfl, by simp, rfl⟩
      · exact .inr ⟨x :: d₁, y, d₂, u, v, rfl, hu, hv, hy, by simp, rfl⟩

lemma eq_nil_of_yield {a : Phrase} (ha : a.nullable = false) {d : a.many.Derivation} (h : a.many.yield d = []) :
    d = [] := by
  cases d with
  | nil => rfl
  | cons x d =>
    rw [yield_cons] at h
    exact absurd (List.append_eq_nil_iff.1 h).1 (yield_ne_nil ha x)

abbrev signature : Phrase :=
  (literal "@").seq (ident.seq (params.seq resultType))

def opening (f : function.Derivation) : Token :=
  f.2.2.2.2.1.1

def closing (f : function.Derivation) : Token :=
  f.2.2.2.2.2.2.1

def header (f : function.Derivation) : List Token :=
  signature.yield (f.1, f.2.1, f.2.2.1, f.2.2.2.1) ++ [opening f]

def body (f : function.Derivation) : List Token :=
  bodyItem.many.yield f.2.2.2.2.2.1

lemma yield_function (f : function.Derivation) : function.yield f = header f ++ (body f ++ [closing f]) := by
  obtain ⟨l, x, ps, t, b, its, e⟩ := f
  have hfunction : function.yield (l, x, ps, t, b, its, e) = l.1 :: x.1 ::
      (params.yield ps ++ (resultType.yield t ++ b.1 :: (bodyItem.many.yield its ++ [e.1]))) := rfl
  have hsignature : signature.yield (l, x, ps, t) = l.1 :: x.1 :: (params.yield ps ++ resultType.yield t) := rfl
  simp [hfunction, header, body, opening, closing, hsignature]

def OpenAt (n : Nat) (f : function.Derivation) : Prop :=
  (opening f).start.line ≤ n ∧ n < (closing f).start.line

section Cut

variable {f : function.Derivation} {n : Nat}

lemma nesting_header (hw : ∀ t ∈ function.yield f, t.Whole) : nesting ((header f).map Token.word) = 1 := by
  have hsignature := turn_of_braceless (e := signature) (by decide) (f.1, f.2.1, f.2.2.1, f.2.2.2.1) fun t ht =>
    hw t (by rw [yield_function]; exact List.mem_append_left _ (List.mem_append_left _ ht))
  have hopening : (opening f).text = "\x7b" := f.2.2.2.2.1.2
  simp [header, nesting_eq_zero hsignature, Token.word, hopening, turn]

lemma turn_body (hw : ∀ t ∈ function.yield f, t.Whole) : ∀ t ∈ body f, turn t.text = 0 :=
  turn_of_braceless (e := bodyItem.many) (by decide) f.2.2.2.2.2.1 fun t ht =>
    hw t (by rw [yield_function]; exact List.mem_append_right _ (List.mem_append_left _ ht))

lemma nesting_function (hw : ∀ t ∈ function.yield f, t.Whole) :
    nesting ((function.yield f).map Token.word) = 0 := by
  have hclosing : (closing f).text = "\x7d" := f.2.2.2.2.2.2.2
  rw [yield_function, List.map_append, List.map_append, nesting_append, nesting_append, nesting_header hw,
    nesting_eq_zero (turn_body hw)]
  simp [Token.word, hclosing, turn]

lemma inside {u v : List Token} (h : u ++ v = function.yield f) (hne : u ≠ []) (hne' : v ≠ [])
    (hu : ∀ t ∈ u, t.start.line ≤ n) (hv : ∀ t ∈ v, n < t.start.line)
    (hheader : ∀ t ∈ header f, t.start.line = (opening f).start.line) (hw : ∀ t ∈ function.yield f, t.Whole) :
    nesting (u.map Token.word) = 1 ∧ OpenAt n f := by
  rw [yield_function] at h
  have hopen : (opening f).start.line ≤ n := by
    obtain ⟨t, u, rfl⟩ := List.exists_cons_of_ne_nil hne
    have ht : t = f.1.1 := (List.cons.inj h).1
    rw [← hheader t (ht ▸ List.mem_cons_self)]
    exact hu t List.mem_cons_self
  obtain ⟨w, rfl, hrest⟩ : ∃ w, u = header f ++ w ∧ w ++ v = body f ++ [closing f] := by
    rcases List.append_eq_append_iff.1 h with ⟨w, hw, hvw⟩ | ⟨w, hw, hvw⟩
    · obtain rfl : w = [] := by
        refine List.eq_nil_iff_forall_not_mem.2 fun t ht => ?_
        have hle := hheader t (hw ▸ List.mem_append_right u ht)
        have hlt := hv t (hvw ▸ List.mem_append_left _ ht)
        omega
      exact ⟨[], by simpa using hw.symm, by simpa using hvw⟩
    · exact ⟨w, hw, hvw.symm⟩
  obtain rfl | ⟨v, t, rfl⟩ := List.eq_nil_or_concat v
  · exact absurd rfl hne'
  obtain ⟨hbody, ht⟩ : w ++ v = body f ∧ [t] = [closing f] := by
    rw [List.concat_eq_append, ← List.append_assoc] at hrest
    exact List.append_inj' hrest rfl
  obtain rfl := List.singleton_inj.1 ht
  refine ⟨?_, hopen, hv _ (by simp)⟩
  have hword : ∀ t ∈ w, turn t.text = 0 := fun t ht => turn_body hw t (hbody ▸ List.mem_append_left v ht)
  simp [nesting_header hw, nesting_eq_zero hword]

lemma opening_mem (f : function.Derivation) : opening f ∈ function.yield f := by
  simp [yield_function, header]

lemma closing_mem (f : function.Derivation) : closing f ∈ function.yield f := by
  simp [yield_function]

lemma nesting_program {d : program.Derivation} (hw : ∀ t ∈ program.yield d, t.Whole) :
    nesting ((program.yield d).map Token.word) = 0 := by
  induction d with
  | nil => rfl
  | cons f d ih =>
    rw [yield_cons] at hw ⊢
    obtain ⟨hf, hd⟩ := List.forall_mem_append.1 hw
    simp [nesting_function hf, ih hd]

lemma closed_or_open {d : program.Derivation} {us vs : List Token} (h : us ++ vs = program.yield d)
    (hu : ∀ t ∈ us, t.start.line ≤ n) (hv : ∀ t ∈ vs, n < t.start.line)
    (hheader : ∀ f ∈ d, ∀ t ∈ header f, t.start.line = (opening f).start.line)
    (hw : ∀ t ∈ program.yield d, t.Whole) :
    (∃ d₁ d₂ : program.Derivation, d = d₁ ++ d₂ ∧ us = program.yield d₁ ∧ vs = program.yield d₂ ∧
      nesting (us.map Token.word) = 0 ∧ ∀ f ∈ d, ¬ OpenAt n f) ∨
    nesting (us.map Token.word) = 1 ∧ ∃ f ∈ d, OpenAt n f := by
  have hpart {f : function.Derivation} (hf : f ∈ d) : ∀ t ∈ function.yield f, t.Whole := fun t ht =>
    hw t (List.mem_flatMap.2 ⟨f, hf, ht⟩)
  rcases many_cut h with ⟨d₁, d₂, rfl, rfl, rfl⟩ | ⟨d₁, f, d₂, u, v, rfl, hne, hne', hf, rfl, rfl⟩
  · have hd₁ := nesting_program (d := d₁) fun t ht => hw t (h ▸ List.mem_append_left _ ht)
    refine .inl ⟨d₁, d₂, rfl, rfl, rfl, hd₁, fun f hf ⟨hopen, hclose⟩ => ?_⟩
    rcases List.mem_append.1 hf with hf | hf
    · exact absurd (hu _ (List.mem_flatMap.2 ⟨f, hf, closing_mem f⟩)) (Nat.not_le.2 hclose)
    · exact absurd (hv _ (List.mem_flatMap.2 ⟨f, hf, opening_mem f⟩)) (Nat.not_lt.2 hopen)
  · right
    have hmem : f ∈ d₁ ++ f :: d₂ := by simp
    have hd₁ := nesting_program (d := d₁) fun t ht => hw t (h ▸ List.mem_append_left _ (List.mem_append_left _ ht))
    obtain ⟨hnesting, hopen⟩ := inside hf hne hne' (List.forall_mem_append.1 hu).2 (List.forall_mem_append.1 hv).1
      (hheader f hmem) (hpart hmem)
    exact ⟨by simp [hd₁, hnesting], f, hmem, hopen⟩

end Cut

end Phrase

end BlockIR.Listing
