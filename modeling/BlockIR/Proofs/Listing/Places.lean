import BlockIR.Proofs.Listing.Lines

namespace BlockIR

namespace Text

lemma splitAt_eq_cons (c : Char) (cs : List Char) : ∃ l ls, splitAt c cs = l :: ls := by
  induction cs with
  | nil => exact ⟨[], [], rfl⟩
  | cons d cs ih =>
    obtain ⟨l, ls, h⟩ := ih
    by_cases hd : d = c <;> simp [splitAt, hd, h]

lemma utf8ByteSize_of_ascii {cs : List Char} (h : ∀ c ∈ cs, c.toNat ≤ 127) :
    (String.ofList cs).utf8ByteSize = cs.length := by
  induction cs with
  | nil => rfl
  | cons c cs ih =>
    obtain ⟨hc, hcs⟩ := List.forall_mem_cons.1 h
    have hone : c.utf8Size = 1 := Char.utf8Size_eq_one_iff.2 (UInt32.le_iff_toNat_le.2 hc)
    rw [String.ofList_cons, String.utf8ByteSize_append, String.utf8ByteSize_singleton, ih hcs, hone,
      List.length_cons, Nat.add_comm]

end Text

namespace Position

lemma after_cons (p : Position) (c : Char) (cs : List Char) : p.after (c :: cs) = (p.next c).after cs := rfl

lemma after_column_of_not_mem {cs : List Char} (h : '\n' ∉ cs) (p : Position) :
    (p.after cs).column = p.column + cs.length := by
  induction cs generalizing p with
  | nil => rfl
  | cons c cs ih =>
    obtain ⟨hc, hcs⟩ := not_or.1 (mt List.mem_cons.2 h)
    have hnext : (p.next c).column = p.column + 1 := by simp [next, Ne.symm hc]
    rw [after_cons, ih hcs, hnext, List.length_cons, Nat.add_assoc, Nat.add_comm 1]

lemma line_le_after (p : Position) (cs : List Char) : p.line ≤ (p.after cs).line := by
  induction cs generalizing p with
  | nil => exact Nat.le_refl _
  | cons c cs ih =>
    have hnext : p.line ≤ (p.next c).line := by
      unfold next
      split <;> simp
    exact Nat.le_trans hnext (ih (p.next c))

lemma column_le_after {p : Position} {cs : List Char} (h : (p.after cs).line = p.line) :
    p.column ≤ (p.after cs).column := by
  by_cases hn : '\n' ∈ cs
  · -- The line goes up at a newline, and never down again.
    obtain ⟨as, bs, rfl, has⟩ := List.eq_append_cons_of_mem hn
    rw [List.append_cons, after_append] at h
    have hle := line_le_after (p.after (as ++ ['\n'])) bs
    rw [after_newline_line has] at hle
    omega
  · rw [after_column_of_not_mem hn]
    omega

lemma column_pos {p : Position} (h : 0 < p.column) (cs : List Char) : 0 < (p.after cs).column := by
  induction cs generalizing p with
  | nil => exact h
  | cons c cs ih =>
    refine ih (p := p.next c) ?_
    unfold next
    split <;> simp

lemma after_mem_lines {us cs : List Char} (h : us <+: cs) (p : Position) :
    ∃ k l, (Text.splitAt '\n' cs)[k]? = some l ∧ (p.after us).line = p.line + k ∧
      (p.after us).column ≤ (if k = 0 then p.column else 1) + l.length := by
  induction us generalizing cs p with
  | nil =>
    obtain ⟨l, ls, hl⟩ := Text.splitAt_eq_cons '\n' cs
    exact ⟨0, l, by simp [hl], rfl, by simp⟩
  | cons c us ih =>
    obtain ⟨ds, rfl⟩ := h
    obtain ⟨k, l, hk, hline, hcolumn⟩ := ih (List.prefix_append us ds) (p.next c)
    rw [after_cons, List.cons_append, Text.splitAt]
    by_cases hc : c = '\n'
    · refine ⟨k + 1, l, by simpa [hc] using hk, ?_, ?_⟩
      · simp only [next, hc, if_true] at hline ⊢
        omega
      · simpa [next, hc] using hcolumn
    · obtain ⟨m, ms, hm⟩ := Text.splitAt_eq_cons '\n' (us ++ ds)
      rw [hm] at hk
      simp only [next, if_neg hc] at hline hcolumn ⊢
      cases k with
      | zero =>
        cases hk
        refine ⟨0, c :: l, by simp [hm], hline, ?_⟩
        simp only [if_true, List.length_cons] at hcolumn ⊢
        omega
      | succ k => exact ⟨k + 1, l, by simpa [hm] using hk, hline, hcolumn⟩

end Position

namespace Listing

namespace TokenKind

lemma toNat_le_of_mem_lexeme {k : TokenKind} (hk : k.isIdle = false) {c : Char} {cs : List Char}
    (h : c ∈ k.lexeme cs) : c.toNat ≤ 127 := by
  have heq (d : Char) : c = d ↔ c.toNat = d.toNat := Char.toNat_inj.symm
  rcases mem_lexeme hk h with rfl | h | ⟨h, -⟩
  · decide
  · simp [isIdentRest, isIdentStart, Decimal.isDigit, char_le_iff, heq] at h
    omega
  · simp [isPunctuation, heq] at h
    omega

lemma utf8ByteSize_of_lexeme {k : TokenKind} (hk : k.isIdle = false) {s : String}
    (h : k.lexeme s.toList = s.toList) : s.utf8ByteSize = s.toList.length := by
  rw [← String.ofList_toList (s := s), String.toList_ofList]
  exact Text.utf8ByteSize_of_ascii fun c hc => toNat_le_of_mem_lexeme hk (h ▸ hc)

end TokenKind

inductive Laid : Position → List Token → Prop
  | nil (p : Position) : Laid p []
  | cons {t : Token} {ts : List Token} : Laid (t.start.after t.text.toList) ts → Laid t.start (t :: ts)

section Scan

variable (kinds : List TokenKind) (p : Position) (cs : List Char)

lemma scanFrom_laid : Laid p (scanFrom kinds p cs).tokens := by
  induction p, cs using scanFrom.induct kinds with
  | case1 p cs h =>
    rw [scanFrom_of_none h]
    exact .nil p
  | case2 p cs k text h ih =>
    rw [scanFrom_of_some h]
    exact .cons (t := ⟨k, String.ofList text, p⟩) (by simpa using ih)

lemma scanFrom_text : (scanFrom kinds p cs).tokens.flatMap (·.text.toList) ++ (scanFrom kinds p cs).rest = cs := by
  induction p, cs using scanFrom.induct kinds with
  | case1 p cs h =>
    rw [scanFrom_of_none h]
    rfl
  | case2 p cs k text h ih =>
    have hprefix : text <+: cs := (firstMatch_eq_some h).1 ▸ k.lexeme_isPrefix cs
    rw [scanFrom_of_some h, List.flatMap_cons, List.append_assoc, ih, String.toList_ofList,
      List.prefix_iff_eq_append.1 hprefix]

lemma scanFrom_stop : (scanFrom kinds p cs).stop = p.after ((scanFrom kinds p cs).tokens.flatMap (·.text.toList)) := by
  induction p, cs using scanFrom.induct kinds with
  | case1 p cs h =>
    rw [scanFrom_of_none h]
    rfl
  | case2 p cs k text h ih =>
    rw [scanFrom_of_some h, List.flatMap_cons, Position.after_append, String.toList_ofList, ih]

lemma scanFrom_rest : firstMatch kinds (scanFrom kinds p cs).rest = none := by
  induction p, cs using scanFrom.induct kinds with
  | case1 p cs h => rwa [scanFrom_of_none h]
  | case2 p cs k text h ih => rwa [scanFrom_of_some h]

end Scan

lemma Laid.start_eq {p : Position} {as bs : List Token} {t : Token} (h : Laid p (as ++ t :: bs)) :
    t.start = p.after (as.flatMap (·.text.toList)) := by
  induction as generalizing p with
  | nil =>
    cases h
    rfl
  | cons a as ih =>
    cases h with
    | cons h => rw [ih h, List.flatMap_cons, Position.after_append]

lemma Laid.start {p : Position} {ts : List Token} (h : Laid p ts) :
    ∀ t ∈ ts, ∃ us, us <+: ts.flatMap (·.text.toList) ∧ t.start = p.after us := by
  intro t ht
  obtain ⟨as, bs, rfl⟩ := List.append_of_mem ht
  rw [List.flatMap_append]
  exact ⟨_, List.prefix_append _ _, h.start_eq⟩

lemma Laid.pairwise {p : Position} {ts : List Token} (h : Laid p ts) :
    ts.Pairwise fun a b => ∃ cs, b.start = (a.start.after a.text.toList).after cs := by
  induction h with
  | nil => exact .nil
  | cons hts ih =>
    refine .cons (fun b hb => ?_) ih
    obtain ⟨us, _, hstart⟩ := hts.start b hb
    exact ⟨us, hstart⟩

lemma newline_not_mem {t : Token} (hidle : t.kind.isIdle = false)
    (hwhole : t.kind.lexeme t.text.toList = t.text.toList) : '\n' ∉ t.text.toList := by
  intro hmem
  rw [← hwhole] at hmem
  exact absurd (TokenKind.not_isBlank_of_mem_lexeme hidle hmem) (by decide)

lemma start_of_busy {a b : Token} (hidle : a.kind.isIdle = false)
    (hwhole : a.kind.lexeme a.text.toList = a.text.toList)
    (h : ∃ cs, b.start = (a.start.after a.text.toList).after cs) :
    a.start.line < b.start.line ∨
      a.start.line = b.start.line ∧ a.start.column + a.text.toList.length ≤ b.start.column := by
  obtain ⟨cs, hb⟩ := h
  have hnewline := newline_not_mem hidle hwhole
  have hline := Position.after_line_of_not_mem hnewline a.start
  have hcolumn := Position.after_column_of_not_mem hnewline a.start
  have hle := Position.line_le_after (a.start.after a.text.toList) cs
  rw [← hb, hline] at hle
  rcases Nat.lt_or_eq_of_le hle with hlt | heq
  · exact .inl hlt
  · have hsame : ((a.start.after a.text.toList).after cs).line = (a.start.after a.text.toList).line := by
      rw [← hb, hline, heq]
    have hright := Position.column_le_after hsame
    rw [← hb, hcolumn] at hright
    exact .inr ⟨heq, hright⟩

lemma length_tokens_le (source : String) : (scan source).tokens.length ≤ source.length := by
  have hlengths {ts : List Token} (h : ∀ t ∈ ts, t.text.toList ≠ []) :
      ts.length ≤ (ts.flatMap (·.text.toList)).length := by
    induction ts with
    | nil => exact Nat.le_refl _
    | cons t ts ih =>
      obtain ⟨ht, hts⟩ := List.forall_mem_cons.1 h
      have hpos := List.length_pos_iff.2 ht
      have hle := ih hts
      rw [List.length_cons, List.flatMap_cons, List.length_append]
      omega
  have hle := hlengths fun t ht => (scanFrom_whole TokenKind.all .start source.toList t ht).2
  have htext := congrArg List.length (scanFrom_text TokenKind.all .start source.toList)
  rw [List.length_append, String.length_toList] at htext
  exact Nat.le_trans hle (by omega)

def Inside (source : String) (p : Position) : Prop :=
  ∃ us, us <+: source.toList ∧ p = Position.start.after us

lemma inside_start {source : String} {t : Token} (h : t ∈ (scan source).tokens) : Inside source t.start := by
  obtain ⟨us, hus, hstart⟩ := (scanFrom_laid TokenKind.all .start source.toList).start t h
  exact ⟨us, hus.trans ⟨_, scanFrom_text TokenKind.all .start source.toList⟩, hstart⟩

lemma inside_stop (source : String) : Inside source (scan source).stop :=
  ⟨_, ⟨_, scanFrom_text TokenKind.all .start source.toList⟩, scanFrom_stop TokenKind.all .start source.toList⟩

lemma Inside.mem_lines {source : String} {p : Position} (h : Inside source p) :
    ∃ k l, (Text.splitAt '\n' source.toList)[k]? = some l ∧ p.line = k + 1 ∧ 0 < p.column ∧
      p.column ≤ l.length + 1 := by
  obtain ⟨us, hus, rfl⟩ := h
  obtain ⟨k, l, hk, hline, hcolumn⟩ := Position.after_mem_lines hus .start
  refine ⟨k, l, hk, by rw [hline, Nat.add_comm]; rfl, Position.column_pos (by decide) us, ?_⟩
  rw [Nat.add_comm]
  refine Nat.le_trans hcolumn (Nat.le_of_eq ?_)
  split <;> rfl

lemma start_mem_lines {source : String} {t : Token} (h : t ∈ (scan source).tokens) :
    ∃ k l, (Text.splitAt '\n' source.toList)[k]? = some l ∧ t.start.line = k + 1 ∧ 0 < t.start.column ∧
      t.start.column ≤ l.length + 1 :=
  (inside_start h).mem_lines

end Listing

end BlockIR
