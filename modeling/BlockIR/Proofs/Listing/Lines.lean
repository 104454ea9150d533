import BlockIR.Proofs.Listing.Lexing
import BlockIR.Text.Blank
import BlockIR.Text.Lines

namespace BlockIR

namespace Position

lemma after_line_of_not_mem {cs : List Char} (h : '\n' ∉ cs) (p : Position) : (p.after cs).line = p.line := by
  induction cs generalizing p with
  | nil => rfl
  | cons c cs ih =>
    obtain ⟨hc, hcs⟩ := not_or.1 (mt List.mem_cons.2 h)
    have hnext : (p.next c).line = p.line := by simp [next, Ne.symm hc]
    exact (ih hcs (p.next c)).trans hnext

lemma after_newline_line {cs : List Char} (h : '\n' ∉ cs) (p : Position) :
    (p.after (cs ++ ['\n'])).line = p.line + 1 := by
  rw [after_append]
  exact congrArg (· + 1) (after_line_of_not_mem h p)

end Position

namespace Text

lemma splitAt_of_not_mem {c : Char} {cs : List Char} (h : c ∉ cs) : splitAt c cs = [cs] := by
  induction cs with
  | nil => rfl
  | cons d cs ih =>
    obtain ⟨hd, hcs⟩ := not_or.1 (mt List.mem_cons.2 h)
    simp [splitAt, Ne.symm hd, ih hcs]

lemma splitAt_append {c : Char} {cs : List Char} (h : c ∉ cs) (ds : List Char) :
    splitAt c (cs ++ c :: ds) = cs :: splitAt c ds := by
  induction cs with
  | nil => simp [splitAt]
  | cons d cs ih =>
    obtain ⟨hd, hcs⟩ := not_or.1 (mt List.mem_cons.2 h)
    simp [splitAt, Ne.symm hd, ih hcs]

end Text

namespace Listing

lemma takeWhile_append_cons_of_neg {p : Char → Bool} {c : Char} (hc : p c = false) (as bs : List Char) :
    (as ++ c :: bs).takeWhile p = as.takeWhile p := by
  induction as with
  | nil => simp [hc]
  | cons a as ih => by_cases ha : p a <;> simp [ha, ih]

lemma takeWhile_append_of_mem {p : Char → Bool} {as : List Char} (h : ∃ a ∈ as, p a = false) (bs : List Char) :
    (as ++ bs).takeWhile p = as.takeWhile p := by
  induction as with
  | nil => simp at h
  | cons a as ih =>
    by_cases ha : p a
    · obtain ⟨b, hb, hpb⟩ := h
      rcases List.mem_cons.1 hb with rfl | hb
      · simp [ha] at hpb
      · simp [ha, ih ⟨b, hb, hpb⟩]
    · simp [ha]

namespace TokenKind

lemma lexeme_append_space {k : TokenKind} (hk : k.isIdle = false) {c : Char} (hc : isSpace c = true)
    (cs ds : List Char) : k.lexeme (cs ++ c :: ds) = k.lexeme cs := by
  have hother {k : TokenKind} (hk : k ≠ .blank) : k.opens c = false :=
    Bool.eq_false_iff.2 fun h => hk (opens_unique h hc)
  have hdigit : Decimal.isDigit c = false := (Bool.or_eq_false_iff.1 (hother (k := .int) (by decide))).2
  have hstart : isIdentStart c = false := hother (k := .ident) (by decide)
  have hpunctuation : isPunctuation c = false := hother (k := .punctuation) (by decide)
  have hrest : isIdentRest c = false := by
    have hdot : c ≠ '.' := by
      rintro rfl
      cases hc
    simp [isIdentRest, hstart, hdigit, hdot]
  cases k with
  | comment | blank => cases hk
  | int =>
    rcases cs with _ | ⟨a, cs⟩
    · have hminus : ∀ a ∈ (c :: ds).head?, a ≠ '-' := by
        rintro a ⟨⟩ rfl
        cases hc
      rw [List.nil_append, lexeme_int_of_ne hminus, List.takeWhile_cons_of_neg (by simp [hdigit])]
      rfl
    · by_cases ha : a = '-'
      · rw [ha, List.cons_append, lexeme_int_minus, lexeme_int_minus, takeWhile_append_cons_of_neg hdigit]
      · rw [List.cons_append, lexeme_int_of_ne (by simpa using ha), lexeme_int_of_ne (by simpa using ha),
          ← List.cons_append, takeWhile_append_cons_of_neg hdigit]
  | ident =>
    rcases cs with _ | ⟨a, cs⟩
    · simp [lexeme, hstart]
    · simp only [List.cons_append, lexeme, takeWhile_append_cons_of_neg hrest]
  | punctuation =>
    rcases cs with _ | ⟨a, cs⟩
    · simp [lexeme, hpunctuation]
    · rfl

lemma lexeme_append_newline {k : TokenKind} (hk : k ≠ .blank) (cs ds : List Char) :
    k.lexeme (cs ++ '\n' :: ds) = k.lexeme cs := by
  cases k with
  | comment =>
    rcases cs with _ | ⟨a, cs⟩
    · rfl
    · by_cases ha : a = '#'
      · rw [ha, List.cons_append, lexeme_comment_cons, lexeme_comment_cons,
          takeWhile_append_cons_of_neg (by decide)]
      · simp [lexeme, ha]
  | int | ident | punctuation => exact lexeme_append_space rfl rfl cs ds
  | blank => exact absurd rfl hk

lemma lexeme_blank_append {cs : List Char} (h : ∃ c ∈ cs, isSpace c = false) (ds : List Char) :
    lexeme .blank (cs ++ ds) = lexeme .blank cs :=
  takeWhile_append_of_mem h ds

lemma drop_lexeme_append (k : TokenKind) (cs ds : List Char) :
    (cs ++ ds).drop (k.lexeme cs).length = cs.drop (k.lexeme cs).length ++ ds :=
  List.drop_append_of_le_length (k.lexeme_isPrefix cs).length_le

lemma after_lexeme_append (k : TokenKind) (p : Position) (cs ds : List Char) :
    (p.after (k.lexeme cs)).after (cs.drop (k.lexeme cs).length ++ ds) = p.after (cs ++ ds) := by
  rw [← Position.after_append, ← List.append_assoc, List.prefix_iff_eq_append.1 (k.lexeme_isPrefix cs)]

lemma lexeme_carriageReturn {k : TokenKind} (hk : k.isIdle = true) {cs : List Char} (hn : '\n' ∉ cs)
    (hne : k.lexeme (cs ++ ['\r']) ≠ []) :
    k.lexeme (cs ++ ['\r']) = k.lexeme cs ∨ k.lexeme (cs ++ ['\r']) = cs ++ ['\r'] ∧ k.lexeme cs = cs := by
  cases k with
  | comment =>
    rcases cs with _ | ⟨a, cs⟩
    · exact absurd rfl hne
    · by_cases ha : a = '#'
      · have hcs : ∀ c ∈ cs, decide (c ≠ '\n') = true := fun c hc =>
          decide_eq_true fun h => hn (List.mem_cons_of_mem a (h ▸ hc))
        right
        rw [ha, List.cons_append, lexeme_comment_cons, lexeme_comment_cons, List.takeWhile_append_of_pos hcs,
          List.takeWhile_eq_self_iff.2 hcs]
        exact ⟨rfl, rfl⟩
      · simp [lexeme, ha] at hne
  | int | ident | punctuation => cases hk
  | blank =>
    by_cases hcs : ∀ c ∈ cs, isSpace c = true
    · right
      rw [lexeme, lexeme, List.takeWhile_append_of_pos hcs, List.takeWhile_eq_self_iff.2 hcs]
      exact ⟨rfl, rfl⟩
    · left
      exact lexeme_blank_append (by simpa using hcs) ['\r']

lemma mem_lexeme {k : TokenKind} (hk : k.isIdle = false) {c : Char} {cs : List Char}
    (h : c ∈ k.lexeme cs) : c = '-' ∨ isIdentRest c = true ∨ isPunctuation c = true ∧ k.lexeme cs = [c] := by
  have hdigit {cs : List Char} (h : c ∈ cs.takeWhile Decimal.isDigit) : isIdentRest c = true := by
    simp [isIdentRest, List.mem_takeWhile_imp h]
  cases k with
  | comment | blank => cases hk
  | int =>
    by_cases hc : ∃ ds, cs = '-' :: ds
    · obtain ⟨ds, rfl⟩ := hc
      rw [lexeme_int_minus] at h
      split at h
      · cases h
      · exact (List.mem_cons.1 h).imp_right fun h => .inl (hdigit h)
    · have hne : ∀ c ∈ cs.head?, c ≠ '-' := by
        rintro c hcs rfl
        exact hc (List.head?_eq_some_iff.1 hcs)
      rw [lexeme_int_of_ne hne] at h
      exact .inr (.inl (hdigit h))
  | ident =>
    rcases cs with _ | ⟨a, cs⟩
    · cases h
    · by_cases ha : isIdentStart a
      · rw [lexeme, if_pos ha] at h
        rcases List.mem_cons.1 h with rfl | h
        · exact .inr (.inl (by simp [isIdentRest, ha]))
        · exact .inr (.inl (List.mem_takeWhile_imp h))
      · simp [lexeme, ha] at h
  | punctuation =>
    rcases cs with _ | ⟨a, cs⟩
    · cases h
    · by_cases ha : isPunctuation a
      · have hl : lexeme .punctuation (a :: cs) = [a] := by simp [lexeme, ha]
        rw [hl] at h ⊢
        obtain rfl := List.mem_singleton.1 h
        exact .inr (.inr ⟨ha, rfl⟩)
      · simp [lexeme, ha] at h

lemma hash_not_mem_lexeme {k : TokenKind} (hk : k.isIdle = false) (cs : List Char) :
    '#' ∉ k.lexeme cs := by
  intro h
  rcases mem_lexeme hk h with h | h | ⟨h, -⟩ <;> exact absurd h (by decide)

lemma count_lexeme {k : TokenKind} (hk : k.isIdle = false) {b : Char} (hb : b ≠ '-')
    (hb' : isIdentRest b = false) (cs : List Char) :
    (k.lexeme cs).count b = if k.lexeme cs = [b] then 1 else 0 := by
  split
  · rename_i h
    simp [h]
  · rename_i h
    refine List.count_eq_zero.2 fun hmem => ?_
    rcases mem_lexeme hk hmem with hm | hm | ⟨-, hm⟩
    · exact hb hm
    · rw [hb'] at hm
      cases hm
    · exact h hm

lemma not_isBlank_of_mem_lexeme {k : TokenKind} (hk : k.isIdle = false) {c : Char} {cs : List Char}
    (h : c ∈ k.lexeme cs) : Text.isBlank c = false := by
  have heq (d : Char) : c = d ↔ c.toNat = d.toNat := Char.toNat_inj.symm
  rcases mem_lexeme hk h with rfl | h | ⟨h, -⟩
  · rfl
  · simp [isIdentRest, isIdentStart, Decimal.isDigit, char_le_iff, heq] at h
    simp [Text.isBlank]
    omega
  · simp [isPunctuation, heq] at h
    simp [Text.isBlank]
    omega

end TokenKind

lemma Lexes.eq_nil {ws : List (TokenKind × String)} (h : Lexes [] ws) : ws = [] := by
  cases h with
  | nil => rfl
  | @idle k _ _ _ hne _ | @busy k _ _ _ hne _ => cases k <;> exact absurd rfl hne

lemma Lexes.eq_nil_of_blank {cs : List Char} {ws : List (TokenKind × String)} (h : Lexes cs ws)
    (hb : ∀ c ∈ cs, Text.isBlank c = true) : ws = [] := by
  induction h with
  | nil => rfl
  | idle _ _ _ ih => exact ih fun c hc => hb c (List.mem_of_mem_drop hc)
  | @busy k cs ws hk hne _ _ =>
    obtain ⟨c, hc⟩ := List.exists_mem_of_ne_nil _ hne
    have hblank := hb c ((k.lexeme_isPrefix cs).subset hc)
    rw [TokenKind.not_isBlank_of_mem_lexeme hk hc] at hblank
    cases hblank

lemma Lexes.spaces {cs ds : List Char} {ws : List (TokenKind × String)} (hcs : ∀ c ∈ cs, isSpace c = true)
    (h : Lexes ds ws) : Lexes (cs ++ ds) ws := by
  induction cs with
  | nil => exact h
  | cons c cs ih =>
    obtain ⟨hc, hcs⟩ := List.forall_mem_cons.1 hcs
    exact (ih hcs).space hc

lemma Lexes.append_newline {cs ds : List Char} {us vs : List (TokenKind × String)} (hu : Lexes cs us)
    (hv : Lexes ds vs) : Lexes (cs ++ '\n' :: ds) (us ++ vs) := by
  induction hu with
  | nil => exact hv.space rfl
  | @idle k cs us hk hne _ ih =>
    by_cases hb : k = .blank
    · subst hb
      have hspaces : ∀ c ∈ TokenKind.lexeme .blank cs, isSpace c = true := fun _ => List.mem_takeWhile_imp
      rw [← List.prefix_iff_eq_append.1 (TokenKind.lexeme_isPrefix .blank cs), List.append_assoc]
      exact ih.spaces hspaces
    · have hl := TokenKind.lexeme_append_newline hb cs ds
      exact .idle hk (by rwa [hl]) (by rwa [hl, TokenKind.drop_lexeme_append])
  | @busy k cs us hk hne _ ih =>
    have hl := TokenKind.lexeme_append_space hk (c := '\n') rfl cs ds
    rw [List.cons_append, ← hl]
    exact .busy hk (by rwa [hl]) (by rwa [hl, TokenKind.drop_lexeme_append])

lemma Lexes.of_lexeme {k : TokenKind} {cs : List Char} (hk : k.isIdle = true) (h : k.lexeme cs = cs) :
    Lexes cs [] := by
  by_cases hcs : cs = []
  · rw [hcs]
    exact .nil
  · refine .idle hk (by rwa [h]) ?_
    rw [h, List.drop_length]
    exact .nil

lemma Lexes.of_carriageReturn {cs : List Char} {ws : List (TokenKind × String)} (hn : '\n' ∉ cs)
    (h : Lexes (cs ++ ['\r']) ws) : Lexes cs ws := by
  generalize hcr : cs ++ ['\r'] = ds at h
  induction h generalizing cs with
  | nil => simp at hcr
  | @idle k _ ws hk hne h ih =>
    subst hcr
    rcases TokenKind.lexeme_carriageReturn hk hn hne with hl | ⟨hl, hcs⟩
    · rw [hl, TokenKind.drop_lexeme_append] at ih
      rw [hl] at hne
      exact .idle hk hne (ih (fun h => hn (List.mem_of_mem_drop h)) rfl)
    · rw [hl, List.drop_length] at h
      rw [h.eq_nil]
      exact .of_lexeme hk hcs
  | @busy k _ ws hk hne h ih =>
    subst hcr
    have hl := TokenKind.lexeme_append_space hk (c := '\r') rfl cs []
    rw [hl, TokenKind.drop_lexeme_append] at ih
    rw [hl] at hne ⊢
    exact .busy hk hne (ih (fun h => hn (List.mem_of_mem_drop h)) rfl)

inductive LexesAt : Position → List Char → List Token → Prop
  | nil (p : Position) : LexesAt p [] []
  | idle {k : TokenKind} {p : Position} {cs : List Char} {ts : List Token} : k.isIdle = true →
      k.lexeme cs ≠ [] → LexesAt (p.after (k.lexeme cs)) (cs.drop (k.lexeme cs).length) ts → LexesAt p cs ts
  | busy {k : TokenKind} {p : Position} {cs : List Char} {ts : List Token} : k.isIdle = false →
      k.lexeme cs ≠ [] → LexesAt (p.after (k.lexeme cs)) (cs.drop (k.lexeme cs).length) ts →
      LexesAt p cs (⟨k, String.ofList (k.lexeme cs), p⟩ :: ts)

lemma lexesAt_scanFrom (p : Position) (cs : List Char) (h : (scanFrom TokenKind.all p cs).rest = []) :
    LexesAt p cs ((scanFrom TokenKind.all p cs).tokens.filter (!·.kind.isIdle)) := by
  induction p, cs using scanFrom.induct TokenKind.all with
  | case1 p cs hm =>
    rw [scanFrom_of_none hm] at h ⊢
    obtain rfl : cs = [] := h
    exact .nil p
  | case2 p cs k text hm ih =>
    obtain ⟨rfl, hne⟩ := firstMatch_eq_some hm
    rw [scanFrom_of_lexeme hne] at h ⊢
    cases hk : k.isIdle with
    | true => simpa [hk] using LexesAt.idle hk hne (ih h)
    | false => simpa [hk] using LexesAt.busy hk hne (ih h)

namespace LexesAt

variable {p : Position} {cs ds : List Char} {ts : List Token}

lemma lexes (h : LexesAt p cs ts) : Lexes cs (ts.map Token.word) := by
  induction h with
  | nil => exact .nil
  | idle hk hne _ ih => exact .idle hk hne ih
  | busy hk hne _ ih => exact .busy hk hne ih

lemma line (h : LexesAt p cs ts) (hn : '\n' ∉ cs) : ∀ t ∈ ts, t.start.line = p.line := by
  have hafter (k : TokenKind) {cs : List Char} (hn : '\n' ∉ cs) (p : Position) :
      (p.after (k.lexeme cs)).line = p.line :=
    Position.after_line_of_not_mem (fun h => hn ((k.lexeme_isPrefix cs).subset h)) p
  induction h with
  | nil => simp
  | @idle k p cs ts _ _ _ ih => simpa [hafter k hn p] using ih (fun h => hn (List.mem_of_mem_drop h))
  | @busy k p cs ts _ _ _ ih => simpa [hafter k hn p] using ih (fun h => hn (List.mem_of_mem_drop h))

lemma of_dropWhile_space (h : LexesAt (p.after (cs.takeWhile isSpace)) (cs.dropWhile isSpace) ts) :
    LexesAt p cs ts := by
  by_cases hcs : cs.takeWhile isSpace = []
  · have hdrop : cs.dropWhile isSpace = cs := by
      rw [← drop_length_takeWhile, hcs]
      rfl
    rwa [hcs, hdrop] at h
  · refine .idle (k := .blank) rfl hcs ?_
    rwa [TokenKind.lexeme, drop_length_takeWhile]

lemma split_newline (h : LexesAt p (cs ++ '\n' :: ds) ts) :
    ∃ us vs, ts = us ++ vs ∧ LexesAt p cs us ∧ LexesAt (p.after (cs ++ ['\n'])) ds vs := by
  generalize hall : cs ++ '\n' :: ds = all at h
  induction h generalizing cs with
  | nil => simp at hall
  | @idle k p _ ts hk hne h ih =>
    subst hall
    -- Only a token of blanks can go over the end of the line, if the rest of the line is blank.
    by_cases hspaces : k = .blank ∧ ∀ c ∈ cs, isSpace c = true
    · obtain ⟨rfl, hcs⟩ := hspaces
      have hl : TokenKind.lexeme .blank (cs ++ '\n' :: ds) = cs ++ ['\n'] ++ ds.takeWhile isSpace := by
        simp [TokenKind.lexeme, List.takeWhile_append_of_pos hcs, isSpace]
      have hdrop : (cs ++ '\n' :: ds).drop (cs ++ ['\n'] ++ ds.takeWhile isSpace).length = ds.dropWhile isSpace := by
        rw [← drop_length_takeWhile]
        simp
      rw [hl, hdrop, Position.after_append] at h
      have hnone : LexesAt p cs [] := by
        refine of_dropWhile_space ?_
        rw [List.dropWhile_eq_nil_iff.2 hcs]
        exact .nil _
      exact ⟨[], ts, rfl, hnone, h.of_dropWhile_space⟩
    · have hl : k.lexeme (cs ++ '\n' :: ds) = k.lexeme cs := by
        by_cases hb : k = .blank
        · subst hb
          exact TokenKind.lexeme_blank_append (by simpa using hspaces) _
        · exact TokenKind.lexeme_append_newline hb cs ds
      rw [hl, TokenKind.drop_lexeme_append] at ih
      obtain ⟨us, vs, rfl, hu, hv⟩ := ih rfl
      rw [hl] at hne
      exact ⟨us, vs, rfl, .idle hk hne hu, TokenKind.after_lexeme_append k p cs _ ▸ hv⟩
  | @busy k p _ ts hk hne h ih =>
    subst hall
    have hl := TokenKind.lexeme_append_space hk (c := '\n') rfl cs ds
    rw [hl, TokenKind.drop_lexeme_append] at ih
    obtain ⟨us, vs, rfl, hu, hv⟩ := ih rfl
    rw [hl] at hne ⊢
    exact ⟨_ :: us, vs, rfl, .busy hk hne hu, TokenKind.after_lexeme_append k p cs _ ▸ hv⟩

end LexesAt

inductive Lined : Nat → List (List Char) → List Token → Prop
  | nil (n : Nat) : Lined n [] []
  | cons {n : Nat} {cs : List Char} {rest : List (List Char)} {us vs : List Token} : '\n' ∉ cs →
      Lexes cs (us.map Token.word) → (∀ t ∈ us, t.start.line = n) → Lined (n + 1) rest vs →
      Lined n (cs :: rest) (us ++ vs)

lemma LexesAt.lined {p : Position} {cs : List Char} {ts : List Token} (h : LexesAt p cs ts) :
    Lined p.line (Text.splitAt '\n' cs) ts := by
  induction hlen : cs.length using Nat.strong_induction_on generalizing p cs ts with
  | _ n ih =>
    by_cases hn : '\n' ∈ cs
    · obtain ⟨as, bs, rfl, has⟩ := List.eq_append_cons_of_mem hn
      obtain ⟨us, vs, rfl, hu, hv⟩ := h.split_newline
      have hrest := ih bs.length (by simp [← hlen]; omega) hv rfl
      rw [Position.after_newline_line has] at hrest
      rw [Text.splitAt_append has]
      exact .cons has hu.lexes (hu.line has) hrest
    · rw [Text.splitAt_of_not_mem hn, ← List.append_nil ts]
      exact .cons hn h.lexes (h.line hn) (.nil _)

namespace Lined

variable {n : Nat} {as bs : List (List Char)} {us vs ts : List Token}

lemma append (hu : Lined n as us) (hv : Lined (n + as.length) bs vs) : Lined n (as ++ bs) (us ++ vs) := by
  induction hu with
  | nil => exact hv
  | @cons n cs rest us' vs' hcs hu' hline _ ih =>
    have hrest := ih (by rwa [List.length_cons, ← Nat.add_assoc, Nat.add_right_comm] at hv)
    rw [List.append_assoc]
    exact .cons hcs hu' hline hrest

lemma line (h : Lined n as ts) : ∀ t ∈ ts, n ≤ t.start.line ∧ t.start.line < n + as.length := by
  induction h with
  | nil => simp
  | cons _ _ hline _ ih =>
    intro t ht
    rw [List.length_cons]
    rcases List.mem_append.1 ht with ht | ht
    · have := hline t ht
      omega
    · have := ih t ht
      omega

lemma of_concat_nil (h : Lined n (as ++ [[]]) ts) : Lined n as ts := by
  induction as generalizing n ts with
  | nil =>
    cases h with
    | cons _ hu _ hv =>
      cases hv with
      | nil =>
        rw [List.map_eq_nil_iff.1 hu.eq_nil]
        exact .nil n
  | cons cs rest ih =>
    cases h with
    | cons hcs hu hline hv => exact .cons hcs hu hline (ih hv)

end Lined

end Listing

end BlockIR
