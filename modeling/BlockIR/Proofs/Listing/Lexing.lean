import BlockIR.Listing.Cursor
import Mathlib.Tactic.Lemma
import Mathlib.Tactic.Common
import Mathlib.Data.List.TakeWhile

/-! What the scanner makes of a text. The first character decides the kind of a token, so it does not
matter in which order kinds are tried, and a text can be taken apart from the left as long as no token
goes on into what follows it. -/

namespace BlockIR.Listing

lemma char_le_iff {c d : Char} : c ≤ d ↔ c.toNat ≤ d.toNat := by
  rw [Char.le_def, UInt32.le_iff_toNat_le]
  rfl

namespace TokenKind

def opens : TokenKind → Char → Bool
  | comment, c => c = '#'
  | int, c => c = '-' || Decimal.isDigit c
  | ident, c => isIdentStart c
  | punctuation, c => isPunctuation c
  | blank, c => isSpace c

lemma opens_of_lexeme {k : TokenKind} {c : Char} {cs : List Char} (h : k.lexeme (c :: cs) ≠ []) :
    k.opens c = true := by
  cases k with
  | comment =>
    by_cases hc : c = '#'
    · simp [opens, hc]
    · simp [lexeme, hc] at h
  | int =>
    by_cases hc : c = '-'
    · simp [opens, hc]
    · have hl : lexeme .int (c :: cs) = (c :: cs).takeWhile Decimal.isDigit := by simp [lexeme, hc]
      rw [hl, List.takeWhile_cons] at h
      split at h
      · rename_i hd
        simp [opens, hd]
      · exact absurd rfl h
  | ident | punctuation =>
    simp only [lexeme] at h
    split at h
    · assumption
    · exact absurd rfl h
  | blank =>
    simp only [lexeme, List.takeWhile_cons] at h
    split at h
    · assumption
    · exact absurd rfl h

lemma opens_unique {k k' : TokenKind} {c : Char} (h : k.opens c = true) (h' : k'.opens c = true) :
    k = k' := by
  have heq (d : Char) : c = d ↔ c.toNat = d.toNat := Char.toNat_inj.symm
  cases k <;> cases k' <;> first
    | rfl
    | simp [opens, isIdentStart, isPunctuation, isSpace, Decimal.isDigit, char_le_iff, heq] at h h'
      omega

lemma lexeme_comment_cons (cs : List Char) : lexeme .comment ('#' :: cs) = '#' :: cs.takeWhile (· ≠ '\n') := rfl

lemma lexeme_int_minus (cs : List Char) :
    lexeme .int ('-' :: cs) =
      if cs.takeWhile Decimal.isDigit = [] then [] else '-' :: cs.takeWhile Decimal.isDigit := by
  simp only [lexeme]
  split <;> simp_all

lemma lexeme_int_of_ne {cs : List Char} (h : ∀ c ∈ cs.head?, c ≠ '-') :
    lexeme .int cs = cs.takeWhile Decimal.isDigit := by
  cases cs with
  | nil => rfl
  | cons c cs =>
    have hc : c ≠ '-' := h c rfl
    simp [lexeme, hc]

lemma lexeme_lexeme (k : TokenKind) (cs : List Char) : k.lexeme (k.lexeme cs) = k.lexeme cs := by
  cases k with
  | comment =>
    rcases cs with _ | ⟨c, cs⟩
    · rfl
    · by_cases hc : c = '#'
      · rw [hc, lexeme_comment_cons, lexeme_comment_cons, List.takeWhile_idem]
      · have hn : lexeme .comment (c :: cs) = [] := by simp [lexeme, hc]
        rw [hn]
        rfl
  | int =>
    by_cases hc : ∃ ds, cs = '-' :: ds
    · obtain ⟨ds, rfl⟩ := hc
      rw [lexeme_int_minus]
      split
      · rfl
      · rw [lexeme_int_minus, List.takeWhile_idem, if_neg ‹_›]
    · have hne : ∀ c ∈ cs.head?, c ≠ '-' := by
        rintro c hcs rfl
        exact hc (List.head?_eq_some_iff.1 hcs)
      have hne' : ∀ c ∈ (cs.takeWhile Decimal.isDigit).head?, c ≠ '-' := by
        rintro c hcs rfl
        exact absurd (List.mem_takeWhile_imp (List.mem_of_mem_head? hcs)) (by decide)
      rw [lexeme_int_of_ne hne, lexeme_int_of_ne hne', List.takeWhile_idem]
  | ident =>
    rcases cs with _ | ⟨c, cs⟩
    · rfl
    · by_cases hc : isIdentStart c
      · simp only [lexeme, hc, if_true, List.takeWhile_idem]
      · simp [lexeme, hc]
  | punctuation =>
    rcases cs with _ | ⟨c, cs⟩
    · rfl
    · by_cases hc : isPunctuation c <;> simp [lexeme, hc]
  | blank => exact List.takeWhile_idem

lemma lexeme_unique {k k' : TokenKind} {cs : List Char} (h : k.lexeme cs ≠ []) (h' : k'.lexeme cs ≠ []) :
    k = k' := by
  cases cs with
  | nil => cases k <;> exact absurd rfl h
  | cons c cs => exact opens_unique (opens_of_lexeme h) (opens_of_lexeme h')

end TokenKind

lemma scanFrom_of_none {kinds : List TokenKind} {cs : List Char} (h : firstMatch kinds cs = none) (p : Position) :
    scanFrom kinds p cs = ⟨[], p, cs⟩ := by
  rw [scanFrom]
  split
  · rfl
  · rename_i hs
    rw [h] at hs
    cases hs

lemma scanFrom_of_some {kinds : List TokenKind} {cs text : List Char} {k : TokenKind}
    (h : firstMatch kinds cs = some (k, text)) (p : Position) : scanFrom kinds p cs =
      let s := scanFrom kinds (p.after text) (cs.drop text.length)
      { s with tokens := ⟨k, String.ofList text, p⟩ :: s.tokens } := by
  rw [scanFrom]
  split
  · rename_i hn
    rw [h] at hn
    cases hn
  · rename_i hs
    rw [h] at hs
    cases hs
    rfl

lemma firstMatch_iff {kinds : List TokenKind} (hall : ∀ k, k ∈ kinds) {cs text : List Char} {k : TokenKind} :
    firstMatch kinds cs = some (k, text) ↔ k.lexeme cs = text ∧ text ≠ [] := by
  constructor
  · intro h
    obtain ⟨ht, hne⟩ := firstMatch_eq_some h
    exact ⟨ht.symm, hne⟩
  · rintro ⟨rfl, hne⟩
    have hs : (firstMatch kinds cs).isSome := by
      rw [firstMatch, List.findSome?_isSome_iff]
      refine ⟨k, hall k, ?_⟩
      split
      · contradiction
      · rfl
    obtain ⟨⟨k', text⟩, hk⟩ := Option.isSome_iff_exists.1 hs
    obtain ⟨rfl, hne'⟩ := firstMatch_eq_some hk
    rw [hk, TokenKind.lexeme_unique hne hne']

lemma TokenKind.mem_all (k : TokenKind) : k ∈ all := by
  cases k <;> decide

lemma firstMatch_all {cs text : List Char} {k : TokenKind} :
    firstMatch TokenKind.all cs = some (k, text) ↔ k.lexeme cs = text ∧ text ≠ [] :=
  firstMatch_iff TokenKind.mem_all

lemma drop_length_takeWhile {α : Type} (p : α → Bool) (as : List α) :
    as.drop (as.takeWhile p).length = as.dropWhile p := by
  induction as with
  | nil => rfl
  | cons a as ih => by_cases ha : p a <;> simp [ha, ih]

def Token.word (t : Token) : TokenKind × String :=
  (t.kind, t.text)

inductive Lexes : List Char → List (TokenKind × String) → Prop
  | nil : Lexes [] []
  | idle {k : TokenKind} {cs : List Char} {ws : List (TokenKind × String)} : k.isIdle = true →
      k.lexeme cs ≠ [] → Lexes (cs.drop (k.lexeme cs).length) ws → Lexes cs ws
  | busy {k : TokenKind} {cs : List Char} {ws : List (TokenKind × String)} : k.isIdle = false →
      k.lexeme cs ≠ [] → Lexes (cs.drop (k.lexeme cs).length) ws →
      Lexes cs ((k, String.ofList (k.lexeme cs)) :: ws)

lemma scanFrom_of_lexeme {k : TokenKind} {cs : List Char} (h : k.lexeme cs ≠ []) (p : Position) :
    scanFrom TokenKind.all p cs =
      let s := scanFrom TokenKind.all (p.after (k.lexeme cs)) (cs.drop (k.lexeme cs).length)
      { s with tokens := ⟨k, String.ofList (k.lexeme cs), p⟩ :: s.tokens } :=
  scanFrom_of_some (firstMatch_all.2 ⟨rfl, h⟩) p

lemma Lexes.scanFrom {cs : List Char} {ws : List (TokenKind × String)} (h : Lexes cs ws) (p : Position) :
    (scanFrom TokenKind.all p cs).rest = [] ∧
      ((scanFrom TokenKind.all p cs).tokens.filter (!·.kind.isIdle)).map Token.word = ws := by
  induction h generalizing p with
  | nil =>
    rw [scanFrom_of_none rfl]
    exact ⟨rfl, rfl⟩
  | @idle k cs ws hk hne _ ih =>
    rw [scanFrom_of_lexeme hne]
    simpa [hk] using ih (p.after (k.lexeme cs))
  | @busy k cs ws hk hne _ ih =>
    rw [scanFrom_of_lexeme hne]
    simpa [hk, Token.word] using ih (p.after (k.lexeme cs))

lemma lexemesFrom_token (lead : Option Position) (ts : List Token) :
    (lexemesFrom lead ts).map (·.token) = ts.filter (!·.kind.isIdle) := by
  induction ts generalizing lead with
  | nil => rfl
  | cons t ts ih => by_cases ht : t.kind.isIdle <;> simp [lexemesFrom, ht, ih]

lemma Lexes.space {c : Char} {cs : List Char} {ws : List (TokenKind × String)} (hc : isSpace c = true)
    (h : Lexes cs ws) : Lexes (c :: cs) ws := by
  -- Blanks at the front of `cs` become part of the new token.
  have hdrop : Lexes (cs.dropWhile isSpace) ws := by
    cases cs with
    | nil => exact h
    | cons d ds =>
      by_cases hd : isSpace d = true
      · have hb : TokenKind.blank.lexeme (d :: ds) ≠ [] := by simp [TokenKind.lexeme, hd]
        cases h with
        | idle _ hne h =>
          obtain rfl := TokenKind.lexeme_unique hne hb
          rwa [TokenKind.lexeme, drop_length_takeWhile] at h
        | busy hk hne _ =>
          obtain rfl := TokenKind.lexeme_unique hne hb
          cases hk
      · rwa [List.dropWhile_cons_of_neg hd]
  refine .idle (k := .blank) rfl (by simp [TokenKind.lexeme, hc]) ?_
  rw [TokenKind.lexeme, drop_length_takeWhile, List.dropWhile_cons_of_pos hc]
  exact hdrop

lemma Lexes.token {k : TokenKind} {text cs : List Char} {ws : List (TokenKind × String)}
    (hk : k.isIdle = false) (hl : k.lexeme (text ++ cs) = text) (hne : text ≠ []) (h : Lexes cs ws) :
    Lexes (text ++ cs) ((k, String.ofList text) :: ws) := by
  have hne' : k.lexeme (text ++ cs) ≠ [] := by rwa [hl]
  have hdrop : Lexes ((text ++ cs).drop (k.lexeme (text ++ cs)).length) ws := by rwa [hl, List.drop_left]
  simpa only [hl] using Lexes.busy hk hne' hdrop

structure Lexeme.Proper (l : Lexeme) : Prop where
  busy : l.token.kind.isIdle = false
  whole : l.token.kind.lexeme l.token.text.toList = l.token.text.toList
  nonempty : l.token.text.toList ≠ []

lemma scanFrom_whole (kinds : List TokenKind) (p : Position) (cs : List Char) :
    ∀ t ∈ (scanFrom kinds p cs).tokens,
      t.kind.lexeme t.text.toList = t.text.toList ∧ t.text.toList ≠ [] := by
  induction p, cs using scanFrom.induct kinds with
  | case1 p cs h =>
    rw [scanFrom_of_none h]
    simp
  | case2 p cs k text h ih =>
    rw [scanFrom_of_some h]
    obtain ⟨rfl, hne⟩ := firstMatch_eq_some h
    refine List.forall_mem_cons.2 ⟨?_, ih⟩
    simpa [TokenKind.lexeme_lexeme] using hne

lemma token_of_mem_lexemes {l : Lexeme} {ts : List Token} (h : l ∈ lexemes ts) :
    l.token ∈ ts ∧ l.token.kind.isIdle = false := by
  have ht : l.token ∈ ts.filter (!·.kind.isIdle) := by
    rw [← lexemesFrom_token none]
    exact List.mem_map_of_mem h
  obtain ⟨hmem, hidle⟩ := List.mem_filter.1 ht
  exact ⟨hmem, by simpa using hidle⟩

lemma lexemes_proper (source : String) : ∀ l ∈ lexemes (scan source).tokens, l.Proper := by
  intro l hl
  obtain ⟨hmem, hidle⟩ := token_of_mem_lexemes hl
  obtain ⟨hwhole, hne⟩ := scanFrom_whole _ _ _ _ hmem
  exact ⟨hidle, hwhole, hne⟩

namespace Lexeme.Proper

variable {l : Lexeme} {k : TokenKind} {s : String}

lemma kind (h : l.Proper) (hk : k.lexeme l.token.text.toList ≠ []) : l.token.kind = k := by
  refine TokenKind.lexeme_unique ?_ hk
  rw [h.whole]
  exact h.nonempty

lemma opens (h : l.Proper) {c : Char} (hc : l.token.text.toList.head? = some c) : l.token.kind.opens c = true := by
  obtain ⟨cs, hcs⟩ := List.head?_eq_some_iff.1 hc
  have hne : l.token.kind.lexeme (c :: cs) ≠ [] := by
    rw [← hcs, h.whole]
    exact h.nonempty
  exact TokenKind.opens_of_lexeme hne

end Lexeme.Proper

end BlockIR.Listing
