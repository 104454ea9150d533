import BlockIR.Proofs.Listing.Places
import Mathlib.Data.List.DropRight

/-! Scanning loses nothing. The tokens are the text up to where the scan stops, each place counts what is before it,
and the order in which kinds are tried does not matter. Other characters than those of ASCII stand only in comments,
which take the rest of their line, so before any other token the units of a line are as many as its characters. -/

namespace BlockIR

namespace Text

def lastLine (cs : List Char) : List Char :=
  cs.rtakeWhile (· ≠ '\n')

lemma lastLine_append_of_not_mem (us : List Char) {vs : List Char} (h : '\n' ∉ vs) :
    lastLine (us ++ vs) = lastLine us ++ vs := by
  induction vs using List.reverseRecOn with
  | nil => simp
  | append_singleton vs v ih =>
    obtain ⟨hvs, hv⟩ := not_or.1 (mt List.mem_append.2 h)
    have hne : v ≠ '\n' := fun heq => hv (by simp [heq])
    rw [← List.append_assoc, lastLine, List.rtakeWhile_concat_pos _ _ _ (by simpa using hne), ← List.append_assoc,
      ← ih hvs]
    rfl

lemma lastLine_append_of_mem (us : List Char) {vs : List Char} (h : '\n' ∈ vs) :
    lastLine (us ++ vs) = lastLine vs := by
  induction vs using List.reverseRecOn with
  | nil => cases h
  | append_singleton vs v ih =>
    rw [← List.append_assoc, lastLine, lastLine, List.rtakeWhile_concat, List.rtakeWhile_concat]
    split
    · rename_i hv
      have hvs : '\n' ∈ vs := (List.mem_append.1 h).resolve_right fun heq => by
        simp [← List.mem_singleton.1 heq] at hv
      exact congrArg (· ++ [v]) (ih hvs)
    · rfl

def utf16Size : List Char → Nat
  | [] => 0
  | c :: cs => (if c.toNat < 0x10000 then 1 else 2) + utf16Size cs

structure Even (cs : List Char) : Prop where
  bytes : (String.ofList cs).utf8ByteSize = cs.length
  units : utf16Size cs = cs.length

lemma even_of_ascii {cs : List Char} (h : ∀ c ∈ cs, c.toNat ≤ 127) : Even cs := by
  refine ⟨utf8ByteSize_of_ascii h, ?_⟩
  induction cs with
  | nil => rfl
  | cons c cs ih =>
    obtain ⟨hc, hcs⟩ := List.forall_mem_cons.1 h
    rw [utf16Size, if_pos (by omega), ih hcs, List.length_cons, Nat.add_comm]

end Text

structure Position.Behind (p : Position) (cs : List Char) : Prop where
  offset : p.offset = (String.ofList cs).utf8ByteSize
  line : p.line = 1 + cs.count '\n'
  column : p.column = 1 + (Text.lastLine cs).length

lemma Position.behind_after (cs : List Char) : (start.after cs).Behind cs := by
  induction cs using List.reverseRecOn with
  | nil => exact ⟨rfl, rfl, rfl⟩
  | append_singleton cs c ih =>
    have hnext : start.after (cs ++ [c]) = (start.after cs).next c := after_append start cs [c]
    have hbytes : (String.ofList (cs ++ [c])).utf8ByteSize = (String.ofList cs).utf8ByteSize + c.utf8Size := by
      rw [String.ofList_append, String.utf8ByteSize_append, ← String.singleton_eq_ofList,
        String.utf8ByteSize_singleton]
    by_cases hc : c = '\n'
    · subst hc
      have hline : Text.lastLine (cs ++ ['\n']) = [] := Text.lastLine_append_of_mem cs (List.mem_singleton_self _)
      rw [hnext, next, if_pos rfl]
      exact ⟨by rw [hbytes, ih.offset]; rfl, by simp [ih.line, Nat.add_assoc], by rw [hline]; rfl⟩
    · have hline : Text.lastLine (cs ++ [c]) = Text.lastLine cs ++ [c] :=
        Text.lastLine_append_of_not_mem cs (by simpa using Ne.symm hc)
      rw [hnext, next, if_neg hc]
      exact ⟨by rw [hbytes, ih.offset], by simp [ih.line, hc], by rw [hline, ih.column]; simp [Nat.add_assoc]⟩

namespace Listing

section Order

variable {kinds : List TokenKind} (hall : ∀ k, k ∈ kinds)

include hall

lemma firstMatch_eq_all (cs : List Char) : firstMatch kinds cs = firstMatch TokenKind.all cs := by
  refine Option.ext fun ⟨k, text⟩ => ?_
  rw [firstMatch_iff hall, firstMatch_all]

lemma scanFrom_eq_all (p : Position) (cs : List Char) : scanFrom kinds p cs = scanFrom TokenKind.all p cs := by
  induction p, cs using scanFrom.induct kinds with
  | case1 p cs h => rw [scanFrom_of_none h, scanFrom_of_none (firstMatch_eq_all hall cs ▸ h)]
  | case2 p cs k text h ih =>
    have h' := h
    rw [firstMatch_eq_all hall] at h'
    rw [scanFrom_of_some h, scanFrom_of_some h', ih]

end Order

/-- Of a text `us` with `cs` after it, the line it ends in is of ASCII characters or has come to its end. -/
def Clear (us cs : List Char) : Prop :=
  (∀ c ∈ Text.lastLine us, c.toNat ≤ 127) ∨ ∀ c ∈ cs.head?, c = '\n'

namespace Clear

variable {us cs : List Char} {k : TokenKind}

lemma ascii (h : Clear us cs) (hne : cs ≠ []) (hblank : cs.head? ≠ some '\n') :
    ∀ c ∈ Text.lastLine us, c.toNat ≤ 127 := by
  refine h.resolve_right fun hend => ?_
  obtain ⟨c, cs, rfl⟩ := List.exists_cons_of_ne_nil hne
  exact hblank (congrArg some (hend c rfl))

lemma ascii_of_lexeme (h : Clear us cs) (hl : k.lexeme cs ≠ []) (hk : k ≠ .blank) :
    ∀ c ∈ Text.lastLine us, c.toNat ≤ 127 := by
  refine h.ascii ?_ fun hhead => hk ?_
  · rintro rfl
    cases k <;> exact absurd rfl hl
  · obtain ⟨ds, rfl⟩ := List.head?_eq_some_iff.1 hhead
    exact TokenKind.lexeme_unique hl (by simp [TokenKind.lexeme, isSpace])

lemma step (h : Clear us cs) (hl : k.lexeme cs ≠ []) :
    Clear (us ++ k.lexeme cs) (cs.drop (k.lexeme cs).length) := by
  have hbusy (hidle : k.isIdle = false) : Clear (us ++ k.lexeme cs) (cs.drop (k.lexeme cs).length) := by
    have hnewline : '\n' ∉ k.lexeme cs := fun hmem =>
      absurd (TokenKind.not_isBlank_of_mem_lexeme hidle hmem) (by decide)
    have hblank : k ≠ .blank := by
      rintro rfl
      cases hidle
    left
    rw [Text.lastLine_append_of_not_mem us hnewline]
    exact List.forall_mem_append.2
      ⟨h.ascii_of_lexeme hl hblank, fun c hc => TokenKind.toNat_le_of_mem_lexeme hidle hc⟩
  cases k with
  | int | ident | punctuation => exact hbusy rfl
  | comment =>
    -- What comes next is the end of the line.
    right
    rcases cs with _ | ⟨c, cs⟩
    · exact absurd rfl hl
    · by_cases hc : c = '#'
      · subst hc
        rw [TokenKind.lexeme_comment_cons, List.length_cons, List.drop_succ_cons, drop_length_takeWhile]
        intro d hd
        have hhead := List.head?_dropWhile_not (fun c => decide (c ≠ '\n')) cs
        rw [hd] at hhead
        simpa using hhead
      · simp [TokenKind.lexeme, hc] at hl
  | blank =>
    have hspace : ∀ c ∈ TokenKind.lexeme .blank cs, c.toNat ≤ 127 := by
      intro c hc
      have hs : isSpace c = true := List.mem_takeWhile_imp hc
      have heq (d : Char) : c = d ↔ c.toNat = d.toNat := Char.toNat_inj.symm
      simp [isSpace, heq] at hs
      omega
    left
    by_cases hnewline : '\n' ∈ TokenKind.lexeme .blank cs
    · rw [Text.lastLine_append_of_mem us hnewline]
      exact fun c hc => hspace c ((List.rtakeWhile_suffix _ _).subset hc)
    · -- The blanks stand in the line that was there before.
      have hne : cs ≠ [] := by
        rintro rfl
        exact hl rfl
      have hhead : cs.head? ≠ some '\n' := by
        intro hhead
        obtain ⟨ds, rfl⟩ := List.head?_eq_some_iff.1 hhead
        exact hnewline (by simp [TokenKind.lexeme, isSpace])
      rw [Text.lastLine_append_of_not_mem us hnewline]
      exact List.forall_mem_append.2 ⟨h.ascii hne hhead, hspace⟩

end Clear

lemma scanFrom_clear (kinds : List TokenKind) (p : Position) (cs : List Char) {us : List Char} (h : Clear us cs) :
    (∀ as t bs, (scanFrom kinds p cs).tokens = as ++ t :: bs → t.kind ≠ .blank →
      ∀ c ∈ Text.lastLine (us ++ as.flatMap (·.text.toList)), c.toNat ≤ 127) ∧
    Clear (us ++ (scanFrom kinds p cs).tokens.flatMap (·.text.toList)) (scanFrom kinds p cs).rest := by
  induction p, cs using scanFrom.induct kinds generalizing us with
  | case1 p cs hm =>
    rw [scanFrom_of_none hm]
    refine ⟨fun as t bs hts => ?_, by simpa using h⟩
    simp at hts
  | case2 p cs k text hm ih =>
    rw [scanFrom_of_some hm]
    obtain ⟨rfl, hne⟩ := firstMatch_eq_some hm
    obtain ⟨htokens, hrest⟩ := ih (h.step hne)
    refine ⟨fun as t bs hts hk => ?_, ?_⟩
    · rcases as with _ | ⟨a, as⟩
      · obtain ⟨rfl, _⟩ := List.cons.inj hts
        simpa using h.ascii_of_lexeme hne hk
      · obtain ⟨rfl, htail⟩ := List.cons.inj hts
        simpa using htokens as t bs htail hk
    · simpa using hrest

/-- The tokens of a source are its text up to where no kind of token fits any more, at the places that their text
has, whatever the order of the kinds. In the line before a token that is not blank, or before a place where the scan
fails, there are as many bytes and as many 16-bit units as characters. -/
theorem scan_lossless (source : String) {kinds : List TokenKind} (hkinds : kinds.Perm TokenKind.all) :
    let s := scanFrom kinds .start source.toList
    let text (ts : List Token) := ts.flatMap (·.text.toList)
    s = scan source ∧ s.tokens.length ≤ source.length ∧
    text s.tokens ++ s.rest = source.toList ∧ (∀ k : TokenKind, k.lexeme s.rest = []) ∧
    s.stop.Behind (text s.tokens) ∧ (s.rest ≠ [] → Text.Even (Text.lastLine (text s.tokens))) ∧
    ∀ as t bs, s.tokens = as ++ t :: bs →
      t.start.Behind (text as) ∧ (t.kind ≠ .blank → Text.Even (Text.lastLine (text as))) := by
  intro s text
  have hall : ∀ k, k ∈ kinds := fun k => hkinds.mem_iff.2 k.mem_all
  have hscan : s = scan source := scanFrom_eq_all hall .start source.toList
  have hnone : ∀ k : TokenKind, k.lexeme s.rest = [] := by
    intro k
    by_contra hne
    have hsome := (firstMatch_iff hall).2 ⟨rfl, hne⟩
    rw [scanFrom_rest kinds .start source.toList] at hsome
    cases hsome
  have hclear : Clear [] source.toList := .inl (by simp [Text.lastLine])
  obtain ⟨htokens, hrest⟩ := scanFrom_clear kinds .start source.toList hclear
  refine ⟨hscan, hscan ▸ length_tokens_le source, scanFrom_text kinds .start source.toList, hnone, ?_, fun hne => ?_,
    fun as t bs hts => ⟨?_, fun hk => ?_⟩⟩
  · rw [show s.stop = _ from scanFrom_stop kinds .start source.toList]
    exact Position.behind_after _
  · refine Text.even_of_ascii (hrest.ascii hne fun hhead => ?_)
    obtain ⟨cs, hcs⟩ := List.head?_eq_some_iff.1 hhead
    have hblank := hnone .blank
    rw [hcs] at hblank
    simp [TokenKind.lexeme, isSpace] at hblank
  · rw [(hts ▸ scanFrom_laid kinds .start source.toList : Laid .start (as ++ t :: bs)).start_eq]
    exact Position.behind_after _
  · exact Text.even_of_ascii (htokens as t bs hts hk)

theorem scan_lossless_stray :
    let kinds : List TokenKind := [.blank, .punctuation, .ident, .int, .comment]
    let source := "x # ü😀\n  y:-07\n\t!"
    kinds.Perm TokenKind.all ∧
    (scan source).tokens.map (fun t => (t.text, t.start)) =
      [("x", ⟨1, 1, 0⟩), (" ", ⟨1, 2, 1⟩), ("# ü😀", ⟨1, 3, 2⟩), ("\n  ", ⟨1, 7, 10⟩), ("y", ⟨2, 3, 13⟩),
        (":", ⟨2, 4, 14⟩), ("-07", ⟨2, 5, 15⟩), ("\n\t", ⟨2, 8, 18⟩)] ∧
    (scan source).stop = ⟨3, 2, 20⟩ ∧ (scan source).rest = ['!'] ∧
    scanFrom kinds .start source.toList = scan source ∧
    (scan source).stop.Behind ((scan source).tokens.flatMap (·.text.toList)) ∧
    Text.Even (Text.lastLine ((scan source).tokens.flatMap (·.text.toList))) := by
  intro kinds source
  have hkinds : kinds.Perm TokenKind.all := by decide
  have hrest : (scan source).rest = ['!'] := by decide +kernel
  obtain ⟨hscan, _, _, _, hstop, heven, _⟩ := scan_lossless source hkinds
  rw [hscan] at hstop heven
  exact ⟨hkinds, by decide +kernel, by decide +kernel, hrest, hscan, hstop, heven (by simp [hrest])⟩

end Listing

end BlockIR
