import BlockIR.Proofs.Listing.Acceptance
import BlockIR.Proofs.Listing.Relocation
import BlockIR.Proofs.Program.RoundTrip
import BlockIR.Proofs.Repl.Buffer

/-! Feeding a source line by line agrees with reading it at once. At the end of each line the counted braces
tell whether a body is open, so the groups of lines hold whole functions, and these mean in a group what they
mean in the source. -/

namespace BlockIR

namespace Listing

open Phrase

structure IsDerivation (source : String) (d : Phrase.program.Derivation) : Prop where
  tokens : Phrase.program.yield d = (scan source).tokens.filter (!·.kind.isIdle)
  truthFirst : ∀ o ∈ operands d, TruthFirst o

lemma IsDerivation.whole {source : String} {d : Phrase.program.Derivation} (h : IsDerivation source d) :
    ∀ t ∈ Phrase.program.yield d, t.Whole := by
  rw [h.tokens]
  exact fun t ht => scanFrom_whole _ _ _ t (List.mem_filter.1 ht).1

def StandsFor (f : function.Derivation) (g : BlockIR.Func) : Prop :=
  ∃ x : Func, (∃ w, function.Derives f w ∧ IsFunc w x) ∧ x.Means g

lemma exists_derivation {w : List Lexeme} {xs : List Func} (h : Many IsFunc w xs) :
    ∃ d : Phrase.program.Derivation, Phrase.program.Derives d w ∧ (∀ o ∈ operands d, TruthFirst o) ∧
      List.Forall₂ (fun f x => ∃ w, function.Derives f w ∧ IsFunc w x) d xs := by
  induction h with
  | nil => exact ⟨[], rfl, by simp [operands], .nil⟩
  | cons hx _ ih =>
    obtain ⟨f, hf, ho, _⟩ := function_agrees.derived _ _ hx
    obtain ⟨d, hd, ho', hxs⟩ := ih
    refine ⟨f :: d, derives_cons.2 ⟨_, _, rfl, hf, hd⟩, ?_, .cons ⟨_, hf, hx⟩ hxs⟩
    rw [operands, List.flatMap_cons]
    exact List.forall_mem_append.2 ⟨fun o h => (ho o h).2, ho'⟩

lemma many_of_derivation {d : Phrase.program.Derivation} {xs : List Func}
    (h : List.Forall₂ (fun f x => ∃ w, function.Derives f w ∧ IsFunc w x) d xs) :
    ∃ w, Phrase.program.Derives d w ∧ Many IsFunc w xs := by
  induction h with
  | nil => exact ⟨[], rfl, .nil⟩
  | cons hx _ ih =>
    obtain ⟨u, hu, hx⟩ := hx
    obtain ⟨v, hv, hxs⟩ := ih
    exact ⟨u ++ v, derives_cons.2 ⟨u, v, rfl, hu, hv⟩, .cons hx hxs⟩

lemma rest_of_parse {file source : String} {l : Listing} (h : parse file source = .ok l) :
    (scan source).rest = [] := by
  simp only [parse] at h
  split at h
  · rename_i hrest
    exact List.isEmpty_iff.1 hrest
  · cases h

end Listing

namespace Program

open Listing Phrase

lemma standsFor_of_ofText {file source : String} {p : Program} {d : Phrase.program.Derivation}
    (h : ofText file source = .ok p) (hd : IsDerivation source d) : List.Forall₂ StandsFor d p.funcs := by
  obtain ⟨l, hl, hp⟩ := bind_eq_ok.1 h
  obtain ⟨d', hd', ho, hxs⟩ := exists_derivation (parse_ok (mapError_eq_ok.1 hl))
  have htokens : Phrase.program.yield d = Phrase.program.yield d' := by
    rw [hd.tokens, ← hd', ← lexemesFrom_token none]
    rfl
  obtain rfl := program_unambiguous hd.truthFirst ho hd.whole htokens
  exact forall₂_exists.1 ⟨_, hxs, (ofListing_ok.1 hp).funcs⟩

lemma ofText_of_lexes {d : Phrase.program.Derivation} {fs : List BlockIR.Func} (h : List.Forall₂ StandsFor d fs)
    (hdistinct : (fs.map Func.name).Nodup) {source : String}
    (hs : Lexes source.toList ((Phrase.program.yield d).map Token.word)) (file : String) :
    ofText file source = .ok ⟨fs⟩ := by
  obtain ⟨xs, hxs, hmeans⟩ := forall₂_exists.2 h
  obtain ⟨w, hw, hmany⟩ := many_of_derivation hxs
  have hwords : wordsOf w = (Phrase.program.yield d).map Token.word := by
    rw [← hw]
    simp [wordsOf]
  obtain ⟨l, hl, hbare⟩ := parse_of_lexes hmany (hwords ▸ hs) file
  have hfuncs : List.Forall₂ Listing.Func.Means l.funcs fs := by
    have hbares : List.Forall₂ Listing.Func.Means (xs.map Listing.Func.bare) fs := by
      rw [List.forall₂_map_left_iff]
      exact hmeans.imp fun _ _ => Listing.Func.means_bare.2
    rw [← hbare, List.forall₂_map_left_iff] at hbares
    exact hbares.imp fun _ _ => Listing.Func.means_bare.1
  exact bind_eq_ok.2 ⟨l, mapError_eq_ok.2 hl, ofListing_ok.2 ⟨hfuncs, hdistinct⟩⟩

end Program

namespace Repl

open Listing Phrase

def Cuts (gs : List (List String)) (n : Nat) : Prop :=
  ∃ k, (gs.take k).flatten.length = n

lemma cuts_cons {g : List String} {gs : List (List String)} {n : Nat} (hn : 0 < n) :
    Cuts (g :: gs) n ↔ g.length ≤ n ∧ Cuts gs (n - g.length) := by
  constructor
  · rintro ⟨_ | k, hk⟩
    · simp at hk
      omega
    · rw [List.take_succ_cons, List.flatten_cons, List.length_append] at hk
      exact ⟨by omega, k, by omega⟩
  · rintro ⟨hle, k, hk⟩
    refine ⟨k + 1, ?_⟩
    rw [List.take_succ_cons, List.flatten_cons, List.length_append]
    omega

lemma not_cuts {gs : List (List String)} {n : Nat} (hn : 0 < n) (h : ∀ g ∈ gs.head?, n < g.length) :
    ¬ Cuts gs n := by
  cases gs with
  | nil =>
    rintro ⟨k, hk⟩
    simp at hk
    omega
  | cons g gs =>
    rw [cuts_cons hn]
    have := h g rfl
    omega

/-- Of `k` lines from `n` on, groups that begin with line `c` end with those that do not end inside a body. -/
def CutsWhereClosed (gs : List (List String)) (d : Phrase.program.Derivation) (c n k : Nat) : Prop :=
  ∀ m, n ≤ m → m < n + k → (Cuts gs (m + 1 - c) ↔ ∀ f ∈ d, ¬ OpenAt m f)

section Cuts

variable {gs : List (List String)} {g : List String} {d d₁ d₂ : Phrase.program.Derivation} {c n k : Nat}

lemma CutsWhereClosed.cons (h : CutsWhereClosed gs d₂ (n + 1) (n + 1) k) (hg : c + g.length = n + 1)
    (hne : c ≤ n) (hbefore : ∀ f ∈ d₁, (closing f).start.line ≤ n) (hclosed : ∀ f ∈ d₁ ++ d₂, ¬ OpenAt n f) :
    CutsWhereClosed (g :: gs) (d₁ ++ d₂) c n (k + 1) := by
  intro m hle hlt
  have hlength : m + 1 - c - g.length = m + 1 - (n + 1) := by omega
  have hbegun : g.length ≤ m + 1 - c := by omega
  rw [cuts_cons (by omega), hlength, and_iff_right hbegun]
  rcases Nat.eq_or_lt_of_le hle with rfl | hlt'
  · rw [Nat.sub_self]
    exact iff_of_true ⟨0, rfl⟩ hclosed
  · have hpast : ∀ f ∈ d₁, ¬ OpenAt m f := fun f hf hopen => by
      have := hbefore f hf
      have := hopen.2
      omega
    rw [h m hlt' (by omega), List.forall_mem_append, and_iff_right hpast]

lemma CutsWhereClosed.wait (h : CutsWhereClosed gs d c (n + 1) k) (hne : c ≤ n)
    (hg : ∀ g ∈ gs.head?, n + 1 - c < g.length) (hopen : ∃ f ∈ d, OpenAt n f) :
    CutsWhereClosed gs d c n (k + 1) := by
  intro m hle hlt
  rcases Nat.eq_or_lt_of_le hle with rfl | hlt'
  · obtain ⟨f, hf, hf'⟩ := hopen
    exact iff_of_false (not_cuts (by omega) hg) fun h => h f hf hf'
  · exact h m hlt' (by omega)

end Cuts

structure State.Holds (s : State) (waiting : List String) (n : Nat) (ws : List Token) : Prop where
  lined : Lined n (waiting.map String.toList) ws
  depth : s.depth = nesting (ws.map Token.word)
  pos : waiting ≠ [] → 0 < s.depth

lemma State.holds_nil (n : Nat) : ({} : State).Holds [] n [] :=
  ⟨.nil n, rfl, fun h => absurd rfl h⟩

section Line

variable {s : State} {waiting : List String} {c n : Nat} {ws us vs : List Token} {line : String}
  {d : Phrase.program.Derivation}

lemma State.Holds.feed (hs : s.Holds waiting c ws) (hn : n = c + waiting.length) (hnew : '\n' ∉ line.toList)
    (hlex : Lexes line.toList (us.map Token.word)) (hline : ∀ t ∈ us, t.start.line = n)
    (hlater : ∀ t ∈ vs, n < t.start.line) (hd : ws ++ us ++ vs = Phrase.program.yield d)
    (hheader : ∀ f ∈ d, ∀ t ∈ header f, t.start.line = (opening f).start.line)
    (hwhole : ∀ t ∈ Phrase.program.yield d, t.Whole) :
    (¬ 0 < s.depth + braces line.toList ∧ ∃ d₁ d₂ : Phrase.program.Derivation, d = d₁ ++ d₂ ∧
      vs = Phrase.program.yield d₂ ∧ (∀ f ∈ d₁, (closing f).start.line ≤ n) ∧ (∀ f ∈ d, ¬ OpenAt n f) ∧
      Lexes (chunk (waiting ++ [line])).toList ((Phrase.program.yield d₁).map Token.word)) ∨
    0 < s.depth + braces line.toList ∧ (∃ f ∈ d, OpenAt n f) ∧
      (⟨s.buffer ++ line ++ "\n", s.depth + braces line.toList⟩ : State).Holds (waiting ++ [line]) c (ws ++ us) := by
  have hlined : Lined c ((waiting ++ [line]).map String.toList) (ws ++ us) := by
    rw [List.map_append]
    refine hs.lined.append ?_
    rw [List.length_map, ← hn, ← List.append_nil us]
    exact .cons hnew hlex hline (.nil _)
  have hdepth : s.depth + braces line.toList = nesting ((ws ++ us).map Token.word) := by
    rw [hs.depth, braces_eq_nesting hlex hnew, List.map_append, nesting_append]
  have hearlier : ∀ t ∈ ws ++ us, t.start.line ≤ n := fun t ht => by
    have hlt := (hlined.line t ht).2
    rw [List.length_map, List.length_append, List.length_singleton] at hlt
    omega
  rcases closed_or_open hd hearlier hlater hheader hwhole with
    ⟨d₁, d₂, hdd, hd₁, hd₂, hzero, hclosed⟩ | ⟨hone, hopen⟩
  · refine .inl ⟨by omega, d₁, d₂, hdd, hd₂, fun f hf => ?_, hclosed, hd₁ ▸ lexes_chunk hlined⟩
    exact hearlier _ (hd₁ ▸ List.mem_flatMap.2 ⟨f, hf, closing_mem f⟩)
  · exact .inr ⟨by omega, hopen, hlined, hdepth, fun _ => by simp only; omega⟩

end Line

lemma State.Holds.groups {n : Nat} {lines : List String} {ts : List Token} {s : State} {waiting : List String}
    {c : Nat} {ws : List Token} {d : Phrase.program.Derivation} (hs : s.Holds waiting c ws)
    (hn : n = c + waiting.length) (h : Lined n (lines.map String.toList) ts)
    (hd : ws ++ ts = Phrase.program.yield d)
    (hheader : ∀ f ∈ d, ∀ t ∈ header f, t.start.line = (opening f).start.line)
    (hwhole : ∀ t ∈ Phrase.program.yield d, t.Whole) :
    ∃ gs, ∃ ds : List Phrase.program.Derivation, s.groups waiting lines = (gs, []) ∧ d = ds.flatten ∧
      List.Forall₂ (fun g e => Lexes (chunk g).toList ((Phrase.program.yield e).map Token.word)) gs ds ∧
      CutsWhereClosed gs d c n lines.length := by
  -- Of the functions, `d` are those that begin with the waiting lines or later.
  induction lines generalizing n ts s waiting c ws d with
  | nil =>
    cases h
    rw [List.append_nil] at hd
    -- Whole functions leave no body open, so no lines wait.
    obtain rfl : waiting = [] := by
      by_contra hne
      have hpos := hs.pos hne
      rw [hs.depth, hd, nesting_program hwhole] at hpos
      omega
    cases hs.lined
    obtain rfl := eq_nil_of_yield rfl hd.symm
    exact ⟨[], [], rfl, rfl, .nil, fun m hle hlt => absurd hlt (Nat.not_lt.2 hle)⟩
  | cons line lines ih =>
    cases h with
    | @cons _ _ _ us vs hnew hlex hline hrest =>
      rw [← List.append_assoc] at hd
      have hlater : ∀ t ∈ vs, n < t.start.line := fun t ht => (hrest.line t ht).1
      rcases hs.feed hn hnew hlex hline hlater hd hheader hwhole with
        ⟨hpos, d₁, d₂, rfl, rfl, hbefore, hclosed, hchunk⟩ | ⟨hpos, hopen, hs'⟩
      · have hheader₂ := (List.forall_mem_append.1 hheader).2
        have hwhole₂ : ∀ t ∈ Phrase.program.yield d₂, t.Whole := fun t ht =>
          hwhole t (hd ▸ List.mem_append_right _ ht)
        obtain ⟨gs, ds, hgs, rfl, hall, hcuts⟩ := ih (State.holds_nil (n + 1)) rfl hrest rfl hheader₂ hwhole₂
        refine ⟨(waiting ++ [line]) :: gs, d₁ :: ds, ?_, rfl, .cons hchunk hall, ?_⟩
        · rw [groups_of_not_pos hpos, hgs]
        · exact hcuts.cons (by simp; omega) (by omega) hbefore hclosed
      · have hn' : n + 1 = c + (waiting ++ [line]).length := by simp; omega
        obtain ⟨gs, ds, hgs, hds, hall, hcuts⟩ := ih hs' hn' hrest hd hheader hwhole
        refine ⟨gs, ds, (groups_of_pos hpos ..).trans hgs, hds, hall, hcuts.wait (by omega) (fun g hg => ?_) hopen⟩
        have := groups_head hgs g hg
        omega

lemma forall₂_flatten {α β : Type} {R : α → β → Prop} {ass : List (List α)} {bs : List β}
    (h : List.Forall₂ R ass.flatten bs) : ∃ bss, bs = bss.flatten ∧ List.Forall₂ (List.Forall₂ R) ass bss := by
  induction ass generalizing bs with
  | nil =>
    cases h
    exact ⟨[], rfl, .nil⟩
  | cons as ass ih =>
    rw [List.flatten_cons] at h
    have hfirst := List.forall₂_take as.length h
    have hrest := List.forall₂_drop as.length h
    rw [List.take_left] at hfirst
    rw [List.drop_left] at hrest
    obtain ⟨bss, hbss, hall⟩ := ih hrest
    exact ⟨bs.take as.length :: bss, by rw [List.flatten_cons, ← hbss, List.take_append_drop], .cons hfirst hall⟩

lemma decode_evaluated {gs : List (List String)} {ds : List Phrase.program.Derivation}
    {fss : List (List BlockIR.Func)}
    (hgs : List.Forall₂ (fun g e => Lexes (chunk g).toList ((Phrase.program.yield e).map Token.word)) gs ds)
    (hds : List.Forall₂ (List.Forall₂ StandsFor) ds fss) (hdistinct : (fss.flatten.map BlockIR.Func.name).Nodup) :
    ∃ ps, List.Forall₂ (fun text p => Program.ofText file text = .ok p) ((evaluated gs).map chunk) ps ∧
      ps.flatMap Program.funcs = fss.flatten := by
  induction hgs generalizing fss with
  | nil =>
    cases hds
    exact ⟨[], .nil, rfl⟩
  | @cons g e gs ds hg _ ih =>
    cases hds with
    | @cons _ fs _ fss hfs hfss =>
      rw [List.flatten_cons, List.map_append] at hdistinct
      obtain ⟨hdistinct₁, hdistinct₂, -⟩ := List.nodup_append.1 hdistinct
      obtain ⟨ps, hps, hfuncs⟩ := ih hfss hdistinct₂
      by_cases hb : Text.allBlank (chunk g) = true
      · have hnone := List.map_eq_nil_iff.1 (hg.eq_nil_of_blank (List.all_eq_true.1 hb))
        obtain rfl := eq_nil_of_yield rfl hnone
        cases hfs
        exact ⟨ps, by simpa [evaluated, hb] using hps, by simpa using hfuncs⟩
      · have hread := Program.ofText_of_lexes hfs hdistinct₁ hg file
        refine ⟨⟨fs⟩ :: ps, ?_, by simp [hfuncs]⟩
        rw [evaluated, List.filter_cons_of_pos (by simpa using hb)]
        exact .cons hread hps

lemma allBlank_of_mem_chunk {lines : List String} (h : Text.allBlank (chunk lines) = true) :
    ∀ line ∈ lines, Text.allBlank line = true := by
  intro line hline
  simp only [Text.allBlank, chunk, List.all_eq_true, String.toList_join] at h ⊢
  intro c hc
  have hmem : c ∈ (line ++ "\n").toList := by simp [hc]
  exact h c (List.mem_flatMap.2 ⟨_, List.mem_map_of_mem hline, hmem⟩)

lemma filter_evaluated (gs : List (List String)) :
    (evaluated gs).flatten.filter (!Text.allBlank ·) = gs.flatten.filter (!Text.allBlank ·) := by
  induction gs with
  | nil => rfl
  | cons g gs ih =>
    by_cases hb : Text.allBlank (chunk g) = true
    · have hnone : g.filter (!Text.allBlank ·) = [] := by simpa using allBlank_of_mem_chunk hb
      simpa [evaluated, hb, hnone] using ih
    · simpa [evaluated, hb] using ih

/-- The lines of a source, fed one by one, against its derivation and the program it is read as. -/
structure LineByLine (source : String) (d : Phrase.program.Derivation) (p : Program) (gs : List (List String)) :
    Prop where
  /-- No lines wait at the end. -/
  groups : ({} : State).groups [] (inputLines source) = (gs, [])
  lines : gs.flatten = inputLines source
  /-- The lines of a group wait for its last one, and are then evaluated unless they are blank. -/
  printed : ∀ colour, transcript colour source = prompt ++ String.join (gs.map (reply colour))
  /-- Each line that is not blank is in one group that is evaluated, without the carriage return at its end. -/
  nonblank : (evaluated gs).flatten.filter (!Text.allBlank ·) =
    ((Text.lines source).map fun line => String.ofList (chomp line.toList)).filter (!Text.allBlank ·)
  /-- Groups end with the lines that do not end inside a body. -/
  closed : ∀ n ≤ (inputLines source).length, Cuts gs n ↔ ∀ f ∈ d, ¬ OpenAt n f
  handed : ({} : State).handed (inputLines source) = (evaluated gs).map chunk
  decoded : ∃ ps, List.Forall₂ (fun text p => Program.ofText file text = .ok p) ((evaluated gs).map chunk) ps ∧
    ps.flatMap Program.funcs = p.funcs

lemma filter_inputLines {source : String} (hlimit : ∀ line ∈ Text.lines source, line.utf8ByteSize < lineLimit) :
    (inputLines source).filter (!Text.allBlank ·) =
      ((Text.lines source).map fun line => String.ofList (chomp line.toList)).filter (!Text.allBlank ·) := by
  obtain ⟨pieces, hpieces, hlines⟩ := inputLines_eq_map hlimit
  rw [hlines, Text.lines]
  rcases hpieces with h | h
  · simp [h, Function.comp_def]
  · have hempty : Text.allBlank (String.ofList (chomp [])) = true := rfl
    simp [h, hempty, Function.comp_def]

/-- If the words before each body of a source that can be read are on one line with its brace, then feeding the
source line by line agrees with reading it at once. -/
theorem lineByLine_of_ofText {file source : String} {p : Program} {d : Phrase.program.Derivation}
    (h : Program.ofText file source = .ok p) (hd : IsDerivation source d)
    (hlimit : ∀ line ∈ Text.lines source, line.utf8ByteSize < lineLimit)
    (hheader : ∀ f ∈ d, ∀ t ∈ header f, t.start.line = (opening f).start.line) :
    ∃ gs, LineByLine source d p gs := by
  obtain ⟨l, hl, hp⟩ := bind_eq_ok.1 h
  have hlined := inputLines_lined (rest_of_parse (mapError_eq_ok.1 hl)) hlimit
  obtain ⟨gs, ds, hgs, rfl, hchunks, hcuts⟩ :=
    (State.holds_nil 1).groups rfl hlined hd.tokens.symm hheader hd.whole
  obtain ⟨fss, hfss, hstands⟩ := forall₂_flatten (Program.standsFor_of_ofText h hd)
  have hlines : gs.flatten = inputLines source := by
    simpa [hgs] using State.groups_flatten {} [] (inputLines source)
  refine ⟨gs, hgs, hlines, fun colour => ?_, ?_, fun n hn => ?_, ?_, ?_⟩
  · simp [transcript_eq_replies, hgs]
  · rw [filter_evaluated, hlines, filter_inputLines hlimit]
  · rcases Nat.eq_zero_or_pos n with rfl | hpos
    · refine iff_of_true ⟨0, rfl⟩ fun f hf hopen => ?_
      have hmem : opening f ∈ Phrase.program.yield ds.flatten := List.mem_flatMap.2 ⟨f, hf, opening_mem f⟩
      have := (hlined.line _ (hd.tokens ▸ hmem)).1
      have := hopen.1
      omega
    · exact hcuts n hpos (by omega)
  · have hhanded := @State.handed_eq_chunks {} [] rfl (inputLines source)
    rwa [hgs] at hhanded
  · rw [hfss]
    exact decode_evaluated hchunks hstands (hfss ▸ (Program.ofListing_ok.1 hp).distinct)

theorem lineByLine_of_ofText_shared_line :
    let source := "# \x7b\n\n@f \x7b\r\n\x7d @g \x7b # \x7d\n  ret;\x7d @h\x7b\n\n\x7d"
    let mark (s : String) (line column offset : Nat) : Token := ⟨.punctuation, s, ⟨line, column, offset⟩⟩
    let word (s : String) (line column offset : Nat) : Token := ⟨.ident, s, ⟨line, column, offset⟩⟩
    let d : Phrase.program.Derivation :=
      [(⟨mark "@" 3 1 5, rfl⟩, ⟨word "f" 3 2 6, rfl⟩, none, none, ⟨mark "\x7b" 3 4 8, rfl⟩, [],
          ⟨mark "\x7d" 4 1 11, rfl⟩),
        (⟨mark "@" 4 3 13, rfl⟩, ⟨word "g" 4 4 14, rfl⟩, none, none, ⟨mark "\x7b" 4 6 16, rfl⟩,
          [.inr (none, ⟨word "ret" 5 3 24, rfl⟩, [], ⟨mark ";" 5 6 27, rfl⟩)], ⟨mark "\x7d" 5 7 28, rfl⟩),
        (⟨mark "@" 5 9 30, rfl⟩, ⟨word "h" 5 10 31, rfl⟩, none, none, ⟨mark "\x7b" 5 11 32, rfl⟩, [],
          ⟨mark "\x7d" 7 1 35, rfl⟩)]
    IsDerivation source d ∧ ∃ p, Program.ofText "a" source = .ok p ∧
      p.funcs.map BlockIR.Func.name = [.plain "f", .plain "g", .plain "h"] ∧
      LineByLine source d p
        [["# \x7b"], [""], ["@f \x7b", "\x7d @g \x7b # \x7d", "  ret;\x7d @h\x7b", "", "\x7d"]] := by
  intro source mark word d
  have hd : IsDerivation source d := ⟨by decide +kernel, by rintro o ⟨⟩⟩
  have hnames : (Program.ofText "a" source).toOption.map (fun p => p.funcs.map BlockIR.Func.name) =
      some [.plain "f", .plain "g", .plain "h"] := by decide +kernel
  have hgroups : ({} : State).groups [] (inputLines source) = ([["# \x7b"], [""],
      ["@f \x7b", "\x7d @g \x7b # \x7d", "  ret;\x7d @h\x7b", "", "\x7d"]], []) := by decide +kernel
  obtain ⟨p, hp, hfuncs⟩ := Option.map_eq_some_iff.1 hnames
  have hread : Program.ofText "a" source = .ok p := toOption_eq_some.1 hp
  obtain ⟨gs, hgs⟩ := lineByLine_of_ofText hread hd (by decide +kernel) (by decide +kernel)
  obtain rfl : gs = _ := congrArg Prod.fst (hgs.groups.symm.trans hgroups)
  exact ⟨hd, p, hread, hfuncs, hgs⟩

end Repl

end BlockIR
