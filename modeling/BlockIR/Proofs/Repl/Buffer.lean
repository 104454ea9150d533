import BlockIR.Proofs.Listing.Bodies
import BlockIR.Proofs.Listing.Lines
import BlockIR.Repl

namespace BlockIR

namespace Listing

lemma turn_lexeme {k : TokenKind} (hk : k.isIdle = false) (cs : List Char) :
    turn (String.ofList (k.lexeme cs)) = ((k.lexeme cs).count '\x7b' : Int) - (k.lexeme cs).count '\x7d' := by
  have hopen : String.ofList (k.lexeme cs) = "\x7b" ↔ k.lexeme cs = ['\x7b'] := String.ofList_inj
  have hclose : String.ofList (k.lexeme cs) = "\x7d" ↔ k.lexeme cs = ['\x7d'] := String.ofList_inj
  rw [TokenKind.count_lexeme hk (by decide) (by decide), TokenKind.count_lexeme hk (by decide) (by decide)]
  simp only [turn, hopen, hclose]
  by_cases h : k.lexeme cs = ['\x7b']
  · simp [h]
  · by_cases h' : k.lexeme cs = ['\x7d'] <;> simp [h, h']

end Listing

namespace Repl

open Listing

lemma braces_append {as : List Char} (h : '#' ∉ as) (bs : List Char) :
    braces (as ++ bs) = (as.count '\x7b' : Int) - as.count '\x7d' + braces bs := by
  have has : ∀ a ∈ as, decide (a ≠ '#') = true := fun a ha => decide_eq_true fun hc => h (hc ▸ ha)
  simp only [braces, List.takeWhile_append_of_pos has, List.count_append]
  omega

lemma braces_eq_nesting {cs : List Char} {ws : List (TokenKind × String)} (h : Lexes cs ws) (hn : '\n' ∉ cs) :
    braces cs = nesting ws := by
  induction h with
  | nil => rfl
  | @idle k cs ws hk hne h ih =>
    have hrest := ih fun h => hn (List.mem_of_mem_drop h)
    cases k with
    | comment =>
      -- A comment takes the rest of the line.
      rcases cs with _ | ⟨c, cs⟩
      · exact absurd rfl hne
      · obtain rfl : c = '#' := by simpa [TokenKind.opens] using TokenKind.opens_of_lexeme hne
        have hcs : cs.takeWhile (· ≠ '\n') = cs := List.takeWhile_eq_self_iff.2 fun c hc =>
          decide_eq_true fun h => hn (List.mem_cons_of_mem _ (h ▸ hc))
        rw [TokenKind.lexeme_comment_cons, hcs, List.drop_length] at h
        rw [h.eq_nil]
        rfl
    | int | ident | punctuation => cases hk
    | blank =>
      have hspace : ∀ c ∈ TokenKind.lexeme .blank cs, isSpace c = true := fun _ => List.mem_takeWhile_imp
      have hnot {b : Char} (hb : isSpace b = false) : b ∉ TokenKind.lexeme .blank cs := fun h => by
        rw [hspace b h] at hb
        cases hb
      rw [← List.prefix_iff_eq_append.1 (TokenKind.lexeme_isPrefix .blank cs), braces_append (hnot rfl), hrest,
        List.count_eq_zero.2 (hnot rfl), List.count_eq_zero.2 (hnot rfl)]
      simp
  | @busy k cs ws hk hne h ih =>
    have hrest := ih fun h => hn (List.mem_of_mem_drop h)
    conv_lhs => rw [← List.prefix_iff_eq_append.1 (k.lexeme_isPrefix cs)]
    rw [braces_append (TokenKind.hash_not_mem_lexeme hk cs), hrest, nesting_cons, turn_lexeme hk]

def chunk (lines : List String) : String :=
  String.join (lines.map (· ++ "\n"))

lemma chunk_concat (lines : List String) (line : String) :
    chunk (lines ++ [line]) = chunk lines ++ line ++ "\n" := by
  simp [chunk, String.append_assoc]

def State.groups : State → List String → List String → List (List String) × List String
  | _, waiting, [] => ([], waiting)
  | s, waiting, line :: lines =>
    let next := (s.feed line).2
    if 0 < next.depth then next.groups (waiting ++ [line]) lines
    else
      let (gs, rest) := next.groups [] lines
      ((waiting ++ [line]) :: gs, rest)

def evaluated (gs : List (List String)) : List (List String) :=
  gs.filter fun g => !Text.allBlank (chunk g)

def State.handed : State → List String → List String
  | _, [] => []
  | s, line :: lines => (s.feed line).1.toList ++ (s.feed line).2.handed lines

def reply (colour : Bool) (group : List String) : String :=
  String.join (List.replicate (group.length - 1) morePrompt) ++
    (if Text.allBlank (chunk group) then "" else eval colour (chunk group)) ++ prompt

lemma State.feed_of_pos {s : State} {line : String} (h : 0 < s.depth + braces line.toList) :
    s.feed line = (none, ⟨s.buffer ++ line ++ "\n", s.depth + braces line.toList⟩) := by
  simp [feed, h]

lemma State.feed_of_not_pos {s : State} {line : String} (h : ¬ 0 < s.depth + braces line.toList) :
    s.feed line = (if Text.allBlank (s.buffer ++ line ++ "\n") then none else some (s.buffer ++ line ++ "\n"), {}) := by
  simp [feed, h]

lemma State.groups_of_pos {s : State} {line : String} (h : 0 < s.depth + braces line.toList)
    (waiting lines : List String) :
    s.groups waiting (line :: lines) =
      (⟨s.buffer ++ line ++ "\n", s.depth + braces line.toList⟩ : State).groups (waiting ++ [line]) lines := by
  simp [groups, feed_of_pos h, h]

lemma State.groups_of_not_pos {s : State} {line : String} (h : ¬ 0 < s.depth + braces line.toList)
    (waiting lines : List String) :
    s.groups waiting (line :: lines) =
      ((waiting ++ [line]) :: (({} : State).groups [] lines).1, (({} : State).groups [] lines).2) := by
  simp [groups, feed_of_not_pos h]

lemma State.groups_flatten (s : State) (waiting lines : List String) :
    (s.groups waiting lines).1.flatten ++ (s.groups waiting lines).2 = waiting ++ lines := by
  induction lines generalizing s waiting with
  | nil => simp [groups]
  | cons line lines ih =>
    by_cases h : 0 < s.depth + braces line.toList
    · simp [groups_of_pos h, ih]
    · simp [groups_of_not_pos h, ih]

lemma State.groups_head {s : State} {waiting lines rest : List String} {gs : List (List String)}
    (h : s.groups waiting lines = (gs, rest)) : ∀ g ∈ gs.head?, waiting.length < g.length := by
  induction lines generalizing s waiting with
  | nil =>
    cases h
    rintro g ⟨⟩
  | cons line lines ih =>
    by_cases hd : 0 < s.depth + braces line.toList
    · rw [groups_of_pos hd] at h
      intro g hg
      have hlt := ih h g hg
      simp at hlt
      omega
    · rw [groups_of_not_pos hd] at h
      cases h
      rintro g ⟨⟩
      simp

lemma State.handed_eq_chunks {s : State} {waiting : List String} (hs : s.buffer = chunk waiting)
    (lines : List String) : s.handed lines = (evaluated (s.groups waiting lines).1).map chunk := by
  induction lines generalizing s waiting with
  | nil => rfl
  | cons line lines ih =>
    have hbuffer : s.buffer ++ line ++ "\n" = chunk (waiting ++ [line]) := by rw [chunk_concat, hs]
    by_cases h : 0 < s.depth + braces line.toList
    · rw [handed, feed_of_pos h, groups_of_pos h]
      exact ih hbuffer
    · have hnext := @ih {} [] rfl
      rw [handed, feed_of_not_pos h, groups_of_not_pos h, hbuffer, hnext]
      by_cases hb : Text.allBlank (chunk (waiting ++ [line])) <;> simp [evaluated, hb]

lemma answers_eq_replies (colour : Bool) {s : State} {waiting : List String} (hs : s.buffer = chunk waiting)
    (lines : List String) :
    String.join (List.replicate waiting.length morePrompt) ++ answers colour s lines =
      String.join ((s.groups waiting lines).1.map (reply colour)) ++
        String.join (List.replicate (s.groups waiting lines).2.length morePrompt) := by
  induction lines generalizing s waiting with
  | nil => simp [answers, State.groups]
  | cons line lines ih =>
    have hbuffer : s.buffer ++ line ++ "\n" = chunk (waiting ++ [line]) := by rw [chunk_concat, hs]
    by_cases h : 0 < s.depth + braces line.toList
    · have hnext := ih (s := ⟨s.buffer ++ line ++ "\n", s.depth + braces line.toList⟩) hbuffer
      rw [State.groups_of_pos h, ← hnext]
      simp [answers, State.answer, State.feed_of_pos h, h, List.replicate_succ', String.append_assoc]
    · have hnext := @ih {} [] rfl
      rw [List.length_nil, List.replicate_zero, String.join_nil, String.empty_append] at hnext
      have hanswer : answers colour s (line :: lines) =
          (if Text.allBlank (chunk (waiting ++ [line])) then "" else eval colour (chunk (waiting ++ [line]))) ++
            prompt ++ answers colour {} lines := by
        rw [← hbuffer]
        by_cases hb : Text.allBlank (s.buffer ++ line ++ "\n") <;>
          simp [answers, State.answer, State.feed_of_not_pos h, hb]
      rw [State.groups_of_not_pos h, hanswer, hnext]
      simp [reply, String.append_assoc]

lemma transcript_eq_replies (colour : Bool) (input : String) :
    transcript colour input = prompt ++
      (String.join ((({} : State).groups [] (inputLines input)).1.map (reply colour)) ++
        String.join (List.replicate (({} : State).groups [] (inputLines input)).2.length morePrompt)) := by
  rw [transcript, ← answers_eq_replies colour rfl]
  simp

def chomp (cs : List Char) : List Char :=
  if cs.getLast? = some '\r' then cs.dropLast else cs

lemma linesOf_eq_map {pieces : List (List Char)}
    (h : ∀ cs ∈ pieces, (String.ofList cs).utf8ByteSize < lineLimit) :
    linesOf pieces = pieces.map fun cs => String.ofList (chomp cs) := by
  induction pieces with
  | nil => rfl
  | cons cs pieces ih =>
    obtain ⟨hcs, hpieces⟩ := List.forall_mem_cons.1 h
    simp [linesOf, line?, hcs, ih hpieces, chomp]

lemma lexes_chomp {cs : List Char} {ws : List (TokenKind × String)} (hn : '\n' ∉ cs) (h : Lexes cs ws) :
    Lexes (chomp cs) ws := by
  rw [chomp]
  split
  · rename_i hcr
    obtain ⟨as, rfl⟩ := List.getLast?_eq_some_iff.1 hcr
    rw [List.dropLast_concat]
    exact h.of_carriageReturn fun hmem => hn (List.mem_append_left _ hmem)
  · exact h

lemma lined_chomp {n : Nat} {pieces : List (List Char)} {ts : List Token} (h : Lined n pieces ts) :
    Lined n (pieces.map chomp) ts := by
  induction h with
  | nil => exact .nil _
  | @cons n cs rest us vs hcs hu hline _ ih =>
    refine .cons (fun hmem => hcs ?_) (lexes_chomp hcs hu) hline ih
    rw [chomp] at hmem
    split at hmem
    · exact (List.dropLast_sublist cs).subset hmem
    · exact hmem

lemma inputLines_eq_map {source : String}
    (hlimit : ∀ line ∈ Text.lines source, line.utf8ByteSize < lineLimit) :
    ∃ pieces, (Text.splitAt '\n' source.toList = pieces ∨ Text.splitAt '\n' source.toList = pieces ++ [[]]) ∧
      inputLines source = pieces.map fun cs => String.ofList (chomp cs) := by
  have hshort := List.forall_mem_map.1 hlimit
  by_cases hlast : (Text.splitAt '\n' source.toList).getLast? = some []
  · obtain ⟨pieces, hpieces⟩ := List.getLast?_eq_some_iff.1 hlast
    refine ⟨pieces, .inr hpieces, ?_⟩
    rw [inputLines, if_pos hlast, hpieces, List.dropLast_concat]
    exact linesOf_eq_map fun cs hcs => hshort cs (hpieces ▸ List.mem_append_left _ hcs)
  · refine ⟨_, .inl rfl, ?_⟩
    rw [inputLines, if_neg hlast]
    exact linesOf_eq_map hshort

lemma inputLines_lined {source : String} (hrest : (scan source).rest = [])
    (hlimit : ∀ line ∈ Text.lines source, line.utf8ByteSize < lineLimit) :
    Lined 1 ((inputLines source).map String.toList) ((scan source).tokens.filter (!·.kind.isIdle)) := by
  have hlined := (lexesAt_scanFrom .start source.toList hrest).lined
  obtain ⟨pieces, hpieces, hlines⟩ := inputLines_eq_map hlimit
  have hchomp : (inputLines source).map String.toList = pieces.map chomp := by simp [hlines]
  rw [hchomp]
  rcases hpieces with h | h
  · rw [h] at hlined
    exact lined_chomp hlined
  · rw [h] at hlined
    exact lined_chomp hlined.of_concat_nil

lemma lexes_chunk {n : Nat} {lines : List String} {ts : List Token} (h : Lined n (lines.map String.toList) ts) :
    Lexes (chunk lines).toList (ts.map Token.word) := by
  induction lines generalizing n ts with
  | nil =>
    cases h
    exact .nil
  | cons line lines ih =>
    cases h with
    | cons _ hu _ hv => simpa [chunk] using hu.append_newline (ih hv)

end Repl

end BlockIR
