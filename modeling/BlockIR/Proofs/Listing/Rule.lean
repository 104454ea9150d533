import BlockIR.Listing.Rule
import Mathlib.Tactic.Lemma
import Mathlib.Tactic.Common
import Mathlib.Data.List.Basic

/-! What rules read. A rule is sound for a language if what it finds stands in front of where it stops;
it finds a word if it reads exactly that word; and it gives up where it finds nothing within the
lookahead. The failures that a cursor remembers take no part in this. -/

namespace BlockIR.Listing

namespace Cursor

@[simp] lemma advance_rest (c : Cursor) : c.advance.rest = c.rest.tail := rfl

@[simp] lemma advance_passed (c : Cursor) : c.advance.passed = c.passed + 1 := rfl

@[simp] lemma note_rest (c : Cursor) (e : Fault) : (c.note e).rest = c.rest := by
  unfold note
  split <;> rfl

@[simp] lemma note_passed (c : Cursor) (e : Fault) : (c.note e).passed = c.passed := by
  unfold note
  split <;> rfl

@[simp] lemma accept_rest (c trial : Cursor) : (c.accept trial).rest = trial.rest := by
  unfold accept
  split <;> rfl

@[simp] lemma accept_passed (c trial : Cursor) : (c.accept trial).passed = trial.passed := by
  unfold accept
  split <;> rfl

@[simp] lemma heed_rest (c trial : Cursor) (e : Fault) : (c.heed trial e).rest = c.rest := by
  unfold heed
  split
  · rfl
  · split <;> rfl

@[simp] lemma heed_passed (c trial : Cursor) (e : Fault) : (c.heed trial e).passed = c.passed := by
  unfold heed
  split
  · rfl
  · split <;> rfl

lemma pos_of_rest {c : Cursor} {l : Lexeme} {ls : List Lexeme} (h : c.rest = l :: ls) :
    c.pos = l.token.start := by
  simp [pos, h]

end Cursor

inductive Many {α : Type} (D : List Lexeme → α → Prop) : List Lexeme → List α → Prop
  | nil : Many D [] []
  | cons {w v : List Lexeme} {a : α} {as : List α} : D w a → Many D v as → Many D (w ++ v) (a :: as)

def Both {α β : Type} (D : List Lexeme → α → Prop) (E : List Lexeme → β → Prop) (w : List Lexeme)
    (p : α × β) : Prop :=
  ∃ u v, w = u ++ v ∧ D u p.1 ∧ E v p.2

structure Rule.Sound {α : Type} (r : Rule α) (D : List Lexeme → α → Prop) : Prop where
  found : ∀ c a c', r.run c = (.found a, c') → ∃ w, c.rest = w ++ c'.rest ∧ D w a
  absent : ∀ c c', r.run c = (.absent, c') → c'.rest = c.rest

def Tail.Sound {α : Type} (t : Tail α) (D : List Lexeme → α → Prop) : Prop :=
  ∀ c a c', t.run c = (.ok a, c') → ∃ w, c.rest = w ++ c'.rest ∧ D w a

def Rule.Finds {α : Type} (r : Rule α) (w : List Lexeme) (a : α) (rest : List Lexeme) : Prop :=
  ∀ c : Cursor, c.rest = w ++ rest → ∃ c', r.run c = (.found a, c') ∧ c'.rest = rest

def Tail.Finds {α : Type} (t : Tail α) (w : List Lexeme) (a : α) (rest : List Lexeme) : Prop :=
  ∀ c : Cursor, c.rest = w ++ rest → ∃ c', t.run c = (.ok a, c') ∧ c'.rest = rest

def Rule.Misses {α : Type} (r : Rule α) (rest : List Lexeme) : Prop :=
  ∀ c : Cursor, c.rest = rest → r.run c = (.absent, c)

def Rule.Skips {α : Type} (r : Rule α) (c c' : Cursor) : Prop :=
  (∃ d, r.run c = (.absent, d) ∧ c.accept d = c') ∨
    ∃ e d, r.run c = (.failed e, d) ∧ c.committed d = false ∧ (c.note e).heed d e = c'

def Rule.GivesUp {α : Type} (r : Rule α) (rest : List Lexeme) : Prop :=
  ∀ c : Cursor, c.rest = rest → ∃ c', r.Skips c c' ∧ c'.rest = rest ∧ c'.passed = c.passed

variable {α β : Type} {D E : List Lexeme → α → Prop} {F : List Lexeme → β → Prop}

namespace Rule

section Inversion

variable {r : Rule α} {c c' : Cursor}

lemma token_found {text : String} {p : Token → Bool} {l : Lexeme} :
    (token text p).run c = (.found l, c') ↔
      (∃ ls, c.rest = l :: ls) ∧ p l.token = true ∧ c.advance = c' := by
  rcases h : c.rest with _ | ⟨k, ls⟩
  · simp [token, h]
  · by_cases hp : p k.token <;> simp only [token, h, hp] <;> grind

lemma token_absent {text : String} {p : Token → Bool} :
    (token text p).run c = (.absent, c') ↔ (∀ l ∈ c.rest.head?, p l.token = false) ∧ c = c' := by
  rcases h : c.rest with _ | ⟨k, ls⟩
  · simp [token, h]
  · by_cases hp : p k.token <;> simp [token, h, hp]

lemma map_found {f : α → β} {b : β} :
    (r.map f).run c = (.found b, c') ↔ ∃ a, r.run c = (.found a, c') ∧ f a = b := by
  rcases h : r.run c with ⟨_ | a | e, d⟩ <;> simp [Rule.map, Outcome.map, h]
  grind

lemma map_absent {f : α → β} : (r.map f).run c = (.absent, c') ↔ r.run c = (.absent, c') := by
  rcases h : r.run c with ⟨_ | a | e, d⟩ <;> simp [Rule.map, Outcome.map, h]

lemma map_failed {f : α → β} {e : Fault} :
    (r.map f).run c = (.failed e, c') ↔ r.run c = (.failed e, c') := by
  rcases h : r.run c with ⟨_ | a | e, d⟩ <;> simp [Rule.map, Outcome.map, h]

lemma seq_found {t : Tail β} {p : α × β} :
    (r.seq t).run c = (.found p, c') ↔ ∃ d, r.run c = (.found p.1, d) ∧ t.run d = (.ok p.2, c') := by
  rcases h : r.run c with ⟨_ | a | e, d⟩ <;> simp [seq, h]
  rcases h' : t.run d with ⟨e | b, d'⟩ <;> simp
  grind

lemma seq_absent {t : Tail β} : (r.seq t).run c = (.absent, c') ↔ r.run c = (.absent, c') := by
  rcases h : r.run c with ⟨_ | a | e, d⟩ <;> simp [seq, h]
  rcases h' : t.run d with ⟨e | b, d'⟩ <;> simp

lemma opt_found {o : Option α} :
    (opt r).run c = (.found o, c') ↔
      (∃ a d, r.run c = (.found a, d) ∧ some a = o ∧ c.accept d = c') ∨ (none = o ∧ r.Skips c c') := by
  unfold Skips
  rcases h : r.run c with ⟨_ | a | e, d⟩ <;> simp [opt, h]
  split <;> simp_all

lemma opt_ne_absent : (opt r).run c ≠ (.absent, c') := by
  rcases h : r.run c with ⟨_ | a | e, d⟩ <;> simp [opt, h]
  split <;> simp

lemma manyFrom_ne_absent {fuel : Nat} : manyFrom r fuel c ≠ (.absent, c') := by
  cases fuel with
  | zero => simp [manyFrom]
  | succ fuel =>
    rcases h : r.run c with ⟨_ | a | e, d⟩ <;> simp [manyFrom, h]
    · rcases manyFrom r fuel (c.accept d) with ⟨_ | as | e, d'⟩ <;> simp
    · split <;> simp

lemma manyFrom_found {fuel : Nat} {as : List α} :
    manyFrom r (fuel + 1) c = (.found as, c') ↔
      (∃ a d bs, r.run c = (.found a, d) ∧ manyFrom r fuel (c.accept d) = (.found bs, c') ∧
        a :: bs = as) ∨ ([] = as ∧ r.Skips c c') := by
  unfold Skips
  rcases h : r.run c with ⟨_ | a | e, d⟩ <;> simp [manyFrom, h]
  · rcases hm : manyFrom r fuel (c.accept d) with ⟨_ | bs | e, d'⟩
    · exact (manyFrom_ne_absent hm).elim
    · simp
      grind
    · simp
  · split <;> simp_all

lemma named_found {name : String} {p : α × Position} :
    (named name r).run c = (.found p, c') ↔ r.run c = (.found p.1, c') ∧ p.2 = c.pos := by
  obtain ⟨a, q⟩ := p
  rcases h : r.run c with ⟨_ | b | e, d⟩ <;> simp [named, h, eq_comm]
  grind

lemma named_absent {name : String} :
    (named name r).run c = (.absent, c') ↔ r.run c = (.absent, c') := by
  rcases h : r.run c with ⟨_ | b | e, d⟩ <;> simp [named, h]

lemma named_failed {name : String} {e : Fault} :
    (named name r).run c = (.failed e, c') ↔ ∃ d, r.run c = (.failed e, d) ∧ d.note e = c' := by
  rcases h : r.run c with ⟨_ | b | e, d⟩ <;> simp [named, h]
  grind

lemma convert_found {f : α → Except Fault β} {b : β} :
    (convert f r).run c = (.found b, c') ↔ ∃ a, r.run c = (.found a, c') ∧ f a = .ok b := by
  rcases h : r.run c with ⟨_ | a | e, d⟩ <;> simp [convert, h]
  rcases hf : f a with e | b' <;> simp
  grind

lemma convert_absent {f : α → Except Fault β} :
    (convert f r).run c = (.absent, c') ↔ r.run c = (.absent, c') := by
  rcases h : r.run c with ⟨_ | a | e, d⟩ <;> simp [convert, h]
  rcases hf : f a with e | b' <;> simp

end Inversion

end Rule

namespace Tail

variable {r : Rule α} {c c' : Cursor}

lemma need_ok {expected : String} {a : α} :
    need expected r c = (.ok a, c') ↔ r.run c = (.found a, c') := by
  rcases h : r.run c with ⟨_ | b | e, d⟩ <;> simp [need, h]

lemma last_ok {a : α} : (last r).run c = (.ok a, c') ↔ r.run c = (.found a, c') :=
  need_ok

lemma cons_ok {t : Tail β} {p : α × β} :
    (cons r t).run c = (.ok p, c') ↔ ∃ d, r.run c = (.found p.1, d) ∧ t.run d = (.ok p.2, c') := by
  rcases h : r.run c with ⟨_ | b | e, d⟩ <;> simp [cons, need, h]
  rcases h' : t.run d with ⟨e | b', d'⟩ <;> simp
  grind

end Tail

namespace Rule

lemma Sound.imp {r : Rule α} (h : r.Sound D) (hi : ∀ w a, D w a → E w a) : r.Sound E := by
  refine ⟨fun c a c' hr => ?_, h.absent⟩
  obtain ⟨w, hw, hd⟩ := h.found c a c' hr
  exact ⟨w, hw, hi w a hd⟩

lemma token_sound (text : String) (p : Token → Bool) :
    (token text p).Sound fun w l => w = [l] ∧ p l.token = true := by
  constructor
  · intro c l c' h
    obtain ⟨⟨ls, hl⟩, hp, rfl⟩ := token_found.1 h
    exact ⟨[l], by simp [hl], rfl, hp⟩
  · intro c c' h
    obtain ⟨_, rfl⟩ := token_absent.1 h
    rfl

lemma Sound.map {r : Rule α} (h : r.Sound D) (f : α → β) :
    (r.map f).Sound fun w b => ∃ a, D w a ∧ f a = b := by
  refine ⟨fun c b c' hr => ?_, fun c c' hr => h.absent c c' (map_absent.1 hr)⟩
  obtain ⟨a, ha, rfl⟩ := map_found.1 hr
  obtain ⟨w, hw, hd⟩ := h.found c a c' ha
  exact ⟨w, hw, a, hd, rfl⟩

lemma Sound.seq {r : Rule α} {t : Tail β} (hr : r.Sound D) (ht : t.Sound F) :
    (r.seq t).Sound (Both D F) := by
  refine ⟨fun c p c' h => ?_, fun c c' h => hr.absent c c' (seq_absent.1 h)⟩
  obtain ⟨d, ha, hb⟩ := seq_found.1 h
  obtain ⟨u, hu, hd⟩ := hr.found c p.1 d ha
  obtain ⟨v, hv, hf⟩ := ht d p.2 c' hb
  exact ⟨u ++ v, by rw [hu, hv, List.append_assoc], u, v, rfl, hd, hf⟩

lemma Sound.group {r : Rule α} (h : r.Sound D) : (group r).Sound D :=
  ⟨h.found, h.absent⟩

lemma Sound.skips {r : Rule α} (h : r.Sound D) {c c' : Cursor} (hs : r.Skips c c') : c'.rest = c.rest := by
  rcases hs with ⟨d, hd, rfl⟩ | ⟨e, d, _, _, rfl⟩
  · simpa using h.absent c d hd
  · simp

lemma Sound.opt {r : Rule α} (h : r.Sound D) :
    (opt r).Sound fun w o => (w = [] ∧ o = none) ∨ ∃ a, o = some a ∧ D w a := by
  refine ⟨fun c o c' hr => ?_, fun c c' hr => (opt_ne_absent hr).elim⟩
  rcases opt_found.1 hr with ⟨a, d, ha, rfl, rfl⟩ | ⟨rfl, hs⟩
  · obtain ⟨w, hw, hd⟩ := h.found c a d ha
    exact ⟨w, by simpa using hw, .inr ⟨a, rfl, hd⟩⟩
  · exact ⟨[], (h.skips hs).symm, .inl ⟨rfl, rfl⟩⟩

lemma Sound.manyFrom {r : Rule α} (h : r.Sound D) {fuel : Nat} {c c' : Cursor} {as : List α}
    (hr : manyFrom r fuel c = (.found as, c')) : ∃ w, c.rest = w ++ c'.rest ∧ Many D w as := by
  induction fuel generalizing c as with
  | zero =>
    cases hr
    exact ⟨[], rfl, .nil⟩
  | succ fuel ih =>
    rcases manyFrom_found.1 hr with ⟨a, d, bs, ha, hbs, rfl⟩ | ⟨rfl, hs⟩
    · obtain ⟨w, hw, hd⟩ := h.found c a d ha
      obtain ⟨v, hv, hm⟩ := ih hbs
      rw [Cursor.accept_rest] at hv
      exact ⟨w ++ v, by rw [hw, hv, List.append_assoc], .cons hd hm⟩
    · exact ⟨[], (h.skips hs).symm, .nil⟩

lemma Sound.many {r : Rule α} (h : r.Sound D) : (many r).Sound (Many D) :=
  ⟨fun _ _ _ hr => h.manyFrom hr, fun _ _ hr => (manyFrom_ne_absent hr).elim⟩

lemma firstOf_sound {rs : List (Rule α)} (h : ∀ r ∈ rs, r.Sound D) (worst : Option (Fault × Nat))
    (c c' : Cursor) :
    (∀ a, firstOf worst rs c = (.found a, c') → ∃ w, c.rest = w ++ c'.rest ∧ D w a) ∧
      (firstOf worst rs c = (.absent, c') → c'.rest = c.rest) := by
  induction rs generalizing worst c with
  | nil =>
    cases worst with
    | none =>
      refine ⟨by simp [firstOf], fun hr => ?_⟩
      cases hr
      rfl
    | some p => simp [firstOf]
  | cons r rs ih =>
    obtain ⟨hr, hrs⟩ := List.forall_mem_cons.1 h
    rcases ho : r.run c with ⟨_ | a | e, d⟩
    · simpa [firstOf, ho] using ih hrs worst c
    · obtain ⟨w, hw, hd⟩ := hr.found c a d ho
      simp only [firstOf, ho]
      refine ⟨?_, by simp⟩
      rintro b hb
      cases hb
      exact ⟨w, by simpa using hw, hd⟩
    · have hi := fun worst => ih hrs worst (c.heed d e)
      simp only [Cursor.heed_rest] at hi
      simp only [firstOf, ho]
      split
      · simp
      · exact hi _

lemma choice_sound {rs : List (Rule α)} (h : rs.Forall (·.Sound D)) : (choice rs).Sound D := by
  have hf := firstOf_sound (List.forall_iff_forall_mem.1 h) none
  exact ⟨fun c a c' => (hf c c').1 a, fun c c' => (hf c c').2⟩

lemma Sound.named {r : Rule α} (h : r.Sound D) (name : String) :
    (named name r).Sound fun w p => D w p.1 ∧ ∀ l ls, w = l :: ls → p.2 = l.token.start := by
  refine ⟨fun c p c' hr => ?_, fun c c' hr => h.absent c c' (named_absent.1 hr)⟩
  obtain ⟨ha, hp⟩ := named_found.1 hr
  obtain ⟨w, hw, hd⟩ := h.found c p.1 c' ha
  refine ⟨w, hw, hd, ?_⟩
  rintro l ls rfl
  exact hp.trans (Cursor.pos_of_rest hw)

end Rule

namespace Tail

lemma sound_last {r : Rule α} (h : r.Sound D) : (last r).Sound D :=
  fun c a c' hr => h.found c a c' (last_ok.1 hr)

lemma Sound.cons {r : Rule α} {t : Tail β} (hr : r.Sound D) (ht : t.Sound F) :
    (cons r t).Sound (Both D F) := by
  intro c p c' h
  obtain ⟨d, ha, hb⟩ := cons_ok.1 h
  obtain ⟨u, hu, hd⟩ := hr.found c p.1 d ha
  obtain ⟨v, hv, hf⟩ := ht d p.2 c' hb
  exact ⟨u ++ v, by rw [hu, hv, List.append_assoc], u, v, rfl, hd, hf⟩

end Tail

namespace Rule

variable {r : Rule α} {w v rest : List Lexeme}

lemma token_finds {text : String} {p : Token → Bool} {l : Lexeme} (hp : p l.token = true) :
    (token text p).Finds [l] l rest := by
  intro c hc
  exact ⟨c.advance, token_found.2 ⟨⟨rest, hc⟩, hp, rfl⟩, by simp [hc]⟩

lemma token_misses {text : String} {p : Token → Bool} (hp : ∀ l ∈ rest.head?, p l.token = false) :
    (token text p).Misses rest := by
  rintro c rfl
  exact token_absent.2 ⟨hp, rfl⟩

lemma Misses.map (h : r.Misses rest) (f : α → β) : (r.map f).Misses rest :=
  fun c hc => map_absent.2 (h c hc)

lemma Misses.seq (h : r.Misses rest) (t : Tail β) : (r.seq t).Misses rest :=
  fun c hc => seq_absent.2 (h c hc)

lemma Misses.group (h : r.Misses rest) : (group r).Misses rest := h

lemma Misses.named (h : r.Misses rest) (name : String) : (named name r).Misses rest :=
  fun c hc => named_absent.2 (h c hc)

lemma Misses.convert (h : r.Misses rest) (f : α → Except Fault β) : (convert f r).Misses rest :=
  fun c hc => convert_absent.2 (h c hc)

lemma choice_misses {rs : List (Rule α)} (h : rs.Forall (·.Misses rest)) : (choice rs).Misses rest := by
  intro c hc
  have hf : firstOf none rs c = (.absent, c) := by
    induction rs with
    | nil => rfl
    | cons r rs ih =>
      obtain ⟨hr, hrs⟩ := (List.forall_cons _ _ _).1 h
      simpa [firstOf, hr c hc] using ih hrs
  exact hf

lemma Misses.givesUp (h : r.Misses rest) : r.GivesUp rest := by
  intro c hc
  exact ⟨c.accept c, .inl ⟨c, h c hc, rfl⟩, by simpa using hc, by simp⟩

lemma seq_cons_misses {γ : Type} {q : Rule β} {t : Tail γ} {a : α} {c d : Cursor} (h : r.run c = (.found a, d))
    (hq : q.Misses d.rest) : ∃ e, (r.seq (.cons q t)).run c = (.failed e, d) := by
  simp only [seq, h, Tail.cons, Tail.need, hq d rfl]
  exact ⟨_, rfl⟩

lemma Finds.map {a : α} (h : r.Finds w a rest) (f : α → β) : (r.map f).Finds w (f a) rest := by
  intro c hc
  obtain ⟨c', hr, hc'⟩ := h c hc
  exact ⟨c', map_found.2 ⟨a, hr, rfl⟩, hc'⟩

lemma Finds.seq {t : Tail β} {a : α} {b : β} (h : r.Finds w a (v ++ rest)) (ht : t.Finds v b rest) :
    (r.seq t).Finds (w ++ v) (a, b) rest := by
  intro c hc
  obtain ⟨d, hr, hd⟩ := h c (by rw [hc, List.append_assoc])
  obtain ⟨c', hr', hc'⟩ := ht d hd
  exact ⟨c', seq_found.2 ⟨d, hr, hr'⟩, hc'⟩

lemma Finds.group {a : α} (h : r.Finds w a rest) : (group r).Finds w a rest := h

lemma Finds.opt {a : α} (h : r.Finds w a rest) : (opt r).Finds w (some a) rest := by
  intro c hc
  obtain ⟨d, hr, hd⟩ := h c hc
  exact ⟨c.accept d, opt_found.2 (.inl ⟨a, d, hr, rfl, rfl⟩), by simpa using hd⟩

lemma GivesUp.opt (h : r.GivesUp rest) : (opt r).Finds [] none rest := by
  intro c hc
  obtain ⟨c', hs, hc', _⟩ := h c hc
  exact ⟨c', opt_found.2 (.inr ⟨rfl, hs⟩), hc'⟩

lemma Finds.named {l : Lexeme} {a : α} (h : r.Finds (l :: w) a rest) (name : String) :
    (named name r).Finds (l :: w) (a, l.token.start) rest := by
  intro c hc
  obtain ⟨c', hr, hc'⟩ := h c hc
  exact ⟨c', named_found.2 ⟨hr, (Cursor.pos_of_rest hc).symm⟩, hc'⟩

lemma Finds.convert {a : α} {b : β} (h : r.Finds w a rest) {f : α → Except Fault β} (hf : f a = .ok b) :
    (convert f r).Finds w b rest := by
  intro c hc
  obtain ⟨c', hr, hc'⟩ := h c hc
  exact ⟨c', convert_found.2 ⟨a, hr, hf⟩, hc'⟩

lemma choice_finds (rs rs' : List (Rule α)) (hm : rs.Forall (·.Misses (w ++ rest))) {a : α}
    (h : r.Finds w a rest) : (choice (rs ++ r :: rs')).Finds w a rest := by
  intro c hc
  obtain ⟨d, hr, hd⟩ := h c hc
  have hf : firstOf none (rs ++ r :: rs') c = (.found a, c.accept d) := by
    induction rs with
    | nil => simp [firstOf, hr]
    | cons q rs ih =>
      obtain ⟨hq, hrs⟩ := (List.forall_cons _ _ _).1 hm
      simpa [firstOf, hq c hc] using ih hrs
  exact ⟨c.accept d, hf, by simpa using hd⟩

lemma manyFrom_finds {as : List α} (hm : Many D w as)
    (hf : ∀ u v a, D u a → r.Finds u a v) (hg : r.GivesUp rest) {fuel : Nat} (hl : as.length < fuel)
    {c : Cursor} (hc : c.rest = w ++ rest) :
    ∃ c', manyFrom r fuel c = (.found as, c') ∧ c'.rest = rest := by
  induction hm generalizing fuel c with
  | nil =>
    obtain ⟨fuel, rfl⟩ := Nat.exists_eq_succ_of_ne_zero (Nat.ne_of_gt hl)
    obtain ⟨c', hs, hc', _⟩ := hg c hc
    exact ⟨c', manyFrom_found.2 (.inr ⟨rfl, hs⟩), hc'⟩
  | @cons u v a as hu _ ih =>
    obtain ⟨fuel, rfl⟩ := Nat.exists_eq_succ_of_ne_zero (Nat.ne_zero_of_lt hl)
    obtain ⟨d, hr, hd⟩ := hf u (v ++ rest) a hu c (by rw [hc, List.append_assoc])
    obtain ⟨c', hr', hc'⟩ := ih (by simpa using hl) (c := c.accept d) (by simpa using hd)
    exact ⟨c', manyFrom_found.2 (.inl ⟨a, d, as, hr, hr', rfl⟩), hc'⟩

lemma Many.length_le {as : List α} (hm : Many D w as) (hn : ∀ u a, D u a → u ≠ []) :
    as.length ≤ w.length := by
  induction hm with
  | nil => exact Nat.le_refl _
  | cons hu _ ih =>
    have := List.length_pos_iff.2 (hn _ _ hu)
    simp only [List.length_cons, List.length_append]
    omega

lemma many_finds {as : List α} (hm : Many D w as) (hn : ∀ u a, D u a → u ≠ [])
    (hf : ∀ u v a, D u a → r.Finds u a v) (hg : r.GivesUp rest) : (many r).Finds w as rest := by
  intro c hc
  refine manyFrom_finds hm hf hg ?_ hc
  have := Many.length_le hm hn
  rw [hc, List.length_append]
  omega

end Rule

namespace Tail

variable {r : Rule α} {w v rest : List Lexeme}

lemma finds_last {a : α} (h : r.Finds w a rest) : (last r).Finds w a rest := by
  intro c hc
  obtain ⟨c', hr, hc'⟩ := h c hc
  exact ⟨c', last_ok.2 hr, hc'⟩

lemma Finds.cons {t : Tail β} {a : α} {b : β} (h : r.Finds w a (v ++ rest)) (ht : t.Finds v b rest) :
    (cons r t).Finds (w ++ v) (a, b) rest := by
  intro c hc
  obtain ⟨d, hr, hd⟩ := h c (by rw [hc, List.append_assoc])
  obtain ⟨c', hr', hc'⟩ := ht d hd
  exact ⟨c', cons_ok.2 ⟨d, hr, hr'⟩, hc'⟩

end Tail

end BlockIR.Listing
