import BlockIR.Proofs.Listing.Lexing

/-! Phrases of a grammar in extended Backus-Naur form, and their derivation trees. What a phrase can start
with tells where a derivation ends and which alternative it takes, so that tokens have only one derivation.
-/

namespace BlockIR.Listing

inductive Terminal where
  | literal (s : String)
  | kind (k : TokenKind)

def Terminal.Matches : Terminal → Token → Prop
  | literal s, t => t.text = s
  | kind k, t => t.kind = k

/-- A grammar without recursion: a symbol is short for the phrase it stands for. -/
inductive Phrase where
  | terminal (f : Terminal)
  | seq (a b : Phrase)
  | opt (a : Phrase)
  | many (a : Phrase)
  | alt (a b : Phrase)

namespace Phrase

abbrev Derivation : Phrase → Type
  | terminal f => { t : Token // f.Matches t }
  | seq a b => a.Derivation × b.Derivation
  | opt a => Option a.Derivation
  | many a => List a.Derivation
  | alt a b => a.Derivation ⊕ b.Derivation

def yield : (e : Phrase) → e.Derivation → List Token
  | terminal _, t => [t.1]
  | seq a b, d => a.yield d.1 ++ b.yield d.2
  | opt a, d => d.elim [] a.yield
  | many a, ds => ds.flatMap a.yield
  | alt a b, d => d.elim a.yield b.yield

def nullable : Phrase → Bool
  | terminal _ => false
  | seq a b => a.nullable && b.nullable
  | opt _ | many _ => true
  | alt a b => a.nullable || b.nullable

def first : Phrase → List Terminal
  | terminal f => [f]
  | seq a b => a.first ++ if a.nullable then b.first else []
  | opt a | many a => a.first
  | alt a b => a.first ++ b.first

def firstBefore (e : Phrase) (gs : List Terminal) : List Terminal :=
  e.first ++ if e.nullable then gs else []

end Phrase

def Token.Whole (t : Token) : Prop :=
  t.kind.lexeme t.text.toList = t.text.toList ∧ t.text.toList ≠ []

namespace Terminal

def excludes : Terminal → Terminal → Bool
  | literal s, literal s' => s != s'
  | kind k, kind k' => k ≠ k'
  | literal s, kind k | kind k, literal s => (k.lexeme s.toList).isEmpty

lemma not_matches {f g : Terminal} {t : Token} (h : f.excludes g = true) (ht : t.Whole) (hf : f.Matches t) :
    ¬ g.Matches t := by
  intro hg
  have hne : t.kind.lexeme t.text.toList ≠ [] := by
    rw [ht.1]
    exact ht.2
  cases f <;> cases g <;> simp_all [excludes, Matches]

end Terminal

def exclusive (fs gs : List Terminal) : Bool :=
  fs.all fun f => gs.all fun g => f.excludes g

def Leads (fs : List Terminal) (ts : List Token) : Prop :=
  ∀ t ∈ ts.head?, ∃ f ∈ fs, f.Matches t

lemma Leads.append {fs gs : List Terminal} {us vs : List Token} (hu : Leads fs us) (hv : Leads gs vs) :
    Leads (fs ++ gs) (us ++ vs) := by
  intro t ht
  cases us with
  | nil =>
    obtain ⟨g, hg, hm⟩ := hv t ht
    exact ⟨g, List.mem_append_right fs hg, hm⟩
  | cons u us =>
    obtain ⟨f, hf, hm⟩ := hu t ht
    exact ⟨f, List.mem_append_left gs hf, hm⟩

lemma Leads.append_of_ne_nil {fs : List Terminal} {us : List Token} (hu : Leads fs us) (hne : us ≠ [])
    (vs : List Token) : Leads fs (us ++ vs) := by
  cases us with
  | nil => exact absurd rfl hne
  | cons u us => exact hu

lemma Leads.not_leads {fs gs : List Terminal} {ts : List Token} (hf : Leads fs ts)
    (h : exclusive fs gs = true) (hne : ts ≠ []) (hw : ∀ t ∈ ts, t.Whole) : ¬ Leads gs ts := by
  intro hg
  obtain ⟨t, ts, rfl⟩ := List.exists_cons_of_ne_nil hne
  obtain ⟨f, hf, hft⟩ := hf t rfl
  obtain ⟨g, hg, hgt⟩ := hg t rfl
  have hx : f.excludes g = true := List.all_eq_true.1 (List.all_eq_true.1 h f hf) g hg
  exact Terminal.not_matches hx (hw t List.mem_cons_self) hft hgt

namespace Phrase

variable {a b : Phrase} {gs : List Terminal}

@[simp] lemma yield_terminal {f : Terminal} (t : (terminal f).Derivation) : (terminal f).yield t = [t.1] := rfl

@[simp] lemma yield_seq (x : a.Derivation) (y : b.Derivation) :
    (a.seq b).yield (x, y) = a.yield x ++ b.yield y := rfl

@[simp] lemma yield_cons (x : a.Derivation) (d : a.many.Derivation) :
    a.many.yield (x :: d) = a.yield x ++ a.many.yield d := List.flatMap_cons

lemma yield_ne_nil {e : Phrase} (h : e.nullable = false) (d : e.Derivation) : e.yield d ≠ [] := by
  induction e with
  | terminal f => simp [yield]
  | seq a b iha ihb =>
    obtain ⟨d, d'⟩ := d
    rcases Bool.and_eq_false_iff.1 h with ha | hb
    · simp [yield, iha ha]
    · simp [yield, ihb hb]
  | opt a _ | many a _ => cases h
  | alt a b iha ihb =>
    obtain ⟨ha, hb⟩ := Bool.or_eq_false_iff.1 h
    cases d with
    | inl d => exact iha ha d
    | inr d => exact ihb hb d

lemma leads_yield_append_of {e : Phrase} {d : e.Derivation} (hd : Leads e.first (e.yield d)) {ts : List Token}
    (ht : Leads gs ts) : Leads (e.firstBefore gs) (e.yield d ++ ts) := by
  cases hn : e.nullable with
  | true => simpa [firstBefore, hn] using hd.append ht
  | false => simpa [firstBefore, hn] using hd.append_of_ne_nil (yield_ne_nil hn d) ts

lemma leads_yield {e : Phrase} (d : e.Derivation) : Leads e.first (e.yield d) := by
  induction e with
  | terminal f =>
    rintro t ⟨⟩
    exact ⟨f, List.mem_singleton_self f, d.2⟩
  | seq a b iha ihb => exact leads_yield_append_of (iha d.1) (ihb d.2)
  | opt a ih =>
    cases d with
    | none => rintro t ⟨⟩
    | some d => exact ih d
  | many a ih =>
    induction d with
    | nil => rintro t ⟨⟩
    | cons d ds ihd =>
      have h := (ih d).append ihd
      rintro t ht
      obtain ⟨f, hf, hm⟩ := h t ht
      exact ⟨f, (List.mem_append.1 hf).elim id id, hm⟩
  | alt a b iha ihb =>
    rintro t ht
    cases d with
    | inl d =>
      obtain ⟨f, hf, hm⟩ := iha d t ht
      exact ⟨f, List.mem_append_left _ hf, hm⟩
    | inr d =>
      obtain ⟨f, hf, hm⟩ := ihb d t ht
      exact ⟨f, List.mem_append_right _ hf, hm⟩

lemma leads_yield_append {e : Phrase} (d : e.Derivation) {ts : List Token} (ht : Leads gs ts) :
    Leads (e.firstBefore gs) (e.yield d ++ ts) :=
  leads_yield_append_of (leads_yield d) ht

lemma leads_first {e : Phrase} (h : e.nullable = false) (d : e.Derivation) (ts : List Token) :
    Leads e.first (e.yield d ++ ts) :=
  (leads_yield d).append_of_ne_nil (yield_ne_nil h d) ts

def terminals : Phrase → List Terminal
  | terminal f => [f]
  | seq a b | alt a b => a.terminals ++ b.terminals
  | opt a | many a => a.terminals

lemma exists_terminal {e : Phrase} (d : e.Derivation) : ∀ t ∈ e.yield d, ∃ f ∈ e.terminals, f.Matches t := by
  intro t ht
  induction e with
  | terminal f =>
    obtain rfl := List.mem_singleton.1 ht
    exact ⟨f, List.mem_singleton_self f, d.2⟩
  | seq a b iha ihb =>
    rcases List.mem_append.1 ht with ht | ht
    · obtain ⟨f, hf, hm⟩ := iha d.1 ht
      exact ⟨f, List.mem_append_left _ hf, hm⟩
    · obtain ⟨f, hf, hm⟩ := ihb d.2 ht
      exact ⟨f, List.mem_append_right _ hf, hm⟩
  | opt a ih =>
    cases d with
    | none => cases ht
    | some d => exact ih d ht
  | many a ih =>
    obtain ⟨x, _, hx⟩ := List.mem_flatMap.1 ht
    exact ih x hx
  | alt a b iha ihb =>
    cases d with
    | inl d =>
      obtain ⟨f, hf, hm⟩ := iha d ht
      exact ⟨f, List.mem_append_left _ hf, hm⟩
    | inr d =>
      obtain ⟨f, hf, hm⟩ := ihb d ht
      exact ⟨f, List.mem_append_right _ hf, hm⟩

lemma not_matches_of_exclusive {e : Phrase} {fs : List Terminal} (he : exclusive fs e.terminals = true)
    {d : e.Derivation} (hw : ∀ t ∈ e.yield d, t.Whole) {t : Token} (ht : t ∈ e.yield d) {f : Terminal} (hf : f ∈ fs) :
    ¬ f.Matches t := by
  intro hm
  obtain ⟨g, hg, hm'⟩ := exists_terminal d t ht
  have hx : f.excludes g = true := List.all_eq_true.1 (List.all_eq_true.1 he f hf) g hg
  exact Terminal.not_matches hx (hw t ht) hm hm'

/-- Before one of `gs`, tokens tell where a derivation ends and which one of those with `P` it is. -/
def Determined (e : Phrase) (P : e.Derivation → Prop) (gs : List Terminal) : Prop :=
  ∀ ⦃d d' : e.Derivation⦄ ⦃r r' : List Token⦄, P d → P d' → Leads gs r → Leads gs r' →
    (∀ t ∈ e.yield d ++ r, t.Whole) → e.yield d ++ r = e.yield d' ++ r' → d = d' ∧ r = r'

namespace Determined

variable {P P' : a.Derivation → Prop} {Q : b.Derivation → Prop}

lemma imp (h : a.Determined P gs) (hP : ∀ d, P' d → P d) : a.Determined P' gs :=
  fun _ _ _ _ hd hd' => h (hP _ hd) (hP _ hd')

lemma terminal (f : Terminal) (P : (Phrase.terminal f).Derivation → Prop) :
    (Phrase.terminal f).Determined P gs := by
  intro t t' r r' _ _ _ _ _ h
  obtain ⟨ht, hr⟩ := List.cons.inj h
  exact ⟨Subtype.ext ht, hr⟩

lemma seq (ha : a.Determined P (b.firstBefore gs)) (hb : b.Determined Q gs) :
    (a.seq b).Determined (fun d => P d.1 ∧ Q d.2) gs := by
  rintro ⟨x, y⟩ ⟨x', y'⟩ r r' ⟨hx, hy⟩ ⟨hx', hy'⟩ hr hr' hw h
  rw [yield_seq, List.append_assoc] at hw h
  rw [yield_seq, List.append_assoc] at h
  obtain ⟨hxx, hrest⟩ := ha hx hx' (leads_yield_append y hr) (leads_yield_append y' hr') hw h
  obtain ⟨hyy, hrr⟩ := hb hy hy' hr hr' (List.forall_mem_append.1 hw).2 hrest
  exact ⟨Prod.ext hxx hyy, hrr⟩

lemma ne_yield_append (hn : a.nullable = false) (hx : exclusive a.first gs = true) {r r' : List Token}
    (hr : Leads gs r) (d : a.Derivation) (hw : ∀ t ∈ r, t.Whole) : r ≠ a.yield d ++ r' := by
  rintro rfl
  have hne : a.yield d ++ r' ≠ [] := by simp [yield_ne_nil hn]
  exact (leads_first hn d r').not_leads hx hne hw hr

lemma opt (ha : a.Determined P gs) (hn : a.nullable = false) (hx : exclusive a.first gs = true) :
    a.opt.Determined (fun d => ∀ x ∈ d, P x) gs := by
  intro d d' r r' hd hd' hr hr' hw h
  cases d with
  | none =>
    cases d' with
    | none => exact ⟨rfl, h⟩
    | some x' => exact absurd h (ne_yield_append hn hx hr x' hw)
  | some x =>
    cases d' with
    | none =>
      rw [h] at hw
      exact absurd h.symm (ne_yield_append hn hx hr' x hw)
    | some x' =>
      obtain ⟨rfl, rfl⟩ := ha (hd x rfl) (hd' x' rfl) hr hr' hw h
      exact ⟨rfl, rfl⟩

lemma opt_seq (ha : a.Determined P (b.firstBefore gs)) (hb : b.Determined Q gs)
    (hne : ∀ x y r r', P x → Q y → (∀ t ∈ a.yield x ++ r, t.Whole) → a.yield x ++ r ≠ b.yield y ++ r') :
    (a.opt.seq b).Determined (fun d => (∀ x ∈ d.1, P x) ∧ Q d.2) gs := by
  rintro ⟨_ | x, y⟩ ⟨_ | x', y'⟩ r r' ⟨hx, hy⟩ ⟨hx', hy'⟩ hr hr' hw h
  · obtain ⟨rfl, rfl⟩ := hb hy hy' hr hr' hw h
    exact ⟨rfl, rfl⟩
  · rw [h, yield_seq, List.append_assoc] at hw
    rw [yield_seq _ y', List.append_assoc] at h
    exact absurd h.symm (hne x' y _ r (hx' x' rfl) hy hw)
  · rw [yield_seq, List.append_assoc] at hw h
    exact absurd h (hne x y' _ r' (hx x rfl) hy' hw)
  · have hseq := ha.seq hb
    obtain ⟨hxy, hrr⟩ := @hseq (x, y) (x', y') r r' ⟨hx x rfl, hy⟩ ⟨hx' x' rfl, hy'⟩ hr hr' hw h
    cases hxy
    exact ⟨rfl, hrr⟩

lemma many (ha : a.Determined P (a.first ++ gs)) (hn : a.nullable = false)
    (hx : exclusive a.first gs = true) : a.many.Determined (fun d => ∀ x ∈ d, P x) gs := by
  intro d
  induction d with
  | nil =>
    rintro (_ | ⟨x', d'⟩) r r' _ _ hr _ hw h
    · exact ⟨rfl, h⟩
    · rw [yield_cons, List.append_assoc] at h
      exact absurd h (ne_yield_append hn hx hr x' hw)
  | cons x d ih =>
    rintro (_ | ⟨x', d'⟩) r r' hd hd' hr hr' hw h
    · rw [h] at hw
      rw [yield_cons, List.append_assoc] at h
      exact absurd h.symm (ne_yield_append hn hx hr' x hw)
    · obtain ⟨hx, hd⟩ := List.forall_mem_cons.1 hd
      obtain ⟨hx', hd'⟩ := List.forall_mem_cons.1 hd'
      rw [yield_cons, List.append_assoc] at hw h
      rw [yield_cons, List.append_assoc] at h
      have hnext {ds : a.many.Derivation} {r : List Token} (hr : Leads gs r) :
          Leads (a.first ++ gs) (a.many.yield ds ++ r) := leads_yield_append ds hr
      obtain ⟨hxx, hrest⟩ := ha hx hx' (hnext hr) (hnext hr') hw h
      obtain ⟨hdd, hrr⟩ := ih hd hd' hr hr' (List.forall_mem_append.1 hw).2 hrest
      exact ⟨by rw [hxx, hdd], hrr⟩

lemma alt (ha : a.Determined P gs) (hb : b.Determined Q gs)
    (hne : ∀ x y r r', P x → Q y → (∀ t ∈ a.yield x ++ r, t.Whole) → a.yield x ++ r ≠ b.yield y ++ r') :
    (a.alt b).Determined (fun d => d.elim P Q) gs := by
  rintro (x | y) (x' | y') r r' hd hd' hr hr' hw h
  · obtain ⟨rfl, rfl⟩ := ha hd hd' hr hr' hw h
    exact ⟨rfl, rfl⟩
  · exact absurd h (hne x y' r r' hd hd' hw)
  · rw [h] at hw
    exact absurd h.symm (hne x' y r' r hd' hd hw)
  · obtain ⟨rfl, rfl⟩ := hb hd hd' hr hr' hw h
    exact ⟨rfl, rfl⟩

lemma alt_of_exclusive (ha : a.Determined P gs) (hb : b.Determined Q gs) (hna : a.nullable = false)
    (hnb : b.nullable = false) (hx : exclusive a.first b.first = true) :
    (a.alt b).Determined (fun d => d.elim P Q) gs := by
  refine ha.alt hb fun x y r r' _ _ hw h => ?_
  have hne : a.yield x ++ r ≠ [] := by simp [yield_ne_nil hna]
  exact (leads_first hna x r).not_leads hx hne hw (h ▸ leads_first hnb y r')

end Determined

end Phrase

end BlockIR.Listing
