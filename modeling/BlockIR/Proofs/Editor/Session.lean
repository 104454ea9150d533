import BlockIR.Proofs.Editor.Diagnostic
import Mathlib.Data.List.Induction

/-! What a session knows after any run of requests. For each document it comes down to the last text that was
delivered since the document was closed, if there is one: the session holds its analysis, and the diagnostics
that were published last are those of the analysis. -/

namespace BlockIR.Editor

structure Event where
  read : Reading
  request : Request

def FileHas (read : Reading) (uri content : String) : Prop :=
  ∃ path text, Uri.path uri = .ok path ∧ read path = .ok text ∧ text.shown = content

/-- An event brings a text to a session: the text of an open, the last whole text of some changes, or the
file's, if no change is whole or if highlights are asked for while the session has nothing to show. -/
inductive Delivers (uri : String) (s : Session) : Event → String → Prop
  | opened (read : Reading) (text : String) : Delivers uri s ⟨read, .opened uri text⟩ text
  | replaced (read : Reading) (before parts : List Change) (text : String) : (∀ c ∈ parts, c = .part) →
      Delivers uri s ⟨read, .changed uri (before ++ .whole text :: parts)⟩ text
  | reread {read : Reading} {changes : List Change} {content : String} : (∀ c ∈ changes, c = .part) →
      FileHas read uri content → Delivers uri s ⟨read, .changed uri changes⟩ content
  | looked {read : Reading} {content : String} : s.documents.get? uri = none →
      FileHas read uri content → Delivers uri s ⟨read, .highlight uri⟩ content

inductive Misses (s : Session) : Event → Prop
  | reread {read : Reading} {uri : String} {changes : List Change} : (∀ c ∈ changes, c = .part) →
      (∀ content, ¬ FileHas read uri content) → Misses s ⟨read, .changed uri changes⟩
  | looked {read : Reading} {uri : String} : s.documents.get? uri = none →
      (∀ content, ¬ FileHas read uri content) → Misses s ⟨read, .highlight uri⟩

def lastOn? (ps : List Publication) (uri : String) : Option (List Diagnostic) :=
  ((ps.filter (·.uri = uri)).getLast?).map Publication.diagnostics

namespace Session

def respond (s : Session) (e : Event) : Response :=
  s.step e.read e.request

def run (s : Session) : List Event → Session × List Publication
  | [] => (s, [])
  | e :: es =>
    let r := s.respond e
    let (s', ps) := r.session.run es
    (s', r.published ++ ps)

def after (es : List Event) : Session :=
  (run {} es).1

def lastPublished? (es : List Event) (uri : String) : Option (List Diagnostic) :=
  lastOn? (run {} es).2 uri

end Session

section History

/-- Among the events there is one with `P`, and none with `Q` after it. Each is seen from the session that it
comes to. -/
def Prevails (P Q : Session → Event → Prop) (es : List Event) : Prop :=
  ∃ k e, es[k]? = some e ∧ P (Session.after (es.take k)) e ∧
    ∀ j e', k < j → es[j]? = some e' → ¬ Q (Session.after (es.take j)) e'

def DeliveredSinceClose (uri : String) : List Event → Prop :=
  Prevails (fun s e => ∃ content, Delivers uri s e content) fun _ e => e.request = .closed uri

def LastDelivered (uri content : String) : List Event → Prop :=
  Prevails (fun s e => Delivers uri s e content)
    fun s e => e.request = .closed uri ∨ ∃ content, Delivers uri s e content

def ClosedSinceDelivery (uri : String) : List Event → Prop :=
  Prevails (fun _ e => e.request = .closed uri) fun s e => ∃ content, Delivers uri s e content

end History

/-- What a new session knows about a document after some events. -/
structure Session.Reflects (es : List Event) (uri : String) : Prop where
  held : (∃ d, (Session.after es).documents.get? uri = some d) ↔ DeliveredSinceClose uri es
  document : ∀ d, (Session.after es).documents.get? uri = some d ↔
    ∃ content, LastDelivered uri content es ∧ d = Document.analyze uri content
  program : ∀ p, (Session.after es).program? uri = some p ↔
    ∃ content, LastDelivered uri content es ∧ Program.ofText uri content = .ok p
  published : ∀ ds, Session.lastPublished? es uri = some ds ↔
    (∃ content, LastDelivered uri content es ∧ (Document.analyze uri content).Shows ds) ∨
      ClosedSinceDelivery uri es ∧ ds = []

lemma fetch_ok {read : Reading} {uri content : String} :
    fetch read uri = .ok content ↔ FileHas read uri content := by
  simp only [fetch, bind_eq_ok, mapError_eq_ok, FileHas]
  constructor
  · rintro ⟨path, hpath, text, htext, h⟩
    cases h
    exact ⟨path, text, hpath, htext, rfl⟩
  · rintro ⟨path, text, hpath, htext, rfl⟩
    exact ⟨path, hpath, text, htext, rfl⟩

namespace Change

lemma content?_concat (cs : List Change) (c : Change) : content? (cs ++ [c]) =
    match c with
    | .whole text => some text
    | .part => content? cs := by
  cases c <;> simp [content?]

lemma content?_eq_none {cs : List Change} : content? cs = none ↔ ∀ c ∈ cs, c = .part := by
  induction cs using List.reverseRecOn with
  | nil => simp [content?]
  | append_singleton cs c ih => cases c <;> simp [content?_concat, ih, or_imp, forall_and]

lemma content?_replaced {parts : List Change} (h : ∀ c ∈ parts, c = .part) (cs : List Change) (text : String) :
    content? (cs ++ .whole text :: parts) = some text := by
  induction parts using List.reverseRecOn with
  | nil => simp [content?_concat]
  | append_singleton parts c ih =>
    obtain rfl : c = .part := h c (by simp)
    rw [← List.cons_append, ← List.append_assoc, content?_concat]
    exact ih fun d hd => h d (by simp [hd])

lemma content?_eq_some {cs : List Change} {text : String} : content? cs = some text ↔
    ∃ before parts, cs = before ++ .whole text :: parts ∧ ∀ c ∈ parts, c = .part := by
  constructor
  · intro h
    induction cs using List.reverseRecOn with
    | nil => cases h
    | append_singleton cs c ih =>
      rw [content?_concat] at h
      cases c with
      | whole t =>
        cases h
        exact ⟨cs, [], rfl, by simp⟩
      | part =>
        obtain ⟨before, parts, rfl, hparts⟩ := ih h
        exact ⟨before, parts ++ [.part], by simp, by simpa [or_imp, forall_and] using hparts⟩
  · rintro ⟨before, parts, rfl, hparts⟩
    exact content?_replaced hparts before text

end Change

section Step

variable {uri u content : String} {s : Session} {read : Reading} {e : Event}

lemma delivers_opened {text : String} :
    Delivers uri s ⟨read, .opened u text⟩ content ↔ u = uri ∧ content = text := by
  constructor
  · rintro ⟨⟩
    exact ⟨rfl, rfl⟩
  · rintro ⟨rfl, rfl⟩
    exact .opened read content

lemma delivers_changed {changes : List Change} : Delivers uri s ⟨read, .changed u changes⟩ content ↔
    u = uri ∧ (Change.content? changes = some content ∨
      Change.content? changes = none ∧ fetch read uri = .ok content) := by
  rw [Change.content?_eq_none, Change.content?_eq_some, fetch_ok]
  constructor
  · rintro (_ | ⟨_, before, parts, _, h⟩ | ⟨h, hf⟩)
    · exact ⟨rfl, .inl ⟨before, parts, rfl, h⟩⟩
    · exact ⟨rfl, .inr ⟨h, hf⟩⟩
  · rintro ⟨rfl, ⟨before, parts, rfl, h⟩ | ⟨h, hf⟩⟩
    · exact .replaced read before parts content h
    · exact .reread h hf

lemma delivers_highlight : Delivers uri s ⟨read, .highlight u⟩ content ↔
    u = uri ∧ s.documents.get? uri = none ∧ fetch read uri = .ok content := by
  rw [fetch_ok]
  constructor
  · rintro ⟨⟩
    exact ⟨rfl, ‹_›, ‹_›⟩
  · rintro ⟨rfl, h, hf⟩
    exact .looked h hf

inductive Effect (uri : String) (s : Session) (e : Event) : Prop
  | delivered {content : String} : Delivers uri s e content →
      (s.respond e).session.documents.get? uri = some (.analyze uri content) →
      lastOn? (s.respond e).published uri = some (Document.analyze uri content).diagnostics → Effect uri s e
  | closed : e.request = .closed uri → (s.respond e).session.documents.get? uri = none →
      lastOn? (s.respond e).published uri = some [] → Effect uri s e
  | none : (∀ content, ¬ Delivers uri s e content) → e.request ≠ .closed uri →
      (s.respond e).session.documents.get? uri = s.documents.get? uri →
      lastOn? (s.respond e).published uri = none → Effect uri s e

lemma effect_of_update (hr : (s.respond e).session = (s.update u content).session)
    (hp : (s.respond e).published = (s.update u content).published) (hc : e.request ≠ .closed uri)
    (hd : ∀ c, Delivers uri s e c ↔ u = uri ∧ c = content) : Effect uri s e := by
  by_cases hu : u = uri
  · subst hu
    refine .delivered ((hd content).2 ⟨rfl, rfl⟩) ?_ ?_
    · simp [hr, Session.update, Table.get?_set]
    · simp [hp, Session.update, lastOn?]
  · refine .none (fun c h => hu ((hd c).1 h).1) hc ?_ ?_
    · simp [hr, Session.update, Table.get?_set, hu]
    · simp [hp, Session.update, lastOn?, hu]

lemma effect_of_unchanged (hr : (s.respond e).session.documents = s.documents)
    (hp : (s.respond e).published = []) (hc : e.request ≠ .closed uri)
    (hd : ∀ content, ¬ Delivers uri s e content) : Effect uri s e :=
  .none hd hc (by rw [hr]) (by rw [hp]; rfl)

lemma effect (uri : String) (s : Session) (e : Event) : Effect uri s e := by
  obtain ⟨read, request⟩ := e
  cases request with
  | start | started | setTrace _ | shutdown =>
    exact effect_of_unchanged rfl rfl (by simp) (by rintro _ ⟨⟩)
  | opened u text => exact effect_of_update rfl rfl (by simp) fun _ => delivers_opened
  | changed u changes =>
    have hchange : s.respond ⟨read, .changed u changes⟩ = s.change read u changes := rfl
    cases hw : Change.content? changes with
    | some text =>
      simp only [Session.change, hw] at hchange
      exact effect_of_update (by rw [hchange]) (by rw [hchange]) (by simp)
        fun c => by simp [delivers_changed, hw, eq_comm]
    | none =>
      simp only [Session.change, hw] at hchange
      cases hf : fetch read u with
      | ok content =>
        simp only [hf] at hchange
        refine effect_of_update (by rw [hchange]) (by rw [hchange]) (by simp) fun c => ?_
        simp only [delivers_changed, hw, reduceCtorEq, false_or, true_and]
        exact and_congr_right fun hu => by rw [← hu, hf, Except.ok.injEq, eq_comm]
      | error f =>
        simp only [hf] at hchange
        refine effect_of_unchanged (by rw [hchange]; rfl) (by rw [hchange]; rfl) (by simp) fun c h => ?_
        obtain ⟨rfl, hc | ⟨_, hc⟩⟩ := delivers_changed.1 h
        · simp [hw] at hc
        · simp [hf] at hc
  | closed u =>
    by_cases hu : u = uri
    · subst hu
      refine .closed rfl ?_ ?_
      · simp [Session.respond, Session.step, Session.close, Table.get?_erase]
      · simp [Session.respond, Session.step, Session.close, lastOn?]
    · refine .none (by rintro _ ⟨⟩) (by simpa using hu) ?_ ?_
      · simp [Session.respond, Session.step, Session.close, Table.get?_erase, hu]
      · simp [Session.respond, Session.step, Session.close, lastOn?, hu]
  | highlight u =>
    have hlook : s.respond ⟨read, .highlight u⟩ = s.highlight read u := rfl
    cases hh : s.documents.get? u with
    | some d =>
      simp only [Session.highlight, hh] at hlook
      refine effect_of_unchanged (by rw [hlook]) (by rw [hlook]) (by simp) fun c h => ?_
      obtain ⟨rfl, hn, _⟩ := delivers_highlight.1 h
      simp [hh] at hn
    | none =>
      simp only [Session.highlight, hh] at hlook
      cases hf : fetch read u with
      | ok content =>
        simp only [hf] at hlook
        refine effect_of_update (by rw [hlook]) (by rw [hlook]) (by simp) fun c => ?_
        rw [delivers_highlight]
        exact and_congr_right fun hu => by simp [← hu, hh, hf, eq_comm]
      | error f =>
        simp only [hf] at hlook
        refine effect_of_unchanged (by rw [hlook]; rfl) (by rw [hlook]; rfl) (by simp) fun c h => ?_
        obtain ⟨rfl, _, hc⟩ := delivers_highlight.1 h
        simp [hf] at hc

lemma Delivers.unique {c c' : String} (h : Delivers uri s e c) (h' : Delivers uri s e c') : c = c' := by
  obtain ⟨read, request⟩ := e
  cases request with
  | opened u text => rw [(delivers_opened.1 h).2, (delivers_opened.1 h').2]
  | changed u changes =>
    obtain ⟨_, hc | ⟨hw, hc⟩⟩ := delivers_changed.1 h <;> obtain ⟨_, hc' | ⟨hw', hc'⟩⟩ := delivers_changed.1 h'
    · exact Option.some.inj (hc.symm.trans hc')
    · cases hc.symm.trans hw'
    · cases hw.symm.trans hc'
    · exact Except.ok.inj (hc.symm.trans hc')
  | highlight u => exact Except.ok.inj ((delivers_highlight.1 h).2.2.symm.trans (delivers_highlight.1 h').2.2)
  | _ => cases h

lemma Delivers.not_closed (h : Delivers uri s e content) : e.request ≠ .closed uri := by
  cases h <;> simp

lemma not_fileHas_iff : (∀ content, ¬ FileHas read uri content) ↔ ∃ f, fetch read uri = .error f := by
  simp only [← fetch_ok]
  cases fetch read uri <;> simp

lemma misses_changed {changes : List Change} : Misses s ⟨read, .changed u changes⟩ ↔
    Change.content? changes = none ∧ ∃ f, fetch read u = .error f := by
  rw [Change.content?_eq_none, ← not_fileHas_iff]
  exact ⟨fun h => by cases h; exact ⟨‹_›, ‹_›⟩, fun h => .reread h.1 h.2⟩

lemma misses_highlight : Misses s ⟨read, .highlight u⟩ ↔
    s.documents.get? u = none ∧ ∃ f, fetch read u = .error f := by
  rw [← not_fileHas_iff]
  exact ⟨fun h => by cases h; exact ⟨‹_›, ‹_›⟩, fun h => .looked h.1 h.2⟩

lemma respond_cases (s : Session) (e : Event) :
    ((∃ a, (s.respond e).reply = .ok a) ∧ ¬ Misses s e) ∨ ∃ f, s.respond e = s.fail f ∧ Misses s e := by
  obtain ⟨read, request⟩ := e
  cases request with
  | changed u changes =>
    have hchange : s.respond ⟨read, .changed u changes⟩ = s.change read u changes := rfl
    rw [hchange, misses_changed, Session.change]
    cases Change.content? changes with
    | some text => exact .inl ⟨⟨_, rfl⟩, by simp⟩
    | none =>
      cases fetch read u with
      | ok content => exact .inl ⟨⟨_, rfl⟩, by simp⟩
      | error f => exact .inr ⟨f, rfl, rfl, f, rfl⟩
  | highlight u =>
    have hlook : s.respond ⟨read, .highlight u⟩ = s.highlight read u := rfl
    rw [hlook, misses_highlight, Session.highlight]
    cases s.documents.get? u with
    | some d => exact .inl ⟨⟨_, rfl⟩, by simp⟩
    | none =>
      cases fetch read u with
      | ok content => exact .inl ⟨⟨_, rfl⟩, by simp⟩
      | error f => exact .inr ⟨f, rfl, rfl, f, rfl⟩
  | _ => exact .inl ⟨⟨_, rfl⟩, by rintro ⟨⟩⟩

end Step

namespace Session

lemma run_concat (s : Session) (es : List Event) (e : Event) : s.run (es ++ [e]) =
    (((s.run es).1.respond e).session, (s.run es).2 ++ ((s.run es).1.respond e).published) := by
  induction es generalizing s with
  | nil => simp [run]
  | cons d es ih => simp [run, ih]

lemma after_concat (es : List Event) (e : Event) : after (es ++ [e]) = ((after es).respond e).session := by
  rw [after, run_concat]
  rfl

lemma lastPublished?_concat (es : List Event) (e : Event) (uri : String) : lastPublished? (es ++ [e]) uri =
    (lastOn? ((after es).respond e).published uri).or (lastPublished? es uri) := by
  rw [lastPublished?, run_concat, lastOn?, List.filter_append, List.getLast?_append, Option.map_or]
  rfl

end Session

lemma getElem?_concat {es : List Event} {e d : Event} {k : Nat} : (es ++ [e])[k]? = some d ↔
    (es[k]? = some d ∧ (es ++ [e]).take k = es.take k) ∨ k = es.length ∧ d = e ∧ (es ++ [e]).take k = es := by
  rcases Nat.lt_trichotomy k es.length with h | rfl | h
  · have htake : (es ++ [e]).take k = es.take k := List.take_append_of_le_length (Nat.le_of_lt h)
    simp [List.getElem?_append_left h, htake, Nat.ne_of_lt h]
  · simp [eq_comm]
  · have hlen : (es ++ [e]).length ≤ k := by simpa using Nat.succ_le_of_lt h
    simp [List.getElem?_eq_none hlen, List.getElem?_eq_none (Nat.le_of_lt h), Nat.ne_of_gt h]

lemma lt_of_getElem? {es : List Event} {d : Event} {k : Nat} (h : es[k]? = some d) : k < es.length :=
  (List.getElem?_eq_some_iff.1 h).1

lemma prevails_concat {P Q : Session → Event → Prop} {es : List Event} {e : Event} : Prevails P Q (es ++ [e]) ↔
    P (Session.after es) e ∨ ¬ Q (Session.after es) e ∧ Prevails P Q es := by
  constructor
  · rintro ⟨k, d, hk, hP, hQ⟩
    rcases getElem?_concat.1 hk with ⟨hd, htake⟩ | ⟨rfl, rfl, htake⟩
    · rw [htake] at hP
      refine .inr ⟨?_, k, d, hd, hP, fun j d' hj hd' => ?_⟩
      · have hlast := hQ es.length e (lt_of_getElem? hd) (by simp)
        rwa [List.take_left] at hlast
      · have hlt : j ≤ es.length := Nat.le_of_lt (lt_of_getElem? hd')
        have hnot := hQ j d' hj (getElem?_concat.2 (.inl ⟨hd', List.take_append_of_le_length hlt⟩))
        rwa [List.take_append_of_le_length hlt] at hnot
    · rw [htake] at hP
      exact .inl hP
  · rintro (hP | ⟨hQ, k, d, hd, hP, hafter⟩)
    · refine ⟨es.length, e, by simp, by rwa [List.take_left], fun j d' hj hd' => ?_⟩
      have hlt := lt_of_getElem? hd'
      simp only [List.length_append, List.length_singleton] at hlt
      omega
    · have hk : k ≤ es.length := Nat.le_of_lt (lt_of_getElem? hd)
      have htake : (es ++ [e]).take k = es.take k := List.take_append_of_le_length hk
      refine ⟨k, d, getElem?_concat.2 (.inl ⟨hd, htake⟩), by rwa [htake], fun j d' hj hd' => ?_⟩
      rcases getElem?_concat.1 hd' with ⟨hd', htake'⟩ | ⟨rfl, rfl, htake'⟩
      · rw [htake']
        exact hafter j d' hj hd'
      · rwa [htake']

lemma not_prevails_nil {P Q : Session → Event → Prop} : ¬ Prevails P Q [] := by
  rintro ⟨k, e, hk, _⟩
  simp at hk

section Concat

variable {es : List Event} {e : Event} {uri content : String}

lemma deliveredSinceClose_concat : DeliveredSinceClose uri (es ++ [e]) ↔
    (∃ content, Delivers uri (Session.after es) e content) ∨
      e.request ≠ .closed uri ∧ DeliveredSinceClose uri es :=
  prevails_concat

lemma lastDelivered_concat : LastDelivered uri content (es ++ [e]) ↔
    Delivers uri (Session.after es) e content ∨
      ¬ (e.request = .closed uri ∨ ∃ content, Delivers uri (Session.after es) e content) ∧
        LastDelivered uri content es :=
  prevails_concat

lemma closedSinceDelivery_concat : ClosedSinceDelivery uri (es ++ [e]) ↔
    e.request = .closed uri ∨
      (¬ ∃ content, Delivers uri (Session.after es) e content) ∧ ClosedSinceDelivery uri es :=
  prevails_concat

end Concat

namespace Session

lemma knows (es : List Event) (uri : String) :
    ((∃ d, (after es).documents.get? uri = some d) ↔ DeliveredSinceClose uri es) ∧
    (∀ d, (after es).documents.get? uri = some d ↔
      ∃ content, LastDelivered uri content es ∧ d = .analyze uri content) ∧
    ∀ ds, lastPublished? es uri = some ds ↔
      (∃ content, LastDelivered uri content es ∧ ds = (Document.analyze uri content).diagnostics) ∨
        ClosedSinceDelivery uri es ∧ ds = [] := by
  induction es using List.reverseRecOn with
  | nil =>
    simp [DeliveredSinceClose, LastDelivered, ClosedSinceDelivery, not_prevails_nil, after, lastPublished?,
      lastOn?, run]
  | append_singleton es e ih =>
    obtain ⟨hheld, hdoc, hpub⟩ := ih
    simp only [after_concat, lastPublished?_concat, deliveredSinceClose_concat, lastDelivered_concat,
      closedSinceDelivery_concat]
    cases effect uri (after es) e with
    | @delivered content hd hget hpublished =>
      have hc := hd.not_closed
      have honly (c : String) : Delivers uri (after es) e c ↔ c = content := ⟨fun h => h.unique hd, fun h => h ▸ hd⟩
      rw [hget, hpublished]
      simp [hc, honly, eq_comm]
    | closed hc hget hpublished =>
      have hd (c : String) : ¬ Delivers uri (after es) e c := fun h => h.not_closed hc
      rw [hget, hpublished]
      simp [hc, hd, eq_comm]
    | none hd hc hget hpublished =>
      rw [hget, hpublished]
      simp only [hd, hc, exists_false, or_self, not_false_eq_true, true_and, false_or, ne_eq, Option.none_or]
      exact ⟨hheld, hdoc, hpub⟩

lemma reflects (es : List Event) (uri : String) : Reflects es uri := by
  obtain ⟨hheld, hdoc, hpub⟩ := knows es uri
  have houtcome {content : String} {p : Program} : (Document.analyze uri content).outcome.toOption = some p ↔
      Program.ofText uri content = .ok p := by
    rw [Document.analyze_outcome, toOption_eq_some]
  refine ⟨hheld, hdoc, fun p => ?_, fun ds => ?_⟩
  · simp only [program?, Option.bind_eq_some_iff, hdoc]
    constructor
    · rintro ⟨_, ⟨content, hlast, rfl⟩, hp⟩
      exact ⟨content, hlast, houtcome.1 hp⟩
    · rintro ⟨content, hlast, hp⟩
      exact ⟨_, ⟨content, hlast, rfl⟩, houtcome.2 hp⟩
  · simp only [hpub, Document.analyze_shows]

/-- After any run of requests, with any answers to reading files, a session holds a document if and only if a
text was delivered since the document was closed; it is the analysis of the last of these texts, its program is
what the text is read as, and its diagnostics were published last. A request fails if and only if it needs a
file that cannot be read, and then nothing changes and nothing is published. -/
theorem knows_last_delivered (es : List Event) (uri : String) :
    Reflects es uri ∧ ∀ e, ((∃ f, ((after es).respond e).reply = .error f) ↔ Misses (after es) e) ∧
      (Misses (after es) e → ((after es).respond e).session = after es ∧ ((after es).respond e).published = []) := by
  refine ⟨reflects es uri, fun e => ?_⟩
  rcases respond_cases (after es) e with ⟨⟨a, ha⟩, hm⟩ | ⟨f, hf, hm⟩
  · exact ⟨⟨fun ⟨f, hf⟩ => by simp [ha] at hf, fun h => absurd h hm⟩, fun h => absurd h hm⟩
  · rw [hf]
    exact ⟨⟨fun _ => hm, fun _ => ⟨f, rfl⟩⟩, fun _ => ⟨rfl, rfl⟩⟩

theorem knows_last_delivered_file_gone :
    let file : Reading := fun _ => .ok "@f \x7b\x7d"
    let gone : Reading := fun path => .error ⟨path, .missing⟩
    let es : List Event := [⟨gone, .opened "a" "@"⟩, ⟨gone, .closed "a"⟩, ⟨file, .highlight "a"⟩]
    LastDelivered "a" "@f \x7b\x7d" es ∧ (after es).program? "a" = some ⟨[⟨"f", [], none, []⟩]⟩ ∧
      Misses (after es) ⟨gone, .changed "a" [.part]⟩ ∧
      ((after es).respond ⟨gone, .changed "a" [.part]⟩).session = after es := by
  intro file gone es
  have hpath : Uri.path "a" = .ok "a" := by decide +kernel
  have hlast : LastDelivered "a" "@f \x7b\x7d" es := by
    refine ⟨2, _, rfl, .looked rfl ⟨"a", _, hpath, rfl, rfl⟩, fun j e hj he => ?_⟩
    have hlt := lt_of_getElem? he
    simp only [es, List.length_cons, List.length_nil] at hlt
    omega
  have hmiss : Misses (after es) ⟨gone, .changed "a" [.part]⟩ := by
    refine .reread (by simp) ?_
    rintro content ⟨path, text, _, htext, _⟩
    cases htext
  have htext : Program.ofText "a" "@f \x7b\x7d" = .ok ⟨[⟨"f", [], none, []⟩]⟩ :=
    toOption_eq_some.1 (by decide +kernel)
  obtain ⟨hknows, hfails⟩ := knows_last_delivered es "a"
  exact ⟨hlast, (hknows.program _).2 ⟨_, hlast, htext⟩, hmiss, ((hfails _).2 hmiss).1⟩

end Session

end BlockIR.Editor
