import BlockIR.Proofs.Instr.Shape
import BlockIR.Proofs.Number.Binary64
import BlockIR.Proofs.Number.Decimal
import BlockIR.Proofs.Program.RoundTrip

/-! The records of a program, described by what stands in them: which entries there must be, which may be
left out, and what they are. A tree decodes if and only if it is such a record, and the program has what
stands in it. -/

namespace BlockIR

/-- The number is an integer of 64 bits: it spells one, it is one, or it is a real number equal to one. -/
inductive Numeral.Denotes : Numeral → Int64 → Prop
  | written {text : String} {k : Int64} : Decimal.Spells text.toList k.toInt → Denotes (.written text) k
  | machine (k : Int64) : Denotes (.machine k) k
  | word (k : Int64) : Denotes (.word k) k
  | real {x : Binary64} {k : Int64} : x.toRat = k.toInt → Denotes (.real x) k

namespace Schema

variable {α : Type}

def Entry (R : Tree → α → Prop) (fields : Table String Tree) (key : String) (a : α) : Prop :=
  ∃ t, fields.get? key = some t ∧ R t a

inductive OptEntry (R : Tree → α → Prop) (fields : Table String Tree) (key : String) : Option α → Prop
  | absent : fields.get? key = none → OptEntry R fields key none
  | present {a : α} : Entry R fields key a → OptEntry R fields key (some a)

inductive IsList (R : Tree → α → Prop) : Tree → List α → Prop
  | list {ts : List Tree} {as : List α} : List.Forall₂ R ts as → IsList R (.list ts) as
  | texts {ss : List Text} {as : List α} : List.Forall₂ R (ss.map .text) as → IsList R (.texts ss) as

inductive ListEntry (R : Tree → α → Prop) (fields : Table String Tree) (key : String) : List α → Prop
  | absent : fields.get? key = none → ListEntry R fields key []
  | present {as : List α} : Entry (IsList R) fields key as → ListEntry R fields key as

def IsText (t : Tree) (s : Text) : Prop :=
  t = .text s

def IsDest (t : Tree) (s : Text) : Prop :=
  t = .text s ∧ s ≠ ""

def IsTy (t : Tree) (ty : Ty) : Prop :=
  t = .text ty.name

def IsOp (t : Tree) (op : Op) : Prop :=
  t = .text op.mnemonic

inductive IsLiteral : Tree → Literal → Prop
  | bool (b : Bool) : IsLiteral (.bool b) (.bool b)
  | int {n : Numeral} {k : Int64} : n.Denotes k → IsLiteral (.number n) (.int k)

structure IsInstr (fields : Table String Tree) (i : Instr) : Prop where
  op : Entry IsOp fields "op" i.op
  dest : OptEntry IsDest fields "dest" i.dest
  type : OptEntry IsTy fields "type" i.type
  args : ListEntry IsText fields "args" i.args
  funcs : ListEntry IsText fields "funcs" i.funcs
  labels : ListEntry IsText fields "labels" i.labels
  value : OptEntry IsLiteral fields "value" i.value
  table : i.InTable

inductive IsItem : Tree → Item → Prop
  | instr {fields : Table String Tree} {i : Instr} : IsInstr fields i → IsItem (.object fields) (.instr i)
  | label {fields : Table String Tree} {x : Text} : fields.get? "op" = none →
      Entry IsText fields "label" x → IsItem (.object fields) (.label x)

inductive IsParam : Tree → Param → Prop
  | mk {fields : Table String Tree} {x : Text} {ty : Ty} : Entry IsText fields "name" x →
      Entry IsTy fields "type" ty → IsParam (.object fields) ⟨x, some ty⟩

inductive IsFunc : Tree → Func → Prop
  | mk {fields : Table String Tree} {f : Func} {its : List Item} : Entry IsText fields "name" f.name →
      ListEntry IsParam fields "args" f.params → OptEntry IsTy fields "type" f.ret →
      ListEntry IsItem fields "instrs" its → f.instrs = its.filterMap Item.instr? → IsFunc (.object fields) f

inductive IsProgram : Tree → Program → Prop
  | mk {fields : Table String Tree} {p : Program} : Entry (IsList IsFunc) fields "functions" p.funcs →
      (p.funcs.map Func.name).Nodup → IsProgram (.object fields) p

end Schema

open Schema

lemma Numeral.toInt64?_real {x : Binary64} {k : Int64} :
    (real x).toInt64? = some k ↔ x.toRat = k.toInt := by
  simp only [toInt64?, Option.bind_eq_some_iff, Binary64.toInt?_eq_some_iff]
  constructor
  · rintro ⟨n, hn, h⟩
    split at h
    · rename_i hrange
      have hmax : n ≤ (Nat.pow 2 63 : Int) - 1 := hrange.2
      rw [hn, (Decimal.ofInt_eq_iff hrange.1 (by omega)).1 (Option.some.inj h)]
    · cases h
  · intro h
    exact ⟨k.toInt, h, by rw [if_pos ⟨k.minValue_le_toInt, k.toInt_le⟩, Int64.ofInt_toInt]⟩

lemma Numeral.toInt64?_eq_some_iff {n : Numeral} {k : Int64} : n.toInt64? = some k ↔ n.Denotes k := by
  cases n with
  | written text =>
    have hread : (Decimal.readInt64 text).toOption = some k ↔ Decimal.readInt64 text = .ok k := by
      cases Decimal.readInt64 text <;> simp [Except.toOption]
    rw [toInt64?, hread, Decimal.readInt64_ok]
    exact ⟨.written, fun h => by cases h; assumption⟩
  | machine j | word j =>
    constructor
    · intro h
      cases h
      constructor
    · rintro ⟨⟩
      rfl
  | real x =>
    rw [toInt64?_real]
    exact ⟨.real, fun h => by cases h; assumption⟩
  | infinite _ | undefined =>
    constructor
    · intro h
      cases h
    · rintro ⟨⟩

namespace Decode

variable {α : Type} {read : Tree → Result α} {R : Tree → α → Prop} {fields : Table String Tree} {key : String}

lemma asText_ok {t : Tree} {s : Text} : asText t = .ok s ↔ IsText t s := by
  cases t <;> simp [asText, asTextAt, fail, IsText]

lemma asTy_ok {t : Tree} {ty : Ty} : asTy t = .ok ty ↔ IsTy t ty := by
  cases t with
  | text s => simp [Listing.asTy_text, IsTy]
  | _ => simp [asTy, asTyAt, fail, IsTy]

lemma asText_asOp_ok {t : Tree} {op : Op} : (asText t >>= asOp) = .ok op ↔ IsOp t op := by
  simp [bind_eq_ok, asText_ok, Listing.asOp_ok, IsText, IsOp]

lemma asLiteral_ok {t : Tree} {v : Literal} : asLiteral t = .ok v ↔ IsLiteral t v := by
  cases t with
  | bool b =>
    constructor
    · intro h
      cases h
      exact .bool b
    · rintro ⟨⟩
      rfl
  | number n =>
    simp only [asLiteral, asLiteralAt]
    constructor
    · intro h
      split at h
      · rename_i k hk
        cases h
        exact .int (Numeral.toInt64?_eq_some_iff.1 hk)
      · cases h
    · rintro (_ | hk)
      rw [Numeral.toInt64?_eq_some_iff.2 hk]
  | _ =>
    constructor
    · intro h
      cases h
    · rintro ⟨⟩

lemma has_iff (h : ∀ t a, read t = .ok a ↔ R t a) {a : α} :
    Has read fields key a ↔ Entry R fields key a := by
  simp only [Has, Entry, h]

lemma mayHave_iff (h : ∀ t a, read t = .ok a ↔ R t a) {o : Option α} :
    MayHave read fields key o ↔ OptEntry R fields key o := by
  cases o with
  | none => exact ⟨.absent, fun h => by cases h; assumption⟩
  | some a =>
    change Has read fields key a ↔ _
    rw [has_iff h]
    exact ⟨.present, fun h => by cases h; assumption⟩

lemma asList_iff {t : Tree} {as : List α} :
    (∃ ts, asList t = .ok ts ∧ List.Forall₂ R ts as) ↔ IsList R t as := by
  cases t with
  | list ts =>
    constructor
    · rintro ⟨_, hts, has⟩
      cases hts
      exact .list has
    · rintro (has | _)
      exact ⟨_, rfl, has⟩
  | texts ss =>
    constructor
    · rintro ⟨_, hts, has⟩
      cases hts
      exact .texts has
    · rintro (_ | has)
      exact ⟨_, rfl, has⟩
  | _ =>
    constructor
    · rintro ⟨_, hts, _⟩
      cases hts
    · rintro ⟨⟩

lemma hasList_iff (h : ∀ t a, read t = .ok a ↔ R t a) {as : List α} :
    HasList read fields key as ↔ ListEntry R fields key as := by
  simp only [HasList, Reads, h]
  constructor
  · rintro ⟨_ | ts, hts, has⟩
    · cases has
      exact .absent hts
    · obtain ⟨t, ht, hlist⟩ := hts
      exact .present ⟨t, ht, asList_iff.1 ⟨ts, hlist, has⟩⟩
  · rintro (habsent | ⟨t, ht, has⟩)
    · exact ⟨none, habsent, .nil⟩
    · obtain ⟨ts, hts, has⟩ := asList_iff.2 has
      exact ⟨some ts, ⟨t, ht, hts⟩, has⟩

lemma instrRecord_iff {i : Instr} : InstrRecord fields i ↔ IsInstr fields i := by
  constructor
  · intro h
    exact ⟨(has_iff fun _ _ => asText_asOp_ok).1 h.op, (mayHave_iff fun _ _ => asDest_ok).1 h.dest,
      (mayHave_iff fun _ _ => asTy_ok).1 h.type, (hasList_iff fun _ _ => asText_ok).1 h.args,
      (hasList_iff fun _ _ => asText_ok).1 h.funcs, (hasList_iff fun _ _ => asText_ok).1 h.labels,
      (mayHave_iff fun _ _ => asLiteral_ok).1 h.value, Instr.shapeFault?_eq_none_iff_inTable.1 h.shape⟩
  · intro h
    exact ⟨(has_iff fun _ _ => asText_asOp_ok).2 h.op, (mayHave_iff fun _ _ => asDest_ok).2 h.dest,
      (mayHave_iff fun _ _ => asTy_ok).2 h.type, (hasList_iff fun _ _ => asText_ok).2 h.args,
      (hasList_iff fun _ _ => asText_ok).2 h.funcs, (hasList_iff fun _ _ => asText_ok).2 h.labels,
      (mayHave_iff fun _ _ => asLiteral_ok).2 h.value, Instr.shapeFault?_eq_none_iff_inTable.2 h.table⟩

lemma item_iff {t : Tree} {it : Item} : item t = .ok it ↔ IsItem t it := by
  rw [item_ok]
  constructor
  · rintro (hi | ⟨hop, hx⟩)
    · exact .instr (instrRecord_iff.1 hi)
    · exact .label hop ((has_iff fun _ _ => asText_ok).1 hx)
  · rintro (hi | ⟨hop, hx⟩)
    · exact .instr (instrRecord_iff.2 hi)
    · exact .label hop ((has_iff fun _ _ => asText_ok).2 hx)

lemma param_iff {t : Tree} {p : Param} : param t = .ok p ↔ IsParam t p := by
  rw [param_ok]
  constructor
  · rintro ⟨hx, hty⟩
    exact .mk ((has_iff fun _ _ => asText_ok).1 hx) ((has_iff fun _ _ => asTy_ok).1 hty)
  · rintro ⟨hx, hty⟩
    exact .mk ((has_iff fun _ _ => asText_ok).2 hx) ((has_iff fun _ _ => asTy_ok).2 hty)

lemma FuncRecord.isFunc {t : Tree} {f : Func} (h : FuncRecord t f) : IsFunc t f := by
  obtain ⟨hx, hps, hret, hts, hits⟩ := h
  exact .mk ((has_iff fun _ _ => asText_ok).1 hx) ((hasList_iff fun _ _ => param_iff).1 hps)
    ((mayHave_iff fun _ _ => asTy_ok).1 hret) ((hasList_iff fun _ _ => item_iff).1 ⟨_, hts, hits⟩)
    (Block.flatMap_instrs_ofItems _)

lemma exists_funcRecord {t : Tree} {f : Func} (h : IsFunc t f) : ∃ bs, FuncRecord t { f with blocks := bs } := by
  obtain ⟨hx, hps, hret, hits, _⟩ := h
  obtain ⟨ts, hts, hits⟩ := (hasList_iff fun _ _ => item_iff).2 hits
  exact ⟨_, .mk ((has_iff fun _ _ => asText_ok).2 hx) ((hasList_iff fun _ _ => param_iff).2 hps)
    ((mayHave_iff fun _ _ => asTy_ok).2 hret) hts hits⟩

lemma exists_funcRecords {ts : List Tree} {fs : List Func} (h : List.Forall₂ IsFunc ts fs) :
    ∃ gs, List.Forall₂ FuncRecord ts gs ∧ gs.map Func.name = fs.map Func.name := by
  induction h with
  | nil => exact ⟨[], .nil, rfl⟩
  | cons hf _ ih =>
    obtain ⟨bs, hg⟩ := exists_funcRecord hf
    obtain ⟨gs, hgs, hnames⟩ := ih
    exact ⟨_ :: gs, .cons hg hgs, by rw [List.map_cons, List.map_cons, hnames]⟩

/-- A tree decodes if and only if it is the record of a program, and then it is the record of the program
that it decodes to. -/
theorem program_ok_iff_isProgram (t : Tree) :
    ((∃ p, program t = .ok p) ↔ ∃ p, IsProgram t p) ∧ ∀ p, program t = .ok p → IsProgram t p := by
  have hfound {p : Program} (h : program t = .ok p) : IsProgram t p := by
    obtain ⟨fields, ts, rfl, ⟨u, hu, hts⟩, hfs, hnames⟩ := program_ok.1 h
    have hfuncs : List.Forall₂ IsFunc ts p.funcs := hfs.imp fun _ _ hf => hf.isFunc
    exact .mk ⟨u, hu, asList_iff.1 ⟨ts, hts, hfuncs⟩⟩ hnames
  refine ⟨⟨fun ⟨p, h⟩ => ⟨p, hfound h⟩, ?_⟩, fun p => hfound⟩
  rintro ⟨p, ⟨⟨u, hu, hfuncs⟩, hnames⟩⟩
  obtain ⟨ts, hts, hfs⟩ := asList_iff.2 hfuncs
  obtain ⟨gs, hgs, hsame⟩ := exists_funcRecords hfs
  exact ⟨⟨gs⟩, program_ok.2 ⟨_, ts, rfl, ⟨u, hu, hts⟩, hgs, hsame ▸ hnames⟩⟩

theorem program_ok_iff_isProgram_values :
    let define (x : String) (value : Numeral) : Tree := .object [("op", .text "const"), ("dest", .text x),
      ("type", .text "int"), ("value", .number value), ("labels", .list [])]
    let t : Tree := .object [("functions", .list [.object [("name", .text "f"), ("type", .text "int"),
      ("args", .list [.object [("name", .text "x"), ("type", .text "bool")]]),
      ("instrs", .list [define "y" (.written "-9223372036854775808"), .object [("label", .text "b")],
        define "z" (.real ⟨true, Nat.pow 2 52, 11⟩),
        .object [("op", .text "ret"), ("args", .texts ["z"]), ("label", .null)]])]])]
    ∃ p, program t = .ok p ∧ p.funcs.map (·.instrs.map Instr.value) =
      [[some (.int Int64.minValue), some (.int Int64.minValue), none]] ∧ IsProgram t p := by
  intro define t
  have hvalues : (program t).toOption.map (·.funcs.map (·.instrs.map Instr.value)) =
      some [[some (.int Int64.minValue), some (.int Int64.minValue), none]] := by decide +kernel
  cases hp : program t with
  | error e =>
    rw [hp] at hvalues
    cases hvalues
  | ok p =>
    rw [hp] at hvalues
    exact ⟨p, rfl, Option.some.inj hvalues, (program_ok_iff_isProgram t).2 p hp⟩

end Decode

end BlockIR
