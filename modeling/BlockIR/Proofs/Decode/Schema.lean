import BlockIR.Proofs.Decode.Threading

namespace BlockIR

namespace Decode

variable {α : Type} {read : Tree → Result α} {fields : Table String Tree} {key : String}

def Reads (read : Tree → Result α) : List Tree → List α → Prop :=
  List.Forall₂ fun t a => read t = .ok a

def Has (read : Tree → Result α) (fields : Table String Tree) (key : String) (a : α) : Prop :=
  ∃ t, fields.get? key = some t ∧ read t = .ok a

def MayHave (read : Tree → Result α) (fields : Table String Tree) (key : String) (o : Option α) : Prop :=
  match o with
  | none => fields.get? key = none
  | some a => Has read fields key a

def HasList (read : Tree → Result α) (fields : Table String Tree) (key : String) (as : List α) : Prop :=
  ∃ ts, MayHave asList fields key ts ∧ Reads read (ts.getD []) as

lemma required_ok {a : α} : required read fields key = .ok a ↔ Has read fields key a := by
  unfold required Has within
  split <;> simp_all [fail, mapError_eq_ok]

lemma optional_ok {o : Option α} : optional read fields key = .ok o ↔ MayHave read fields key o := by
  unfold optional MayHave Has within
  cases o <;> split <;> simp_all [mapError_eq_ok, map_eq_ok]

lemma eachFrom_ok {i : Nat} {ts : List Tree} {as : List α} :
    eachFrom read key i ts = .ok as ↔ Reads read ts as := by
  induction ts generalizing i as with
  | nil => simp [eachFrom, Reads, eq_comm]
  | cons t ts ih =>
    simp only [eachFrom, within, bind_eq_ok, mapError_eq_ok, ih, Reads, List.forall₂_cons_left_iff]
    constructor
    · rintro ⟨a, ha, as, has, h⟩
      cases h
      exact ⟨a, as, ha, has, rfl⟩
    · rintro ⟨a, as, ha, has, rfl⟩
      exact ⟨a, ha, as, has, rfl⟩

lemma listOf_ok {as : List α} : listOf read fields key = .ok as ↔ HasList read fields key as := by
  simp only [listOf, each, bind_eq_ok, optional_ok, eachFrom_ok, HasList]

lemma shaped_ok {i j : Instr} : shaped i = .ok j ↔ i = j ∧ j.shapeFault? = none := by
  unfold shaped shapedAt
  split
  · simp only [Except.ok.injEq]
    exact ⟨fun h => ⟨h, h ▸ ‹_›⟩, fun h => h.1⟩
  · simp only [fail, reduceCtorEq, false_iff]
    rintro ⟨rfl, h⟩
    simp_all

structure InstrRecord (fields : Table String Tree) (i : Instr) : Prop where
  op : Has (fun t => asText t >>= asOp) fields "op" i.op
  dest : MayHave asDest fields "dest" i.dest
  type : MayHave asTy fields "type" i.type
  args : HasList asText fields "args" i.args
  funcs : HasList asText fields "funcs" i.funcs
  labels : HasList asText fields "labels" i.labels
  value : MayHave asLiteral fields "value" i.value
  shape : i.shapeFault? = none

lemma instrFields_ok {i : Instr} : instrFields fields = .ok i ↔ InstrRecord fields i := by
  simp only [instrFields_eq, bind_eq_ok, required_ok, optional_ok, listOf_ok, shaped_ok]
  constructor
  · rintro ⟨op, hop, dest, hdest, type, htype, args, hargs, funcs, hfuncs, labels, hlabels, value, hvalue,
      rfl, hs⟩
    exact ⟨hop, hdest, htype, hargs, hfuncs, hlabels, hvalue, hs⟩
  · intro h
    exact ⟨_, h.op, _, h.dest, _, h.type, _, h.args, _, h.funcs, _, h.labels, _, h.value, rfl, h.shape⟩

lemma asObject_ok {t : Tree} : asObject t = .ok fields ↔ t = .object fields := by
  cases t <;> simp [asObject, asObjectAt, fail]

inductive ItemRecord : Tree → Item → Prop
  | instr {fields : Table String Tree} {i : Instr} : InstrRecord fields i →
      ItemRecord (.object fields) (.instr i)
  | label {fields : Table String Tree} {x : Text} : fields.get? "op" = none → Has asText fields "label" x →
      ItemRecord (.object fields) (.label x)

lemma item_ok {t : Tree} {it : Item} : item t = .ok it ↔ ItemRecord t it := by
  simp only [item_eq, bind_eq_ok, asObject_ok]
  constructor
  · rintro ⟨fields, rfl, h⟩
    split at h
    · obtain ⟨i, hi, h⟩ := bind_eq_ok.1 h
      cases h
      exact .instr (instrFields_ok.1 hi)
    · rename_i hop
      split at h
      · obtain ⟨x, hx, h⟩ := bind_eq_ok.1 h
        cases h
        exact .label (by simpa using hop) (required_ok.1 hx)
      · cases h
  · rintro (@⟨fields, i, hi⟩ | @⟨fields, x, hop, hx⟩)
    · obtain ⟨t, ht, _⟩ := hi.op
      refine ⟨fields, rfl, ?_⟩
      rw [if_pos (by simp [ht]), instrFields_ok.2 hi]
      rfl
    · obtain ⟨t, ht, _⟩ := id hx
      refine ⟨fields, rfl, ?_⟩
      rw [if_neg (by simp [hop]), if_pos (by simp [ht]), required_ok.2 hx]
      rfl

inductive ParamRecord : Tree → Param → Prop
  | mk {fields : Table String Tree} {x : Text} {t : Ty} : Has asText fields "name" x →
      Has asTy fields "type" t → ParamRecord (.object fields) ⟨x, some t⟩

lemma param_ok {t : Tree} {p : Param} : param t = .ok p ↔ ParamRecord t p := by
  simp only [param_eq, bind_eq_ok, asObject_ok, required_ok]
  constructor
  · rintro ⟨fields, rfl, x, hx, ty, hty, h⟩
    cases h
    exact .mk hx hty
  · rintro ⟨hx, hty⟩
    exact ⟨_, rfl, _, hx, _, hty, rfl⟩

inductive FuncRecord : Tree → Func → Prop
  | mk {fields : Table String Tree} {x : Text} {ps : List Param} {ret : Option Ty} {ts : Option (List Tree)}
      {its : List Item} : Has asText fields "name" x → HasList param fields "args" ps →
      MayHave asTy fields "type" ret → MayHave asList fields "instrs" ts → Reads item (ts.getD []) its →
      FuncRecord (.object fields) ⟨x, ps, ret, Block.ofItems its⟩

lemma func_ok {t : Tree} {f : Func} : func t = .ok f ↔ FuncRecord t f := by
  simp only [func_eq, blocks_eq, each, bind_eq_ok, asObject_ok, required_ok, optional_ok, listOf_ok, eachFrom_ok]
  constructor
  · rintro ⟨fields, rfl, x, hx, ps, hps, ret, hret, ts, hts, bs, ⟨its, hits, hbs⟩, h⟩
    cases hbs
    cases h
    exact .mk hx hps hret hts hits
  · rintro ⟨hx, hps, hret, hts, hits⟩
    exact ⟨_, rfl, _, hx, _, hps, _, hret, _, hts, _, ⟨_, hits, rfl⟩, rfl⟩

lemma funcsFrom_ok {i : Nat} {seen : List Text} {ts : List Tree} {fs : List Func} :
    funcsFrom i seen ts = .ok fs ↔
      List.Forall₂ FuncRecord ts fs ∧ (fs.map Func.name).Nodup ∧ ∀ f ∈ fs, f.name ∉ seen := by
  induction ts generalizing i seen fs with
  | nil =>
    simp only [funcsFrom, Except.ok.injEq, List.forall₂_nil_left_iff]
    constructor
    · rintro rfl
      simp
    · rintro ⟨rfl, _⟩
      rfl
  | cons t ts ih =>
    simp only [funcsFrom_cons, within, bind_eq_ok, mapError_eq_ok, func_ok, List.forall₂_cons_left_iff]
    constructor
    · rintro ⟨f, hf, h⟩
      split at h
      · cases h
      · rename_i hseen
        obtain ⟨gs, hgs, h⟩ := bind_eq_ok.1 h
        cases h
        obtain ⟨hall, hnodup, hnew⟩ := ih.1 hgs
        refine ⟨⟨f, gs, hf, hall, rfl⟩, List.nodup_cons.2 ⟨?_, hnodup⟩,
          List.forall_mem_cons.2 ⟨hseen, fun g hg hs => hnew g hg (List.mem_cons_of_mem _ hs)⟩⟩
        rintro hmem
        obtain ⟨g, hg, hgf⟩ := List.mem_map.1 hmem
        exact hnew g hg (hgf ▸ List.mem_cons_self)
    · rintro ⟨⟨f, gs, hf, hgs, rfl⟩, hnodup, hnew⟩
      obtain ⟨hseen, hnew⟩ := List.forall_mem_cons.1 hnew
      obtain ⟨hfresh, hnodup⟩ := List.nodup_cons.1 hnodup
      refine ⟨f, hf, ?_⟩
      have hrest : funcsFrom (i + 1) (f.name :: seen) ts = .ok gs := by
        refine ih.2 ⟨hgs, hnodup, fun g hg hmem => ?_⟩
        rcases List.mem_cons.1 hmem with hfg | hs
        · exact hfresh (hfg ▸ List.mem_map_of_mem hg)
        · exact hnew g hg hs
      rw [if_neg hseen, hrest]
      rfl

lemma program_ok {t : Tree} {p : Program} : program t = .ok p ↔ ∃ fields ts, t = .object fields ∧
    Has asList fields "functions" ts ∧ List.Forall₂ FuncRecord ts p.funcs ∧ (p.funcs.map Func.name).Nodup := by
  simp only [program_eq, bind_eq_ok, asObject_ok, required_ok, funcsFrom_ok]
  constructor
  · rintro ⟨fields, rfl, ts, hts, fs, ⟨hfs, hnodup, _⟩, h⟩
    cases h
    exact ⟨_, ts, rfl, hts, hfs, hnodup⟩
  · rintro ⟨fields, ts, rfl, hts, hfs, hnodup⟩
    exact ⟨_, rfl, ts, hts, _, ⟨hfs, hnodup, by simp⟩, rfl⟩

end Decode

end BlockIR
