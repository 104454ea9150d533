import BlockIR.Program.Source
import BlockIR.Proofs.Decode.Schema
import Mathlib.Tactic.MkIffOfInductiveProp

namespace BlockIR

@[simp] lemma Table.get?_append {κ α : Type} [DecidableEq κ] (s t : Table κ α) (x : κ) :
    Table.get? (s ++ t) x = (s.get? x).or (t.get? x) := by
  induction s with
  | nil => simp
  | cons e s ih =>
    obtain ⟨k, a⟩ := e
    by_cases hk : k = x <;> simp [Table.get?, hk, ih]

@[simp] lemma Table.get?_cons {κ α : Type} [DecidableEq κ] (k : κ) (a : α) (t : Table κ α) (x : κ) :
    Table.get? ((k, a) :: t) x = if k = x then some a else t.get? x := rfl

def Literal.tree : Literal → Tree
  | int n => .number (.word n)
  | bool b => .bool b

@[simp] lemma Decode.asLiteral_tree (v : Literal) : Decode.asLiteral v.tree = .ok v := by
  cases v <;> rfl

namespace Listing

def Operand.lit? (o : Operand) : Option Literal :=
  match o.value with
  | .int n => some (.int n)
  | .bool b => some (.bool b)
  | _ => none

lemma Operand.literal?_eq (o : Operand) : o.literal? = o.lit?.map fun v => (v.tree, o.pos) := by
  obtain ⟨v, p⟩ := o
  cases v <;> rfl

@[mk_iff]
structure Instr.Means (i : Instr) (j : BlockIR.Instr) : Prop where
  op : i.op.text = j.op.mnemonic
  dest : i.target.map (·.dest.text) = j.dest
  type : i.target.map (·.type.text) = j.type.map fun t => .plain t.name
  named : j.dest ≠ some ""
  args : i.operands.filterMap Operand.arg? = j.args
  funcs : i.operands.filterMap Operand.func? = j.funcs
  labels : i.operands.filterMap Operand.label? = j.labels
  value : i.operands.filterMap Operand.lit? = j.value.toList
  shape : j.shapeFault? = none

inductive Item.Means : Item → BlockIR.Item → Prop
  | label (l : Label) : Means (.label l) (.label l.name.text)
  | instr {i : Instr} {j : BlockIR.Instr} : i.Means j → Means (.instr i) (.instr j)

def Param.Means (p : Param) (q : BlockIR.Param) : Prop :=
  p.name.text = q.name ∧ ∃ t, q.type = some t ∧ p.type.text = t.name

@[mk_iff]
structure Func.Means (f : Func) (g : BlockIR.Func) : Prop where
  name : f.name.text = g.name
  params : List.Forall₂ Param.Means f.params g.params
  type : f.type.map (·.text) = g.ret.map fun t => .plain t.name
  body : ∃ its, List.Forall₂ Item.Means f.body its ∧ Block.ofItems its = g.blocks

@[mk_iff]
structure Means (l : Listing) (p : Program) : Prop where
  funcs : List.Forall₂ Func.Means l.funcs p.funcs
  distinct : (p.funcs.map BlockIR.Func.name).Nodup

open Decode

lemma valueField_ok {file : String} {os : List Operand} {v : List (String × Tree)} :
    valueField file (os.filterMap Operand.literal?) = .ok v ↔
      ∃ o : Option Literal, os.filterMap Operand.lit? = o.toList ∧
        o.toList.map (fun l => ("value", l.tree)) = v := by
  have hmap : (os.filterMap Operand.literal?).map Prod.fst = (os.filterMap Operand.lit?).map Literal.tree := by
    simp [List.map_filterMap, Operand.literal?_eq, Function.comp_def]
  generalize os.filterMap Operand.literal? = ps at hmap ⊢
  generalize os.filterMap Operand.lit? = vs at hmap ⊢
  -- No literal, one literal, and the second literal that makes it fail.
  rcases vs with _ | ⟨a, _ | ⟨b, vs⟩⟩
  · obtain rfl : ps = [] := by simpa using hmap
    constructor
    · rintro h
      cases h
      exact ⟨none, rfl, rfl⟩
    · rintro ⟨_ | o, ho, rfl⟩
      · rfl
      · cases ho
  · obtain ⟨⟨t, q⟩, rfl, rfl⟩ : ∃ p, ps = [p] ∧ p.1 = a.tree := by simpa [List.map_eq_cons_iff] using hmap
    constructor
    · rintro h
      cases h
      exact ⟨some a, rfl, rfl⟩
    · rintro ⟨_ | o, ho, rfl⟩
      · cases ho
      · cases ho
        rfl
  · obtain ⟨p, q, qs, rfl⟩ : ∃ p q qs, ps = p :: q :: qs := by
      simp only [List.map_cons, List.map_eq_cons_iff] at hmap
      obtain ⟨p, _, rfl, _, q, qs, rfl, _⟩ := hmap
      exact ⟨p, q, qs, rfl⟩
    constructor
    · rintro h
      cases h
    · rintro ⟨_ | o, ho, rfl⟩ <;> cases ho

def Instr.fields (i : Instr) (o : Option Literal) : Table String Tree :=
  ("op", .text i.op.text) :: targetFields i.target ++ o.toList.map (fun l => ("value", l.tree)) ++
  textsField "args" (i.operands.filterMap Operand.arg?) ++
  textsField "funcs" (i.operands.filterMap Operand.func?) ++
  textsField "labels" (i.operands.filterMap Operand.label?)

lemma Instr.toTree_ok {file : String} {i : Instr} {t : Tree} : i.toTree file = .ok t ↔
    ∃ o : Option Literal, i.operands.filterMap Operand.lit? = o.toList ∧ t = .object (i.fields o) := by
  simp only [Instr.toTree, bind_eq_ok, valueField_ok]
  constructor
  · rintro ⟨_, ⟨o, ho, rfl⟩, h⟩
    cases h
    exact ⟨o, ho, rfl⟩
  · rintro ⟨o, ho, rfl⟩
    exact ⟨_, ⟨o, ho, rfl⟩, rfl⟩

def listTree : List Tree → Option Tree
  | [] => none
  | ts => some (.list ts)

@[simp] lemma get?_textsField (key x : String) (ss : List Text) :
    Table.get? (textsField key ss) x = if key = x then listTree (ss.map .text) else none := by
  cases ss <;> simp [textsField, listTree]

@[simp] lemma get?_paramsField (ps : List Param) (x : String) :
    Table.get? (paramsField ps) x = if "args" = x then listTree (ps.map Param.toTree) else none := by
  cases ps <;> simp [paramsField, listTree]

@[simp] lemma get?_typeField (o : Option Name) (x : String) :
    Table.get? (typeField o) x = if "type" = x then o.map (.text ·.text) else none := by
  cases o <;> simp [typeField]

@[simp] lemma get?_targetFields (o : Option Target) (x : String) : Table.get? (targetFields o) x =
    if "dest" = x then o.map (.text ·.dest.text)
    else if "type" = x then o.map (.text ·.type.text) else none := by
  cases o <;> simp [targetFields]

@[simp] lemma get?_literal (o : Option Literal) (x : String) :
    Table.get? (o.toList.map fun l => ("value", l.tree)) x =
      if "value" = x then o.map Literal.tree else none := by
  cases o <;> simp

lemma hasList_listTree {α : Type} {read : Tree → Result α} {fields : Table String Tree} {key : String}
    {ts : List Tree} {as : List α} (h : fields.get? key = listTree ts) :
    HasList read fields key as ↔ Reads read ts as := by
  have hlist {us : Option (List Tree)} :
      MayHave asList fields key us ↔ us.getD [] = ts ∧ (us = none ↔ ts = []) := by
    cases ts <;> cases us <;> simp [MayHave, Has, h, listTree, asList, asListAt, Tree.items?, eq_comm]
  constructor
  · rintro ⟨us, hus, has⟩
    rwa [(hlist.1 hus).1] at has
  · intro has
    cases ts with
    | nil => exact ⟨none, hlist.2 (by simp), has⟩
    | cons t ts => exact ⟨some (t :: ts), hlist.2 (by simp), has⟩

lemma hasList_texts {fields : Table String Tree} {key : String} {ss as : List Text}
    (h : fields.get? key = listTree (ss.map .text)) : HasList asText fields key as ↔ ss = as := by
  rw [hasList_listTree h]
  simp [Reads, List.forall₂_map_left_iff, asText, asTextAt]

lemma mayHave_map {α β : Type} {read : Tree → Result α} {fields : Table String Tree} {key : String}
    {g : β → Tree} {o : Option β} {o' : Option α} (h : fields.get? key = o.map g) :
    MayHave read fields key o' ↔ Option.Rel (fun b a => read (g b) = .ok a) o o' := by
  cases o <;> cases o' <;> simp [MayHave, Has, h]

lemma asDest_text {s x : Text} : asDest (.text s) = .ok x ↔ s = x ∧ x ≠ "" := by
  change (if s = "" then fail [] .emptyDestination else pure s) = Except.ok x ↔ _
  split
  · simp_all [fail, eq_comm]
  · simp only [pure, Except.pure, Except.ok.injEq]
    exact ⟨fun h => ⟨h, h ▸ ‹_›⟩, fun h => h.1⟩

lemma asTy_text {s : Text} {t : Ty} : asTy (.text s) = .ok t ↔ s = t.name := by
  rw [← Ty.ofName?_eq_some]
  simp only [asTy, asTyAt]
  split <;> simp_all [fail]

lemma asOp_ok {s : Text} {op : Op} : asOp s = .ok op ↔ s = op.mnemonic := by
  constructor
  · intro h
    unfold asOp asOpAt at h
    split at h
    · cases h
      exact Op.eq_of_ofMnemonic?_eq_some ‹_›
    · cases h
  · rintro rfl
    simp [asOp, asOpAt]

lemma instrRecord_fields {i : Instr} {o : Option Literal} {j : BlockIR.Instr}
    (ho : i.operands.filterMap Operand.lit? = o.toList) : InstrRecord (i.fields o) j ↔ i.Means j := by
  have hop : (i.fields o).get? "op" = some (.text i.op.text) := rfl
  have hdest : (i.fields o).get? "dest" = i.target.map (.text ·.dest.text) := by simp [Instr.fields]
  have htype : (i.fields o).get? "type" = i.target.map (.text ·.type.text) := by simp [Instr.fields]
  have hvalue : (i.fields o).get? "value" = o.map Literal.tree := by simp [Instr.fields]
  have hargs : (i.fields o).get? "args" = listTree ((i.operands.filterMap Operand.arg?).map .text) := by
    simp [Instr.fields]
  have hfuncs : (i.fields o).get? "funcs" = listTree ((i.operands.filterMap Operand.func?).map .text) := by
    simp [Instr.fields]
  have hlabels : (i.fields o).get? "labels" = listTree ((i.operands.filterMap Operand.label?).map .text) := by
    simp [Instr.fields]
  have hop' : Has (fun t => asText t >>= asOp) (i.fields o) "op" j.op ↔ i.op.text = j.op.mnemonic := by
    simp only [Has, hop, Option.some.injEq, exists_eq_left']
    exact asOp_ok
  have hdest' : MayHave asDest (i.fields o) "dest" j.dest ↔
      i.target.map (·.dest.text) = j.dest ∧ j.dest ≠ some "" := by
    rw [mayHave_map hdest]
    cases i.target <;> cases j.dest <;> simp [asDest_text]
  have htype' : MayHave asTy (i.fields o) "type" j.type ↔
      i.target.map (·.type.text) = j.type.map fun t => .plain t.name := by
    rw [mayHave_map htype]
    cases i.target <;> cases j.type <;> simp [asTy_text]
  have hvalue' : MayHave asLiteral (i.fields o) "value" j.value ↔
      i.operands.filterMap Operand.lit? = j.value.toList := by
    rw [mayHave_map hvalue, ho]
    cases o <;> cases j.value <;> simp
  constructor
  · intro h
    obtain ⟨hd, hn⟩ := hdest'.1 h.dest
    exact ⟨hop'.1 h.op, hd, htype'.1 h.type, hn, (hasList_texts hargs).1 h.args,
      (hasList_texts hfuncs).1 h.funcs, (hasList_texts hlabels).1 h.labels, hvalue'.1 h.value, h.shape⟩
  · intro h
    exact ⟨hop'.2 h.op, hdest'.2 ⟨h.dest, h.named⟩, htype'.2 h.type, (hasList_texts hargs).2 h.args,
      (hasList_texts hfuncs).2 h.funcs, (hasList_texts hlabels).2 h.labels, hvalue'.2 h.value, h.shape⟩

lemma Item.lowers {file : String} {i : Item} {it : BlockIR.Item} :
    (∃ t, i.toTree file = .ok t ∧ ItemRecord t it) ↔ i.Means it := by
  cases i with
  | label l =>
    constructor
    · rintro ⟨_, ht, h⟩
      cases ht
      rcases h with h | ⟨_, t, ht, hx⟩
      · obtain ⟨_, hop, _⟩ := h.op
        cases hop
      · cases ht
        cases hx
        exact .label l
    · rintro ⟨⟩
      exact ⟨_, rfl, .label rfl ⟨_, rfl, rfl⟩⟩
  | instr i =>
    constructor
    · rintro ⟨_, ht, h⟩
      obtain ⟨o, ho, rfl⟩ := Instr.toTree_ok.1 ht
      rcases h with h | ⟨hop, _⟩
      · exact .instr ((instrRecord_fields ho).1 h)
      · cases hop
    · rintro (_ | h)
      obtain ⟨t, ht⟩ : ∃ t, i.toTree file = .ok t := ⟨_, Instr.toTree_ok.2 ⟨_, h.value, rfl⟩⟩
      obtain ⟨o, ho, rfl⟩ := Instr.toTree_ok.1 ht
      exact ⟨_, ht, .instr ((instrRecord_fields ho).2 h)⟩

lemma Param.lowers {p : Param} {q : BlockIR.Param} : ParamRecord p.toTree q ↔ p.Means q := by
  constructor
  · rintro ⟨⟨t, ht, hx⟩, s, hs, hty⟩
    cases ht
    cases hs
    cases hx
    exact ⟨rfl, _, rfl, asTy_text.1 hty⟩
  · obtain ⟨x, o⟩ := q
    rintro ⟨rfl, t, rfl, ht⟩
    exact .mk ⟨_, rfl, rfl⟩ ⟨_, rfl, asTy_text.2 ht⟩

lemma forall₂_exists {α β γ : Type} {R : α → β → Prop} {S : β → γ → Prop} {as : List α} {cs : List γ} :
    (∃ bs, List.Forall₂ R as bs ∧ List.Forall₂ S bs cs) ↔
      List.Forall₂ (fun a c => ∃ b, R a b ∧ S b c) as cs := by
  constructor
  · rintro ⟨bs, hR, hS⟩
    induction hR generalizing cs with
    | nil =>
      cases hS
      exact .nil
    | cons hr _ ih =>
      cases hS with
      | cons hs hS => exact .cons ⟨_, hr, hs⟩ (ih hS)
  · intro h
    induction h with
    | nil => exact ⟨[], .nil, .nil⟩
    | cons h _ ih =>
      obtain ⟨b, hr, hs⟩ := h
      obtain ⟨bs, hR, hS⟩ := ih
      exact ⟨b :: bs, .cons hr hR, .cons hs hS⟩

lemma forall₂_right {α β : Type} {R : α → β → Prop} {P : α → Prop} {Q : β → Prop} {as : List α} {bs : List β}
    (h : List.Forall₂ R as bs) (hP : ∀ a ∈ as, P a) (hQ : ∀ a b, P a → R a b → Q b) : ∀ b ∈ bs, Q b := by
  induction h with
  | nil => simp
  | cons hr _ ih =>
    obtain ⟨ha, has⟩ := List.forall_mem_cons.1 hP
    exact List.forall_mem_cons.2 ⟨hQ _ _ ha hr, ih has⟩

lemma forall₂_getElem? {α β : Type} {R : α → β → Prop} {as : List α} {bs : List β} {i : Nat} {b : β}
    (h : List.Forall₂ R as bs) (hb : bs[i]? = some b) : ∃ a, as[i]? = some a ∧ R a b := by
  induction h generalizing i with
  | nil => cases hb
  | @cons a _ _ _ hr _ ih =>
    cases i with
    | zero =>
      cases hb
      exact ⟨a, rfl, hr⟩
    | succ i => exact ih hb

def Func.fields (f : Func) (ts : List Tree) : Table String Tree :=
  ("name", .text f.name.text) :: paramsField f.params ++ typeField f.type ++ [("instrs", .list ts)]

lemma Func.toTree_ok {file : String} {f : Func} {t : Tree} : f.toTree file = .ok t ↔
    ∃ ts, List.Forall₂ (fun i t => i.toTree file = .ok t) f.body ts ∧ t = .object (f.fields ts) := by
  simp only [Func.toTree, bind_eq_ok, mapM_eq_ok]
  constructor
  · rintro ⟨ts, hts, h⟩
    cases h
    exact ⟨ts, hts, rfl⟩
  · rintro ⟨ts, hts, rfl⟩
    exact ⟨ts, hts, rfl⟩

lemma Func.mayHave_instrs {f : Func} {ts : List Tree} {us : Option (List Tree)} :
    MayHave asList (f.fields ts) "instrs" us ↔ us = some ts := by
  have hinstrs : (f.fields ts).get? "instrs" = some (.list ts) := by simp [Func.fields]
  cases us <;> simp [MayHave, Has, hinstrs, asList, asListAt, Tree.items?, eq_comm]

lemma funcRecord_fields {f : Func} {ts : List Tree} {g : BlockIR.Func} :
    FuncRecord (.object (f.fields ts)) g ↔ f.name.text = g.name ∧ List.Forall₂ Param.Means f.params g.params ∧
      (f.type.map (·.text) = g.ret.map fun t => .plain t.name) ∧
      ∃ its, List.Forall₂ ItemRecord ts its ∧ Block.ofItems its = g.blocks := by
  have hname : (f.fields ts).get? "name" = some (.text f.name.text) := rfl
  have hargs : (f.fields ts).get? "args" = listTree (f.params.map Param.toTree) := by simp [Func.fields]
  have htype : (f.fields ts).get? "type" = f.type.map (.text ·.text) := by simp [Func.fields]
  have hparams {ps : List BlockIR.Param} : HasList Decode.param (f.fields ts) "args" ps ↔
      List.Forall₂ Param.Means f.params ps := by
    rw [hasList_listTree hargs, Reads, List.forall₂_map_left_iff]
    simp only [param_ok, Param.lowers]
  have hret {ret : Option Ty} : MayHave asTy (f.fields ts) "type" ret ↔
      f.type.map (·.text) = ret.map fun t => .plain t.name := by
    rw [mayHave_map htype]
    cases f.type <;> cases ret <;> simp [asTy_text]
  have hitems {its : List BlockIR.Item} : Reads Decode.item ts its ↔ List.Forall₂ ItemRecord ts its := by
    simp only [Reads, item_ok]
  constructor
  · intro h
    cases h with
    | mk hx hps hty hus hits =>
      obtain ⟨_, ht, hx⟩ := hx
      rw [hname] at ht
      cases ht
      cases hx
      obtain rfl := Func.mayHave_instrs.1 hus
      exact ⟨rfl, hparams.1 hps, hret.1 hty, _, hitems.1 hits, rfl⟩
  · obtain ⟨x, ps, ret, bs⟩ := g
    rintro ⟨rfl, hps, hty, its, hits, rfl⟩
    exact .mk ⟨_, hname, rfl⟩ (hparams.2 hps) (hret.2 hty) (Func.mayHave_instrs.2 rfl) (hitems.2 hits)

lemma Func.lowers {file : String} {f : Func} {g : BlockIR.Func} :
    (∃ t, f.toTree file = .ok t ∧ FuncRecord t g) ↔ f.Means g := by
  have hbody {its : List BlockIR.Item} : (∃ ts, List.Forall₂ (fun i t => i.toTree file = .ok t) f.body ts ∧
      List.Forall₂ ItemRecord ts its) ↔ List.Forall₂ Item.Means f.body its := by
    simp only [forall₂_exists, Item.lowers]
  constructor
  · rintro ⟨_, ht, h⟩
    obtain ⟨ts, hts, rfl⟩ := Func.toTree_ok.1 ht
    obtain ⟨hx, hps, hty, its, hits, hbs⟩ := funcRecord_fields.1 h
    exact ⟨hx, hps, hty, its, hbody.1 ⟨ts, hts, hits⟩, hbs⟩
  · rintro ⟨hx, hps, hty, its, hits, hbs⟩
    obtain ⟨ts, hts, hrec⟩ := hbody.2 hits
    exact ⟨_, Func.toTree_ok.2 ⟨ts, hts, rfl⟩, funcRecord_fields.2 ⟨hx, hps, hty, its, hrec, hbs⟩⟩

end Listing

namespace Program

lemma ofListing_ok {file : String} {l : Listing} {p : Program} : ofListing file l = .ok p ↔ l.Means p := by
  have hfuncs : (∃ ts, List.Forall₂ (fun f t => f.toTree file = .ok t) l.funcs ts ∧
      List.Forall₂ Decode.FuncRecord ts p.funcs) ↔ List.Forall₂ Listing.Func.Means l.funcs p.funcs := by
    simp only [Listing.forall₂_exists, Listing.Func.lowers]
  simp only [ofListing, ofTree, Listing.toTree, bind_eq_ok, mapError_eq_ok, mapM_eq_ok, Decode.program_ok]
  constructor
  · rintro ⟨_, ⟨ts, hts, h⟩, fields, us, rfl, ⟨t, ht, hus⟩, hrec, hd⟩
    cases h
    cases ht
    cases hus
    exact ⟨hfuncs.1 ⟨ts, hts, hrec⟩, hd⟩
  · rintro ⟨h, hd⟩
    obtain ⟨ts, hts, hrec⟩ := hfuncs.2 h
    exact ⟨_, ⟨ts, hts, rfl⟩, _, ts, rfl, ⟨_, rfl, rfl⟩, hrec, hd⟩

end Program

end BlockIR
