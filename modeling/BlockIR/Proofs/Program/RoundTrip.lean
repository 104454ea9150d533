import BlockIR.Proofs.Listing.RoundTrip
import BlockIR.Proofs.Program.Building
import BlockIR.Proofs.Program.Lowering

/-! Which programs come back from their text. The names of the program must be names of the text form, its
blocks must be cut where the text would cut them, and its instructions must have the shapes of their
operations. Every program that was read from a text is of this kind. Through the records of its listing every
program comes back that was decoded from records. -/

namespace BlockIR

@[mk_iff]
structure Instr.Representable (i : Instr) : Prop where
  shape : i.shapeFault? = none
  dest : ∀ x ∈ i.dest, x.isIdent = true
  args : ∀ x ∈ i.args, x.isIdent = true ∧ x ≠ "true" ∧ x ≠ "false"
  funcs : ∀ x ∈ i.funcs, x.isIdent = true
  labels : ∀ x ∈ i.labels, x.isIdent = true

@[mk_iff]
structure Block.Representable (b : Block) : Prop where
  cut : b.Cut
  name : b.name.isIdent = true
  instrs : ∀ i ∈ b.instrs, i.Representable

@[mk_iff]
structure Func.Representable (f : Func) : Prop where
  name : f.name.isIdent = true
  params : ∀ q ∈ f.params, q.name.isIdent = true ∧ q.type ≠ none
  blocks : ∀ b ∈ f.blocks, b.Representable

/-- A program that the text form can hold. -/
@[mk_iff]
structure Program.Representable (p : Program) : Prop where
  distinct : (p.funcs.map Func.name).Nodup
  funcs : ∀ f ∈ p.funcs, f.Representable

instance (b : Block) : Decidable b.Cut :=
  decidable_of_iff _ b.cut_iff.symm

instance (i : Instr) : Decidable i.Representable :=
  decidable_of_iff _ i.representable_iff.symm

instance (b : Block) : Decidable b.Representable :=
  decidable_of_iff _ b.representable_iff.symm

instance (f : Func) : Decidable f.Representable :=
  decidable_of_iff _ f.representable_iff.symm

instance (p : Program) : Decidable p.Representable :=
  decidable_of_iff _ p.representable_iff.symm

namespace Listing

lemma isIdent_numbered (n : Nat) : Text.isIdent (BlockBuilder.numbered n) = true := by
  refine Text.isIdent_iff.2 ⟨_, rfl, 'b', ['l', 'o', 'c', 'k', '_'] ++ Decimal.digits n, ?_, rfl, ?_⟩
  · simp [BlockBuilder.numbered, Decimal.ofNat]
  · refine List.forall_mem_append.2 ⟨List.all_eq_true.1 rfl, fun c hc => ?_⟩
    simp [isIdentRest, Decimal.isDigit_of_mem_digits c hc]

lemma Instr.Means.representable {i : Instr} {j : BlockIR.Instr} (h : i.Means j) (hi : i.Writable) :
    j.Representable := by
  have hnames {g : Operand → Option Text} {P : Text → Prop}
      (hg : ∀ v q x, g ⟨v, q⟩ = some x → v.Writable → P x) : ∀ x ∈ i.operands.filterMap g, P x := by
    intro x hx
    obtain ⟨o, ho, hgo⟩ := List.mem_filterMap.1 hx
    exact hg o.value o.pos x hgo (hi.operands o ho)
  refine ⟨h.shape, ?_, ?_, ?_, ?_⟩
  · rw [← h.dest]
    intro x hx
    obtain ⟨t, ht, rfl⟩ := Option.map_eq_some_iff.1 hx
    exact (hi.target t ht).1
  · rw [← h.args]
    refine hnames fun v q x hv hw => ?_
    cases v <;> cases hv
    exact hw
  · rw [← h.funcs]
    refine hnames fun v q x hv hw => ?_
    cases v <;> cases hv
    exact hw
  · rw [← h.labels]
    refine hnames fun v q x hv hw => ?_
    cases v <;> cases hv
    exact hw

lemma Func.Means.representable {f : Func} {g : BlockIR.Func} (h : f.Means g) (hf : f.Writable) :
    g.Representable := by
  obtain ⟨hx, hps, _, its, hits, hbs⟩ := h
  refine ⟨hx ▸ hf.name, forall₂_right hps hf.params ?_, ?_⟩
  · rintro p q hp ⟨hpq, t, ht, _⟩
    exact ⟨hpq ▸ hp.1, by simp [ht]⟩
  · have hall : ∀ it ∈ its, it.Has BlockIR.Instr.Representable (Text.isIdent · = true) := by
      refine forall₂_right hits hf.body ?_
      rintro _ _ hi (l | h)
      · exact hi
      · exact h.representable hi
    intro b hb
    rw [← hbs] at hb
    obtain ⟨hcut, hinstrs, hname⟩ := Block.ofItems_sound isIdent_numbered hall b hb
    exact ⟨hcut, hname, hinstrs⟩

section Bare

lemma Operand.arg?_bare (o : Operand) : o.bare.arg? = o.arg? := by
  obtain ⟨v, q⟩ := o
  cases v <;> rfl

lemma Operand.func?_bare (o : Operand) : o.bare.func? = o.func? := by
  obtain ⟨v, q⟩ := o
  cases v <;> rfl

lemma Operand.label?_bare (o : Operand) : o.bare.label? = o.label? := by
  obtain ⟨v, q⟩ := o
  cases v <;> rfl

lemma Operand.lit?_bare (o : Operand) : o.bare.lit? = o.lit? := by
  obtain ⟨v, q⟩ := o
  cases v <;> rfl

lemma Instr.means_bare {i : Instr} {j : BlockIR.Instr} : i.bare.Means j ↔ i.Means j := by
  simp [Instr.means_iff, Instr.bare, Target.bare, Name.bare, Function.comp_def, List.filterMap_map,
    Operand.arg?_bare, Operand.func?_bare, Operand.label?_bare, Operand.lit?_bare]

lemma Item.means_bare {i : Item} {it : BlockIR.Item} : i.bare.Means it ↔ i.Means it := by
  cases i with
  | label l =>
    constructor
    · rintro ⟨⟩
      exact .label l
    · rintro ⟨⟩
      exact .label l.bare
  | instr i =>
    constructor
    · rintro (_ | h)
      exact .instr (Instr.means_bare.1 h)
    · rintro (_ | h)
      exact .instr (Instr.means_bare.2 h)

lemma Param.means_bare {p : Param} {q : BlockIR.Param} : p.bare.Means q ↔ p.Means q :=
  Iff.rfl

lemma Func.means_bare {f : Func} {g : BlockIR.Func} : f.bare.Means g ↔ f.Means g := by
  simp [Func.means_iff, Func.bare, Name.bare, Function.comp_def, List.forall₂_map_left_iff, Item.means_bare,
    Param.means_bare]

lemma means_bare {l : Listing} {p : Program} : l.bare.Means p ↔ l.Means p := by
  simp [means_iff, bare, List.forall₂_map_left_iff, Func.means_bare]

end Bare

end Listing

structure Instr.Regular (i : Instr) : Prop where
  shape : i.shapeFault? = none
  dest : i.dest ≠ some ""

structure Func.Regular (f : Func) : Prop where
  params : ∀ q ∈ f.params, q.type ≠ none
  blocks : ∀ b ∈ f.blocks, b.Cut ∧ ∀ i ∈ b.instrs, i.Regular

structure Program.Regular (p : Program) : Prop where
  distinct : (p.funcs.map Func.name).Nodup
  funcs : ∀ f ∈ p.funcs, f.Regular

namespace Decode

lemma asDest_ok {t : Tree} {x : Text} : asDest t = .ok x ↔ t = .text x ∧ x ≠ "" := by
  cases t with
  | text s => simp [Listing.asDest_text]
  | _ => simp [asDest, asText, asTextAt, fail, bind, Except.bind]

lemma InstrRecord.regular {fields : Table String Tree} {i : Instr} (h : InstrRecord fields i) : i.Regular := by
  refine ⟨h.shape, fun hd => ?_⟩
  have hdest := h.dest
  rw [hd] at hdest
  obtain ⟨t, _, ht⟩ := hdest
  exact (asDest_ok.1 ht).2 rfl

lemma FuncRecord.regular {t : Tree} {f : Func} (h : FuncRecord t f) : f.Regular := by
  obtain @⟨fields, x, ps, ret, ts, its, _, ⟨us, _, hps⟩, _, _, hits⟩ := h
  have hparams : ∀ q ∈ ps, q.type ≠ none := by
    refine Listing.forall₂_right hps (P := fun _ => True) (by simp) ?_
    rintro t q _ hq
    obtain ⟨_, _⟩ := param_ok.1 hq
    simp
  have hitems : ∀ it ∈ its, it.Has Instr.Regular fun _ => True := by
    refine Listing.forall₂_right hits (P := fun _ => True) (by simp) ?_
    rintro t it _ hit
    rcases item_ok.1 hit with hi | _
    · exact hi.regular
    · trivial
  refine ⟨hparams, fun b hb => ?_⟩
  obtain ⟨hcut, hinstrs, _⟩ := Block.ofItems_sound (fun _ => trivial) hitems b hb
  exact ⟨hcut, hinstrs⟩

lemma regular_of_program {t : Tree} {p : Program} (h : program t = .ok p) : p.Regular := by
  obtain ⟨_, ts, _, _, hfs, hd⟩ := program_ok.1 h
  exact ⟨hd, Listing.forall₂_right hfs (P := fun _ => True) (by simp) fun _ _ _ hf => hf.regular⟩

end Decode

namespace Listing

lemma isSome_type_of_shape {i : BlockIR.Instr} (h : i.shapeFault? = none) : i.dest.isSome = i.type.isSome := by
  unfold BlockIR.Instr.shapeFault? at h
  dsimp only at h
  split at h
  · cases h
  · rename_i hne
    exact not_not.1 hne

lemma filterMap_ofInstr {β : Type} (g : Operand → Option β) (i : BlockIR.Instr) :
    (ofInstr i).operands.filterMap g = i.value.toList.filterMap (fun v => g ⟨ofLiteral v, nowhere⟩) ++
      i.funcs.filterMap (fun x => g ⟨.func ⟨x, nowhere⟩, nowhere⟩) ++
      i.args.filterMap (fun x => g ⟨.arg ⟨x, nowhere⟩, nowhere⟩) ++
      i.labels.filterMap (fun x => g ⟨.label ⟨x, nowhere⟩, nowhere⟩) := by
  have happ : operandsOf i = i.value.toList.map ofLiteral ++ i.funcs.map (fun x => .func ⟨x, nowhere⟩) ++
      i.args.map (fun x => .arg ⟨x, nowhere⟩) ++ i.labels.map (fun x => .label ⟨x, nowhere⟩) := by
    cases hv : i.value <;> simp [operandsOf, hv]
  simp [ofInstr, happ, List.filterMap_map, Function.comp_def]

lemma ofInstr_means {i : BlockIR.Instr} (h : i.Regular) : (ofInstr i).Means i := by
  have htype := isSome_type_of_shape h.shape
  have hargs (v : Literal) : Operand.arg? ⟨ofLiteral v, nowhere⟩ = none := by cases v <;> rfl
  have hfuncs (v : Literal) : Operand.func? ⟨ofLiteral v, nowhere⟩ = none := by cases v <;> rfl
  have hlabels (v : Literal) : Operand.label? ⟨ofLiteral v, nowhere⟩ = none := by cases v <;> rfl
  have hlit (v : Literal) : Operand.lit? ⟨ofLiteral v, nowhere⟩ = some v := by cases v <;> rfl
  refine ⟨rfl, ?_, ?_, h.dest, ?_, ?_, ?_, ?_, h.shape⟩
  · simp [ofInstr, Function.comp_def]
  · rcases hd : i.dest <;> rcases ht : i.type <;> simp_all [ofInstr, typeName]
  · simp only [filterMap_ofInstr, hargs]
    simp [Operand.arg?]
  · simp only [filterMap_ofInstr, hfuncs]
    simp [Operand.func?]
  · simp only [filterMap_ofInstr, hlabels]
    simp [Operand.label?]
  · simp only [filterMap_ofInstr, hlit]
    simp [Operand.lit?]

lemma forall₂_flatMap {α β γ : Type} {R : β → γ → Prop} {f : α → List β} {g : α → List γ} {as : List α}
    (h : ∀ a ∈ as, List.Forall₂ R (f a) (g a)) : List.Forall₂ R (as.flatMap f) (as.flatMap g) := by
  induction as with
  | nil => exact .nil
  | cons a as ih =>
    obtain ⟨ha, has⟩ := List.forall_mem_cons.1 h
    exact List.rel_append ha (ih has)

lemma ofFunc_means {f : BlockIR.Func} (h : f.Regular) : (ofFunc f).Means f := by
  refine ⟨rfl, ?_, ?_, f.blocks.flatMap Block.items, ?_, Block.ofItems_items fun b hb => (h.blocks b hb).1⟩
  · refine List.forall₂_map_left_iff.2 (List.forall₂_same.2 fun q hq => ⟨rfl, ?_⟩)
    obtain ⟨t, ht⟩ := Option.ne_none_iff_exists'.1 (h.params q hq)
    exact ⟨t, ht, by simp [ht, typeName]⟩
  · simp [ofFunc, typeName, Function.comp_def]
  · refine forall₂_flatMap fun b hb => .cons (.label _) ?_
    refine List.forall₂_map_left_iff.2 (List.forall₂_map_right_iff.2 (List.forall₂_same.2 fun i hi => ?_))
    exact .instr (ofInstr_means ((h.blocks b hb).2 i hi))

lemma toListing_means {p : Program} (h : p.Regular) : p.toListing.Means p :=
  ⟨List.forall₂_map_left_iff.2 (List.forall₂_same.2 fun f hf => ofFunc_means (h.funcs f hf)), h.distinct⟩

end Listing

namespace Listing

lemma typeName_writable (o : Option Ty) : (typeName o).Writable := by
  rcases o with _ | _ | _ <;> rfl

lemma isIdent_mnemonic (op : Op) : Text.isIdent op.mnemonic = true := by
  cases op <;> rfl

lemma ofInstr_writable {i : BlockIR.Instr} (h : i.Representable) : (ofInstr i).Writable := by
  refine ⟨?_, ?_, ?_⟩
  · intro t ht
    obtain ⟨x, hx, rfl⟩ := Option.map_eq_some_iff.1 ht
    exact ⟨h.dest x hx, typeName_writable _⟩
  · exact isIdent_mnemonic i.op
  · intro o ho
    obtain ⟨v, hv, rfl⟩ := List.mem_map.1 ho
    simp only [operandsOf, List.mem_append, List.mem_map, Option.mem_toList, Option.map_eq_some_iff] at hv
    rcases hv with ((⟨l, _, rfl⟩ | ⟨x, hx, rfl⟩) | ⟨x, hx, rfl⟩) | ⟨x, hx, rfl⟩
    · cases l <;> trivial
    · exact h.funcs x hx
    · exact h.args x hx
    · exact h.labels x hx

lemma ofFunc_writable {f : BlockIR.Func} (h : f.Representable) : (ofFunc f).Writable := by
  refine ⟨h.name, ?_, ?_, ?_⟩
  · intro q hq
    obtain ⟨p, hp, rfl⟩ := List.mem_map.1 hq
    exact ⟨(h.params p hp).1, typeName_writable _⟩
  · intro t ht
    obtain ⟨s, _, rfl⟩ := Option.map_eq_some_iff.1 ht
    exact typeName_writable _
  · intro it hit
    obtain ⟨b, hb, hit⟩ := List.mem_flatMap.1 hit
    rcases List.mem_cons.1 hit with rfl | hit
    · exact (h.blocks b hb).name
    · obtain ⟨i, hi, rfl⟩ := List.mem_map.1 hit
      exact ofInstr_writable ((h.blocks b hb).instrs i hi)

end Listing

namespace Program

lemma Representable.regular {p : Program} (h : p.Representable) : p.Regular := by
  refine ⟨h.distinct, fun f hf => ⟨fun q hq => ((h.funcs f hf).params q hq).2, fun b hb => ?_⟩⟩
  have hb := (h.funcs f hf).blocks b hb
  refine ⟨hb.cut, fun i hi => ⟨(hb.instrs i hi).shape, fun hd => ?_⟩⟩
  exact absurd ((hb.instrs i hi).dest "" hd) (by decide)

lemma representable_of_ofText {file source : String} {p : Program} (h : ofText file source = .ok p) :
    p.Representable := by
  obtain ⟨l, hl, hp⟩ := bind_eq_ok.1 h
  have hw := Listing.writable_of_parse (mapError_eq_ok.1 hl)
  obtain ⟨hfs, hd⟩ := ofListing_ok.1 hp
  exact ⟨hd, Listing.forall₂_right hfs hw fun f g hf hfg => hfg.representable hf⟩

lemma ofText_format {p : Program} (h : p.Representable) (file : String) : ofText file p.format = .ok p := by
  have hw : ∀ f ∈ p.toListing.funcs, f.Writable := by
    intro f hf
    obtain ⟨g, hg, rfl⟩ := List.mem_map.1 hf
    exact Listing.ofFunc_writable (h.funcs g hg)
  -- The parser returns the listing of `p` with places, which have no part in what it means.
  obtain ⟨l, hl, hbare⟩ := Listing.parse_render hw file
  have hm : l.Means p := by
    rw [← Listing.means_bare, hbare, Listing.means_bare]
    exact Listing.toListing_means h.regular
  exact bind_eq_ok.2 ⟨l, mapError_eq_ok.2 hl, ofListing_ok.2 hm⟩

/-- A program is read back from its text if and only if the text form can hold it, and each program that
was read from some text is. -/
theorem ofText_format_eq_ok_iff (file : String) (p : Program) :
    (ofText file p.format = .ok p ↔ p.Representable) ∧
      ∀ file' source, ofText file' source = .ok p → ofText file p.format = .ok p :=
  ⟨⟨representable_of_ofText, fun h => ofText_format h file⟩,
    fun _ _ h => ofText_format (representable_of_ofText h) file⟩

theorem ofText_format_least_int :
    let i : Instr := { op := .const, dest := some "x.1", type := some .int, value := some (.int Int64.minValue) }
    let j : Instr := { op := .br, args := ["x.1"], labels := ["a.b", "block_0"] }
    let f : Func := ⟨"main", [⟨"n", some .bool⟩], none, [⟨"a.b", [i]⟩, ⟨"block_0", [i, j]⟩]⟩
    let p : Program := ⟨[f]⟩
    p.Representable ∧ ofText "a" p.format = .ok p ∧ ofText "b" p.format = .ok p := by
  intro i j f p
  have hp : p.Representable := by decide
  have ha : ofText "a" p.format = .ok p := (ofText_format_eq_ok_iff "a" p).1.2 hp
  exact ⟨hp, ha, (ofText_format_eq_ok_iff "b" p).2 "a" p.format ha⟩

/-- A program that was decoded is decoded again from the records of its listing, whatever its names are and
wherever its blocks came from. -/
theorem decode_toTree_toListing (t : Tree) (p : Program) (file : String) (h : Decode.program t = .ok p) :
    ∃ u, p.toListing.toTree file = .ok u ∧ Decode.program u = .ok p := by
  have hmeans : p.toListing.Means p := Listing.toListing_means (Decode.regular_of_program h)
  have hread : ofListing file p.toListing = .ok p := ofListing_ok.2 hmeans
  obtain ⟨u, hu, hp⟩ := bind_eq_ok.1 hread
  exact ⟨u, mapError_eq_ok.1 hu, mapError_eq_ok.1 hp⟩

theorem decode_toTree_toListing_odd_names :
    let t : Tree := .object [("functions", .list [.object [("name", .text ""),
      ("args", .list [.object [("name", .text "true"), ("type", .text "bool")]]),
      ("instrs", .list [
        .object [("op", .text "const"), ("dest", .text " "), ("type", .text "int"), ("value", .number (.word 1))],
        .object [("label", .text "a b")],
        .object [("op", .text "br"), ("args", .texts ["true"]), ("labels", .texts ["", "a b"])],
        .object [("op", .text "ret")],
        .object [("label", .text "a b")],
        .object [("op", .text "print"), ("args", .texts ["", "true", " "])]])]])]
    let p : Program := ⟨[⟨"", [⟨"true", some .bool⟩], none,
      [⟨"block_0", [{ op := .const, dest := some " ", type := some .int, value := some (.int 1) }]⟩,
        ⟨"a b", [{ op := .br, args := ["true"], labels := ["", "a b"] }]⟩, ⟨"block_2", [{ op := .ret }]⟩,
        ⟨"a b", [{ op := .print, args := ["", "true", " "] }]⟩]⟩]⟩
    Decode.program t = .ok p ∧ ∃ u, p.toListing.toTree "" = .ok u ∧ Decode.program u = .ok p := by
  intro t p
  have ht : Decode.program t = .ok p := toOption_eq_some.1 (by decide +kernel)
  exact ⟨ht, decode_toTree_toListing t p "" ht⟩

end Program

end BlockIR
