import BlockIR.Proofs.Pass.Pruning
import BlockIR.Proofs.Program.Flow
import BlockIR.Proofs.Program.RoundTrip

/-! What passes leave of a program. They take definitions out of blocks and nothing else; in a program that
was decoded no terminator is a definition, so blocks go on to lead where they led, even those that become
empty or lose their last instruction. -/

namespace BlockIR

lemma Prunes.filter_dest {R : Text → Prop} {is js : List Instr} (h : Prunes R is js) :
    js.filter (·.dest.isNone) = is.filter (·.dest.isNone) := by
  induction h with
  | nil => rfl
  | keep i _ ih => rw [List.filter_cons, List.filter_cons, ih]
  | drop hd _ _ ih => simpa [hd] using ih

structure Block.Leaves (b c : Block) : Prop where
  name : c.name = b.name
  instrs : c.instrs.Sublist b.instrs
  effects : c.instrs.filter (·.dest.isNone) = b.instrs.filter (·.dest.isNone)

namespace Block.Leaves

variable {a b c : Block}

lemma refl (b : Block) : b.Leaves b :=
  ⟨rfl, .refl _, rfl⟩

lemma trans (h : a.Leaves b) (h' : b.Leaves c) : a.Leaves c :=
  ⟨h'.name.trans h.name, h'.instrs.trans h.instrs, h'.effects.trans h.effects⟩

lemma dropLast (h : b.Leaves c) : c.instrs.dropLast.Sublist b.instrs.dropLast := by
  have hr := h.instrs.reverse.tail
  rwa [List.tail_reverse, List.tail_reverse, List.reverse_sublist] at hr

end Block.Leaves

structure Block.Shaped (b : Block) : Prop where
  shape : ∀ i ∈ b.instrs, i.shapeFault? = none
  last : ∀ i ∈ b.instrs.dropLast, i.isTerminator = false

namespace Block.Leaves

variable {b c : Block}

lemma shaped (h : b.Leaves c) (hb : b.Shaped) : c.Shaped :=
  ⟨fun i hi => hb.shape i (h.instrs.subset hi), fun i hi => hb.last i (h.dropLast.subset hi)⟩

lemma exit?_eq (h : b.Leaves c) (hb : b.Shaped) : c.exit? = b.exit? := by
  have heffect {k : Block} (hk : k.Shaped) :
      (k.instrs.filter (·.dest.isNone)).find? Instr.isTerminator = k.exit? := by
    rw [List.find?_filter]
    refine List.find?_congr fun i hi => ?_
    cases ht : i.isTerminator with
    | false => simp
    | true => simp [Instr.dest_of_isTerminator (hk.shape i hi) ht]
  rw [← heffect hb, ← heffect (h.shaped hb), h.effects]

lemma targets_eq (h : b.Leaves c) (hb : b.Shaped) : c.targets = b.targets := by
  apply targets_eq_of_last?
  rw [← exit?_eq_last? hb.last, ← exit?_eq_last? (h.shaped hb).last, h.exit?_eq hb]

end Block.Leaves

namespace Func

structure Leaves (f g : Func) : Prop where
  name : g.name = f.name
  params : g.params = f.params
  ret : g.ret = f.ret
  blocks : List.Forall₂ Block.Leaves f.blocks g.blocks

namespace Leaves

variable {f g h : Func}

lemma refl (f : Func) : f.Leaves f :=
  ⟨rfl, rfl, rfl, List.forall₂_same.2 fun b _ => .refl b⟩

lemma trans (hf : f.Leaves g) (hg : g.Leaves h) : f.Leaves h :=
  ⟨hg.name.trans hf.name, hg.params.trans hf.params, hg.ret.trans hf.ret,
    (Listing.forall₂_exists.1 ⟨_, hf.blocks, hg.blocks⟩).imp fun _ _ ⟨_, hb, hc⟩ => hb.trans hc⟩

lemma shaped (hg : f.Leaves g) (hf : ∀ b ∈ f.blocks, b.Shaped) : ∀ c ∈ g.blocks, c.Shaped :=
  Listing.forall₂_right hg.blocks hf fun _ _ hb hc => hc.shaped hb

lemma flowGraph_eq (hg : f.Leaves g) (hf : ∀ b ∈ f.blocks, b.Shaped) : g.flowGraph = f.flowGraph := by
  have hblocks := (List.forall₂_and_left _ _).2 ⟨hf, hg.blocks⟩
  rw [flowGraph, flowGraph, FlowGraph.edges_congr (hblocks.imp fun b c h => ?_)]
  exact ⟨h.2.name.symm, (h.2.targets_eq h.1).symm⟩

end Leaves

lemma flowGraph_ok {f : Func} (hf : ∀ b ∈ f.blocks, b.Shaped) : ∃ graph, f.flowGraph = .ok graph := by
  obtain ⟨es, hes, _⟩ := FlowGraph.exists_edges fun b hb => (hf b hb).shape
  exact ⟨.ofEdges es, by rw [flowGraph, hes]; rfl⟩

lemma PrunesTo.leaves {f g : Func} (h : f.PrunesTo g) : f.Leaves g := by
  obtain ⟨cs, rfl, hcs⟩ := h
  exact ⟨rfl, rfl, rfl, hcs.imp fun _ _ hb => ⟨hb.1.symm, hb.2.sublist, hb.2.filter_dest⟩⟩

lemma Prunings.leaves {f g : Func} (h : Prunings f g) : f.Leaves g := by
  induction h with
  | refl => exact .refl f
  | tail _ hg ih => exact ih.trans hg.leaves

inductive Optimizes : Func → Func → Prop
  | pass (x : Pass) (f : Func) : Optimizes f (x.apply f)
  | pipeline (xs : Pipeline) (f : Func) : Optimizes f (xs.run f)

lemma Optimizes.leaves {f g : Func} (h : f.Optimizes g) : f.Leaves g := by
  cases h with
  | pass x f => exact (x.apply_prunings f).leaves
  | pipeline xs f => exact (xs.run_prunings f).leaves

lemma leaves_of_optimized {f g : Func} (h : Relation.ReflTransGen Optimizes f g) : f.Leaves g := by
  induction h with
  | refl => exact .refl f
  | tail _ hg ih => exact ih.trans hg.leaves

lemma Regular.shaped {f : Func} (h : f.Regular) : ∀ b ∈ f.blocks, b.Shaped := by
  intro b hb
  obtain ⟨hcut, hinstrs⟩ := h.blocks b hb
  exact ⟨fun i hi => (hinstrs i hi).shape, hcut.last⟩

end Func

namespace Program

/-- Whatever passes and pipelines the functions of a decoded program have gone through, their names are
distinct, only definitions are missing from their blocks, the instructions left have their shapes and end
their blocks where they are terminators, and the flow graph is there and is what it was. -/
theorem optimized_leaves_flowGraph (t : Tree) (p q : Program) (hp : Decode.program t = .ok p)
    (hq : List.Forall₂ (Relation.ReflTransGen Func.Optimizes) p.funcs q.funcs) :
    (q.funcs.map Func.name).Nodup ∧ List.Forall₂ Func.Leaves p.funcs q.funcs ∧
      (∀ g ∈ q.funcs, ∀ b ∈ g.blocks, b.Shaped) ∧
      List.Forall₂ (fun f g => ∃ graph, f.flowGraph = .ok graph ∧ g.flowGraph = .ok graph ∧
        g.graphviz = f.graphviz) p.funcs q.funcs := by
  have hreg := Decode.regular_of_program hp
  have hshaped : ∀ f ∈ p.funcs, ∀ b ∈ f.blocks, b.Shaped := fun f hf => (hreg.funcs f hf).shaped
  have hleaves : List.Forall₂ Func.Leaves p.funcs q.funcs := hq.imp fun _ _ h => Func.leaves_of_optimized h
  have hnames : q.funcs.map Func.name = p.funcs.map Func.name := by
    rw [← List.forall₂_eq_eq_eq, List.forall₂_map_left_iff, List.forall₂_map_right_iff]
    exact hleaves.flip.imp fun _ _ h => h.name
  refine ⟨hnames ▸ hreg.distinct, hleaves, Listing.forall₂_right hleaves hshaped fun _ _ hf h => h.shaped hf, ?_⟩
  refine ((List.forall₂_and_left _ _).2 ⟨hshaped, hleaves⟩).imp fun f g h => ?_
  obtain ⟨graph, hf⟩ := Func.flowGraph_ok h.1
  have hg : g.flowGraph = .ok graph := (h.2.flowGraph_eq h.1).trans hf
  exact ⟨graph, hf, hg, by rw [Func.graphviz, Func.graphviz, hf, hg, h.2.name]⟩

theorem optimized_leaves_flowGraph_emptied :
    let record (op : String) (fields : Table String Tree) : Tree := .object (("op", .text op) :: fields)
    let texts (key : String) (xs : List String) : String × Tree := (key, .list (xs.map fun x => .text x))
    let define (x : String) : Table String Tree := [("dest", .text x), ("type", .text "int")]
    let t : Tree := .object [("functions", .list [.object [("name", .text "f"), ("instrs", .list [
      record "const" (("value", .number (.word 1)) :: define "x"), .object [("label", .text "b")],
      record "const" (("value", .number (.written "2")) :: define "y"), record "print" [texts "args" ["y"]],
      record "id" (texts "args" ["y"] :: define "z"), .object [("label", .text "c")],
      record "br" [texts "args" ["y"], texts "labels" ["b", "c"]], record "ret" []])]])]
    ∃ p, Decode.program t = .ok p ∧
      (p.map Pass.deadStores.apply).optimize.funcs.map (·.blocks.map (·.instrs.length)) = [[0, 2, 1, 1]] ∧
      List.Forall₂ (fun f g => ∃ graph, f.flowGraph = .ok graph ∧ g.flowGraph = .ok graph ∧
        g.graphviz = f.graphviz) p.funcs (p.map Pass.deadStores.apply).optimize.funcs := by
  intro record texts define t
  have hsize : (Decode.program t).toOption.map (fun p => (p.map Pass.deadStores.apply).optimize.funcs.map
      (·.blocks.map (·.instrs.length))) = some [[0, 2, 1, 1]] := by decide +kernel
  cases hp : Decode.program t with
  | error e =>
    rw [hp] at hsize
    cases hsize
  | ok p =>
    rw [hp] at hsize
    refine ⟨p, rfl, Option.some.inj hsize, (optimized_leaves_flowGraph t p _ hp ?_).2.2.2⟩
    simp only [Program.map, optimize, runPipeline, List.map_map, List.forall₂_map_right_iff]
    exact List.forall₂_same.2 fun f _ => .tail (.single (.pass .deadStores f)) (.pipeline .standard _)

end Program

end BlockIR
