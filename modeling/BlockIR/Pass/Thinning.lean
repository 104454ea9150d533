import BlockIR.Program

namespace BlockIR

def unmarked : List Instr → List Bool → List Instr
  | [], _ => []
  | is, [] => is
  | i :: is, dead :: marks => if dead then unmarked is marks else i :: unmarked is marks

theorem unmarked_sublist (is : List Instr) (marks : List Bool) : (unmarked is marks).Sublist is := by
  induction is generalizing marks with
  | nil => exact List.Sublist.refl []
  | cons i is ih =>
    cases marks with
    | nil => exact List.Sublist.refl (i :: is)
    | cons dead marks =>
      rw [unmarked]
      split
      · exact (ih marks).cons i
      · exact (ih marks).cons_cons i

namespace Block

def Thins (b c : Block) : Prop :=
  b.name = c.name ∧ b.instrs.Sublist c.instrs

theorem Thins.refl (b : Block) : Thins b b :=
  ⟨rfl, List.Sublist.refl _⟩

theorem Thins.trans {a b c : Block} (h : Thins a b) (h' : Thins b c) : Thins a c :=
  ⟨h.1.trans h'.1, h.2.trans h'.2⟩

theorem Thins.eq_of_length {b c : Block} (h : Thins b c) (hl : b.instrs.length = c.instrs.length) :
    b = c := by
  obtain ⟨x, is⟩ := b
  obtain ⟨y, js⟩ := c
  obtain ⟨rfl, hs⟩ := h
  rw [show is = js from hs.eq_of_length hl]

end Block

inductive BlocksThin : List Block → List Block → Prop where
  | nil : BlocksThin [] []
  | cons {b c : Block} {bs cs : List Block} : b.Thins c → BlocksThin bs cs →
      BlocksThin (b :: bs) (c :: cs)

namespace BlocksThin

theorem refl (bs : List Block) : BlocksThin bs bs := by
  induction bs with
  | nil => exact .nil
  | cons b bs ih => exact .cons (.refl b) ih

theorem trans {as bs cs : List Block} (h : BlocksThin as bs) (h' : BlocksThin bs cs) :
    BlocksThin as cs := by
  induction h generalizing cs with
  | nil => exact h'
  | cons hb _ ih =>
    cases h' with
    | cons hc hcs => exact .cons (hb.trans hc) (ih hcs)

theorem of_map {g : Block → Block} (hg : ∀ b, (g b).Thins b) (bs : List Block) :
    BlocksThin (bs.map g) bs := by
  induction bs with
  | nil => exact .nil
  | cons b bs ih => exact .cons (hg b) ih

theorem length_le {bs cs : List Block} (h : BlocksThin bs cs) :
    (bs.flatMap Block.instrs).length ≤ (cs.flatMap Block.instrs).length := by
  induction h with
  | nil => exact Nat.le_refl _
  | cons hb _ ih =>
    have := hb.2.length_le
    simp only [List.flatMap_cons, List.length_append]
    omega

theorem eq_of_length {bs cs : List Block} (h : BlocksThin bs cs)
    (hl : (bs.flatMap Block.instrs).length = (cs.flatMap Block.instrs).length) : bs = cs := by
  induction h with
  | nil => rfl
  | cons hb hbs ih =>
    have h1 := hb.2.length_le
    have h2 := hbs.length_le
    simp only [List.flatMap_cons, List.length_append] at hl
    rw [hb.eq_of_length (by omega), ih (by omega)]

end BlocksThin

namespace Func

def mapBlocks (f : Func) (g : Block → Block) : Func :=
  { f with blocks := f.blocks.map g }

structure Thins (f g : Func) : Prop where
  name : f.name = g.name
  params : f.params = g.params
  ret : f.ret = g.ret
  blocks : BlocksThin f.blocks g.blocks

namespace Thins

theorem refl (f : Func) : Thins f f :=
  ⟨rfl, rfl, rfl, .refl _⟩

theorem trans {f g h : Func} (hf : Thins f g) (hg : Thins g h) : Thins f h :=
  ⟨hf.name.trans hg.name, hf.params.trans hg.params, hf.ret.trans hg.ret, hf.blocks.trans hg.blocks⟩

theorem size_le {f g : Func} (h : Thins f g) : f.size ≤ g.size :=
  h.blocks.length_le

theorem eq_of_size {f g : Func} (h : Thins f g) (hs : f.size = g.size) : f = g := by
  have hb := h.blocks.eq_of_length hs
  obtain ⟨hn, hp, hr, _⟩ := h
  cases f
  cases g
  simp_all

theorem size_lt {f g : Func} (h : Thins f g) (hne : f ≠ g) : f.size < g.size :=
  Nat.lt_of_le_of_ne h.size_le fun hs => hne (h.eq_of_size hs)

end Thins

theorem mapBlocks_thins {g : Block → Block} (hg : ∀ b, (g b).Thins b) (f : Func) :
    (f.mapBlocks g).Thins f :=
  ⟨rfl, rfl, rfl, .of_map hg f.blocks⟩

end Func

end BlockIR
