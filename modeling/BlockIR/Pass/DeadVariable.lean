import BlockIR.Pass.Thinning

/-! Leaving out definitions of variables that are read nowhere in the function. Only names count:
where a definition stands, and whether there is another, does not matter. -/

namespace BlockIR

namespace Instr

def neededBy (xs : List Text) (i : Instr) : Bool :=
  match i.dest with
  | none => true
  | some x => x ∈ xs

end Instr

namespace Block

def filter (p : Instr → Bool) (b : Block) : Block :=
  { b with instrs := b.instrs.filter p }

theorem filter_thins (p : Instr → Bool) (b : Block) : (b.filter p).Thins b :=
  ⟨rfl, List.filter_sublist⟩

end Block

namespace Func

def reads (f : Func) : List Text :=
  f.instrs.flatMap Instr.args

def dropUnread (f : Func) : Func :=
  let xs := f.reads
  f.mapBlocks (Block.filter (Instr.neededBy xs))

theorem dropUnread_thins (f : Func) : f.dropUnread.Thins f :=
  mapBlocks_thins (Block.filter_thins _) f

def dropDeadVariables (f : Func) : Func :=
  let g := f.dropUnread
  if _h : g = f then f else g.dropDeadVariables
termination_by f.size
decreasing_by exact f.dropUnread_thins.size_lt _h

theorem dropDeadVariables_of_eq {f : Func} (h : f.dropUnread = f) : f.dropDeadVariables = f := by
  rw [dropDeadVariables, dif_pos h]

theorem dropDeadVariables_of_ne {f : Func} (h : f.dropUnread ≠ f) :
    f.dropDeadVariables = f.dropUnread.dropDeadVariables := by
  rw [dropDeadVariables, dif_neg h]

theorem dropDeadVariables_thins (f : Func) : f.dropDeadVariables.Thins f := by
  induction f using dropDeadVariables.induct with
  | case1 f _ h =>
    have he := dropDeadVariables_of_eq h
    exact he.symm ▸ Thins.refl f
  | case2 f _ h ih =>
    have he := dropDeadVariables_of_ne h
    exact he.symm ▸ ih.trans f.dropUnread_thins

end Func

end BlockIR
