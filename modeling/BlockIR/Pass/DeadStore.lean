import BlockIR.Pass.Thinning
import BlockIR.Table

namespace BlockIR

/-- For each variable that has not been read since, where it was last written, and marks against the instructions
that have been overwritten. -/
structure StoreScan where
  pending : Table Text Nat := []
  dead : List Bool

namespace StoreScan

def read (s : StoreScan) (xs : List Text) : StoreScan :=
  { s with pending := xs.foldl Table.erase s.pending }

def write (s : StoreScan) (k : Nat) (x : Text) : StoreScan where
  pending := s.pending.set x k
  dead :=
    match s.pending.get? x with
    | none => s.dead
    | some j => s.dead.set j true

def step (s : StoreScan) (k : Nat) (i : Instr) : StoreScan :=
  match i.dest with
  | none => s.read i.args
  | some x => (s.read i.args).write k x

def run : StoreScan → Nat → List Instr → StoreScan
  | s, _, [] => s
  | s, k, i :: is => run (s.step k i) (k + 1) is

def ofInstrs (is : List Instr) : StoreScan :=
  run { dead := List.replicate is.length false } 0 is

end StoreScan

def dropOverwritten (is : List Instr) : List Instr :=
  unmarked is (StoreScan.ofInstrs is).dead

theorem dropOverwritten_sublist (is : List Instr) : (dropOverwritten is).Sublist is :=
  unmarked_sublist is _

def dropDeadStores (is : List Instr) : List Instr :=
  let js := dropOverwritten is
  if _h : js = is then is else dropDeadStores js
termination_by is.length
decreasing_by
  exact Nat.lt_of_le_of_ne (dropOverwritten_sublist is).length_le
    fun hl => _h ((dropOverwritten_sublist is).eq_of_length hl)

theorem dropDeadStores_of_eq {is : List Instr} (h : dropOverwritten is = is) :
    dropDeadStores is = is := by
  rw [dropDeadStores, dif_pos h]

theorem dropDeadStores_of_ne {is : List Instr} (h : dropOverwritten is ≠ is) :
    dropDeadStores is = dropDeadStores (dropOverwritten is) := by
  rw [dropDeadStores, dif_neg h]

theorem dropDeadStores_sublist (is : List Instr) : (dropDeadStores is).Sublist is := by
  induction is using dropDeadStores.induct with
  | case1 is _ h =>
    have he := dropDeadStores_of_eq h
    exact he.symm ▸ List.Sublist.refl is
  | case2 is _ h ih =>
    have he := dropDeadStores_of_ne h
    exact he.symm ▸ ih.trans (dropOverwritten_sublist is)

namespace Block

def dropDeadStores (b : Block) : Block :=
  { b with instrs := BlockIR.dropDeadStores b.instrs }

theorem dropDeadStores_thins (b : Block) : b.dropDeadStores.Thins b :=
  ⟨rfl, dropDeadStores_sublist b.instrs⟩

end Block

namespace Func

def dropDeadStores (f : Func) : Func :=
  f.mapBlocks Block.dropDeadStores

theorem dropDeadStores_thins (f : Func) : f.dropDeadStores.Thins f :=
  mapBlocks_thins Block.dropDeadStores_thins f

end Func

end BlockIR
