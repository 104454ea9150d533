import BlockIR.Instr.Shape
import Mathlib.Tactic.Lemma
import Mathlib.Tactic.Common
import Mathlib.Tactic.MkIffOfInductiveProp

namespace BlockIR

def Presence.Admits : Presence → Bool → Prop
  | forbidden, b => b = false
  | required, b => b = true
  | optional, _ => True

@[mk_iff]
structure Shape.Fits (s : Shape) (i : Instr) : Prop where
  typed : i.dest.isSome = i.type.isSome
  dest : s.dest.Admits i.dest.isSome
  args : s.minArgs ≤ i.args.length ∧ ∀ m ∈ s.maxArgs, i.args.length ≤ m
  funcs : i.funcs.length = s.funcs
  labels : i.labels.length = s.labels
  value : s.value.Admits i.value.isSome

namespace Shape

lemma minArgs_of_maxArgs {op : Op} (h : (ofOp op).maxArgs = none) : (ofOp op).minArgs = 0 := by
  cases op <;> first | rfl | cases h

end Shape

lemma Presence.admits_iff {p : Presence} {α : Type} {o : Option α} :
    p.Admits o.isSome ↔ ¬(p = required ∧ o = none) ∧ ¬(p = forbidden ∧ o ≠ none) := by
  cases p <;> cases o <;> simp [Admits]

namespace Instr

lemma argsFault?_eq_none_iff {s : Shape} {n : Nat} (hs : s.maxArgs = none → s.minArgs = 0) :
    argsFault? s n = none ↔ s.minArgs ≤ n ∧ ∀ m ∈ s.maxArgs, n ≤ m := by
  unfold argsFault?
  split
  · rename_i hm
    simp [hm, hs hm]
  · rename_i m hm
    simp [hm]

lemma shapeFault?_eq_none_iff {i : Instr} : i.shapeFault? = none ↔ (Shape.ofOp i.op).Fits i := by
  have hargs := argsFault?_eq_none_iff (s := Shape.ofOp i.op) (n := i.args.length) Shape.minArgs_of_maxArgs
  rw [Shape.fits_iff, ← hargs, Presence.admits_iff, Presence.admits_iff]
  unfold shapeFault?
  dsimp only
  cases argsFault? (Shape.ofOp i.op) i.args.length <;> grind

lemma dest_of_isTerminator {i : Instr} (h : i.shapeFault? = none) (ht : i.isTerminator = true) :
    i.dest = none := by
  have hf : (Shape.ofOp i.op).dest = .forbidden := by
    cases hop : i.op <;> simp_all [isTerminator, Op.isTerminator, Shape.ofOp]
  have hd := (shapeFault?_eq_none_iff.1 h).dest
  simpa [hf, Presence.Admits] using hd

def InTable (i : Instr) : Prop :=
  (i.dest ≠ none ↔ i.type ≠ none) ∧
  match i.op with
  | .const => i.dest ≠ none ∧ i.args = [] ∧ i.funcs = [] ∧ i.labels = [] ∧ i.value ≠ none
  | .add | .sub | .mul | .div | .eq | .lt | .gt | .le | .ge | .and | .or =>
    i.dest ≠ none ∧ i.args.length = 2 ∧ i.funcs = [] ∧ i.labels = [] ∧ i.value = none
  | .not | .id => i.dest ≠ none ∧ i.args.length = 1 ∧ i.funcs = [] ∧ i.labels = [] ∧ i.value = none
  | .jmp => i.dest = none ∧ i.args = [] ∧ i.funcs = [] ∧ i.labels.length = 1 ∧ i.value = none
  | .br => i.dest = none ∧ i.args.length = 1 ∧ i.funcs = [] ∧ i.labels.length = 2 ∧ i.value = none
  | .call => i.funcs.length = 1 ∧ i.labels = [] ∧ i.value = none
  | .ret => i.dest = none ∧ i.args.length ≤ 1 ∧ i.funcs = [] ∧ i.labels = [] ∧ i.value = none
  | .print => i.dest = none ∧ i.funcs = [] ∧ i.labels = [] ∧ i.value = none
  | .nop => i.dest = none ∧ i.args = [] ∧ i.funcs = [] ∧ i.labels = [] ∧ i.value = none

lemma shapeFault?_eq_none_iff_inTable {i : Instr} : i.shapeFault? = none ↔ i.InTable := by
  have htyped : i.dest.isSome = i.type.isSome ↔ (i.dest ≠ none ↔ i.type ≠ none) := by
    cases i.dest <;> cases i.type <;> simp
  have hexact (n : Nat) : n ≤ i.args.length ∧ i.args.length ≤ n ↔ i.args.length = n := by omega
  rw [shapeFault?_eq_none_iff, Shape.fits_iff, htyped, InTable]
  cases hop : i.op <;>
    simp [Shape.ofOp, Shape.unary, Shape.binary, Presence.Admits, Option.isSome_iff_ne_none, hexact]

end Instr

end BlockIR
