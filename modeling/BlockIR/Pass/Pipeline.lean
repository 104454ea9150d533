import BlockIR.Pass.DeadStore
import BlockIR.Pass.Worklist

namespace BlockIR

inductive Pass where
  | deadVariables
  | deadVariablesByCount
  | deadStores
deriving DecidableEq

namespace Pass

def name : Pass → String
  | deadVariables | deadVariablesByCount => "Dead Variable Elimination"
  | deadStores => "Dead Store Elimination"

def description : Pass → String
  | deadVariables | deadVariablesByCount =>
    "Removes definitions whose destination never appears as an argument in the function"
  | deadStores =>
    "Removes block-local definitions superseded by a later definition with no use in between"

def apply : Pass → Func → Func
  | deadVariables => Func.dropDeadVariables
  | deadVariablesByCount => Func.dropDeadVariablesByCount
  | deadStores => Func.dropDeadStores

def changes (p : Pass) (f : Func) : Bool :=
  p.apply f ≠ f

theorem apply_thins (p : Pass) (f : Func) : (p.apply f).Thins f := by
  cases p
  · exact f.dropDeadVariables_thins
  · exact f.dropDeadVariablesFrom_thins f.unread
  · exact f.dropDeadStores_thins

theorem size_lt_of_changes {p : Pass} {f : Func} (h : p.changes f = true) :
    (p.apply f).size < f.size :=
  (p.apply_thins f).size_lt (by simpa [changes] using h)

end Pass

abbrev Pipeline := List Pass

namespace Pipeline

def standard : Pipeline :=
  [.deadVariables, .deadStores]

def round : Pipeline → Func → Func × Bool
  | [], f => (f, false)
  | p :: ps, f =>
    let g := p.apply f
    let (h, changed) := round ps g
    (h, decide (g ≠ f) || changed)

theorem round_thins (ps : Pipeline) (f : Func) : (round ps f).1.Thins f := by
  induction ps generalizing f with
  | nil => exact .refl f
  | cons p ps ih => exact (ih (p.apply f)).trans (p.apply_thins f)

theorem round_size_lt {ps : Pipeline} {f : Func} (h : (round ps f).2 = true) :
    (round ps f).1.size < f.size := by
  induction ps generalizing f with
  | nil => cases h
  | cons p ps ih =>
    have hle := (round_thins ps (p.apply f)).size_le
    have hle' := (p.apply_thins f).size_le
    rcases Bool.or_eq_true _ _ ▸ h with hp | hps
    · exact Nat.lt_of_le_of_lt hle (Pass.size_lt_of_changes hp)
    · exact Nat.lt_of_lt_of_le (ih hps) hle'

def run (ps : Pipeline) (f : Func) : Func :=
  match _h : round ps f with
  | (g, false) => g
  | (g, true) => run ps g
termination_by f.size
decreasing_by
  have hc : (round ps f).2 = true := by rw [_h]
  have hlt := round_size_lt hc
  rwa [_h] at hlt

end Pipeline

namespace Program

def runPipeline (ps : Pipeline) (p : Program) : Program :=
  p.map ps.run

def optimize (p : Program) : Program :=
  p.runPipeline .standard

end Program

end BlockIR
