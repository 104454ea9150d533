import BlockIR.Pass.DeadStore
import BlockIR.Pass.DeadVariable
import Mathlib.Logic.Relation
import Mathlib.Tactic.Common
import Mathlib.Tactic.Lemma

namespace BlockIR

/-- Repeating a step for as long as it reports a change ends, and then `b` is there. -/
inductive Settles {α : Type*} (step : α → α × Bool) : α → α → Prop
  | stop {a b : α} : step a = (b, false) → Settles step a b
  | again {a b c : α} : step a = (b, true) → Settles step b c → Settles step a c

lemma Settles.unique {α : Type*} {step : α → α × Bool} {a b c : α} (hb : Settles step a b)
    (hc : Settles step a c) : b = c := by
  induction hb with
  | stop h =>
    cases hc with
    | stop h' => exact congrArg Prod.fst (h.symm.trans h')
    | again h' _ => cases h.symm.trans h'
  | again h _ ih =>
    cases hc with
    | stop h' => cases h.symm.trans h'
    | again h' hc =>
      cases h.symm.trans h'
      exact ih hc

def scanned {α : Type*} [DecidableEq α] (scan : α → α) (a : α) : α × Bool :=
  (scan a, decide (scan a ≠ a))

section Scans

variable {α : Type*} [DecidableEq α] {scan : α → α} {a b : α}

lemma scanned_eq_false : scanned scan a = (b, false) ↔ scan a = b ∧ scan a = a := by
  simp [scanned]

lemma scanned_eq_true : scanned scan a = (b, true) ↔ scan a = b ∧ scan a ≠ a := by
  simp [scanned]

namespace Settles

lemma of_eq (h : scan a = a) : Settles (scanned scan) a a :=
  .stop (scanned_eq_false.2 ⟨h, h⟩)

lemma of_ne (h : scan a ≠ a) (hb : Settles (scanned scan) (scan a) b) : Settles (scanned scan) a b :=
  .again (scanned_eq_true.2 ⟨rfl, h⟩) hb

lemma fixed (h : Settles (scanned scan) a b) : scan b = b := by
  induction h with
  | stop h =>
    obtain ⟨rfl, he⟩ := scanned_eq_false.1 h
    rw [he, he]
  | again _ _ ih => exact ih

lemma reaches {r : α → α → Prop} (hr : ∀ a, r a (scan a)) (h : Settles (scanned scan) a b) :
    Relation.ReflTransGen r a b := by
  induction h with
  | stop h =>
    obtain ⟨rfl, _⟩ := scanned_eq_false.1 h
    exact .single (hr _)
  | again h _ ih =>
    obtain ⟨rfl, _⟩ := scanned_eq_true.1 h
    exact .head (hr _) ih

end Settles

end Scans

lemma Func.settles_dropDeadVariables (f : Func) : Settles (scanned dropUnread) f f.dropDeadVariables := by
  induction f using dropDeadVariables.induct with
  | case1 f _ h =>
    rw [dropDeadVariables_of_eq h]
    exact .of_eq h
  | case2 f _ h ih =>
    rw [dropDeadVariables_of_ne h]
    exact .of_ne h ih

lemma settles_dropDeadStores (is : List Instr) : Settles (scanned dropOverwritten) is (dropDeadStores is) := by
  induction is using dropDeadStores.induct with
  | case1 is _ h =>
    rw [dropDeadStores_of_eq h]
    exact .of_eq h
  | case2 is _ h ih =>
    rw [dropDeadStores_of_ne h]
    exact .of_ne h ih

end BlockIR
