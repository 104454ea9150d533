import BlockIR.Proofs.Pass.Support
import Mathlib.Data.Fintype.Pigeonhole
import Mathlib.Data.Fintype.Sigma
import Mathlib.Data.List.FinRange
import Mathlib.Data.List.OfFn
import Mathlib.Order.Bounds.Defs
import Mathlib.Order.WellFounded

/-! Which instructions survive when dead variables are dropped, by position. The positions that are kept
are the greatest set in which every definition is read, and a definition is among them if the reads that start
from it lead to an instruction without a destination or go round in a circle. -/

namespace BlockIR

namespace Func

abbrev Position (f : Func) : Type :=
  (b : Fin f.blocks.length) × Fin (f.blocks.get b).instrs.length

variable {f : Func}

def instrAt (f : Func) (p : f.Position) : Instr :=
  (f.blocks.get p.1).instrs.get p.2

lemma mem_instrs_iff {i : Instr} : i ∈ f.instrs ↔ ∃ p, f.instrAt p = i := by
  rw [instrs, List.mem_flatMap]
  constructor
  · rintro ⟨_, hb, hi⟩
    obtain ⟨b, rfl⟩ := List.mem_iff_get.1 hb
    obtain ⟨k, rfl⟩ := List.mem_iff_get.1 hi
    exact ⟨⟨b, k⟩, rfl⟩
  · rintro ⟨⟨b, k⟩, rfl⟩
    exact ⟨_, List.get_mem _ b, List.get_mem _ k⟩

open scoped Classical in
noncomputable def indices (K : Set f.Position) (b : Fin f.blocks.length) :
    List (Fin (f.blocks.get b).instrs.length) :=
  (List.finRange _).filter fun k => (⟨b, k⟩ : f.Position) ∈ K

lemma mem_indices {K : Set f.Position} {b : Fin f.blocks.length} {k : Fin (f.blocks.get b).instrs.length} :
    k ∈ indices K b ↔ (⟨b, k⟩ : f.Position) ∈ K := by
  simp [indices]

lemma indices_sublist {K L : Set f.Position} (h : K ⊆ L) (b : Fin f.blocks.length) :
    (indices K b).Sublist (indices L b) := by
  apply List.monotone_filter_right
  intro k hk
  simp only [decide_eq_true_iff] at hk ⊢
  exact h hk

noncomputable def keep (f : Func) (K : Set f.Position) : Func :=
  { f with
    blocks := List.ofFn fun b =>
      ⟨(f.blocks.get b).name, (indices K b).map (f.blocks.get b).instrs.get⟩ }

open scoped Classical in
lemma keep_setOf (f : Func) (P : Instr → Prop) :
    f.keep {p | P (f.instrAt p)} = f.mapBlocks (Block.filter fun i => P i) := by
  have hinstrs (b : Fin f.blocks.length) : (indices {p | P (f.instrAt p)} b).map (f.blocks.get b).instrs.get =
      (f.blocks.get b).instrs.filter fun i => P i := by
    conv_rhs => rw [← List.map_get_finRange (f.blocks.get b).instrs, List.filter_map]
    rfl
  have hblocks : f.blocks.map (Block.filter fun i => P i) =
      List.ofFn fun b => (f.blocks.get b).filter fun i => P i := by
    conv_lhs => rw [← List.ofFn_get f.blocks, List.map_ofFn]
    rfl
  simp only [keep, mapBlocks, hinstrs, hblocks]
  rfl

lemma eq_of_keep_eq {P : Instr → Prop} {K : Set f.Position} (h : f.keep K = f.keep {p | P (f.instrAt p)}) :
    K = {p | P (f.instrAt p)} := by
  have hblocks := List.ofFn_injective (congrArg blocks h)
  have hinstrs (b : Fin f.blocks.length) : (indices K b).map (f.blocks.get b).instrs.get =
      (indices {p | P (f.instrAt p)} b).map (f.blocks.get b).instrs.get :=
    congrArg Block.instrs (congrFun hblocks b)
  have hsub : K ⊆ {p | P (f.instrAt p)} := by
    rintro ⟨b, k⟩ hk
    have hmem : f.instrAt ⟨b, k⟩ ∈ (indices K b).map (f.blocks.get b).instrs.get :=
      List.mem_map_of_mem (mem_indices.2 hk)
    rw [hinstrs b] at hmem
    obtain ⟨l, hl, he⟩ := List.mem_map.1 hmem
    have hP : P (f.instrAt ⟨b, l⟩) := mem_indices.1 hl
    rwa [instrAt, he] at hP
  apply hsub.antisymm
  rintro ⟨b, k⟩ hk
  -- One list of numbers is a part of the other, and both name equally many instructions.
  have heq := (indices_sublist hsub b).eq_of_length (by simpa using congrArg List.length (hinstrs b))
  exact mem_indices.1 (heq ▸ mem_indices.2 hk)

def SelfSupporting (f : Func) (K : Set f.Position) : Prop :=
  ∀ p ∈ K, ∀ x, (f.instrAt p).dest = some x → ∃ q ∈ K, x ∈ (f.instrAt q).args

lemma isGreatest_kept (f : Func) :
    IsGreatest {K | f.SelfSupporting K} {p | (f.instrAt p).Kept f.instrs} := by
  constructor
  · intro p hp x hx
    obtain ⟨i, hi, ha, hk⟩ := (hp x hx).exists_kept
    obtain ⟨q, rfl⟩ := mem_instrs_iff.1 hi
    exact ⟨q, hk, ha⟩
  · intro K hK p hp x hx
    refine ⟨fun y => ∃ q ∈ K, (f.instrAt q).dest = some y, ?_, p, hp, hx⟩
    rintro y ⟨q, hq, hy⟩
    obtain ⟨r, hr, ha⟩ := hK q hq y hy
    exact ⟨f.instrAt r, mem_instrs_iff.2 ⟨r, rfl⟩, ha, fun z hz => ⟨r, hr, hz⟩⟩

lemma keep_kept (f : Func) : f.keep {p | (f.instrAt p).Kept f.instrs} = f.dropDeadVariables := by
  classical
  rw [keep_setOf (P := fun i => i.Kept f.instrs), dropDeadVariables_eq_supportedPart, supportedPart]

def ReadAt (f : Func) (p q : f.Position) : Prop :=
  ∃ x, (f.instrAt p).dest = some x ∧ x ∈ (f.instrAt q).args

def Ends (f : Func) (p : f.Position) : Prop :=
  ∃ q, Relation.ReflTransGen f.ReadAt p q ∧ (f.instrAt q).dest = none

def Endless (f : Func) (p : f.Position) : Prop :=
  ∃ s : Nat → f.Position, s 0 = p ∧ ∀ n, f.ReadAt (s n) (s (n + 1))

lemma endless_iff_not_acc {p : f.Position} : f.Endless p ↔ ¬ Acc (flip f.ReadAt) p :=
  (not_acc_iff_exists_descending_chain (r := flip f.ReadAt)).symm

lemma ends_of_acc {K : Set f.Position} (hK : f.SelfSupporting K) {p : f.Position}
    (h : Acc (flip f.ReadAt) p) (hp : p ∈ K) : f.Ends p := by
  induction h with
  | intro p _ ih =>
    cases hd : (f.instrAt p).dest with
    | none => exact ⟨p, .refl, hd⟩
    | some x =>
      obtain ⟨q, hq, ha⟩ := hK p hp x hd
      have hpq : f.ReadAt p q := ⟨x, hd, ha⟩
      obtain ⟨r, hqr, hr⟩ := ih q hpq hq
      exact ⟨r, .head hpq hqr, hr⟩

lemma selfSupporting_chains (f : Func) : f.SelfSupporting {p | f.Ends p ∨ f.Endless p} := by
  have hread {p q : f.Position} {x : Text} (hx : (f.instrAt p).dest = some x) (h : f.ReadAt p q) :
      x ∈ (f.instrAt q).args := by
    obtain ⟨y, hy, ha⟩ := h
    obtain rfl : x = y := Option.some.inj (hx.symm.trans hy)
    exact ha
  rintro p (⟨q, hpq, hq⟩ | ⟨s, rfl, hs⟩) x hx
  · rcases hpq.cases_head with rfl | ⟨r, hpr, hrq⟩
    · cases hx.symm.trans hq
    · exact ⟨r, .inl ⟨q, hrq, hq⟩, hread hx hpr⟩
  · exact ⟨s 1, .inr ⟨fun n => s (n + 1), rfl, fun n => hs (n + 1)⟩, hread hx (hs 0)⟩

lemma endless_iff_circle {p : f.Position} :
    f.Endless p ↔ ∃ q, Relation.ReflTransGen f.ReadAt p q ∧ Relation.TransGen f.ReadAt q q := by
  constructor
  · rintro ⟨s, rfl, hs⟩
    have hcircle (m n : Nat) (hmn : m < n) (h : s m = s n) :
        ∃ q, Relation.ReflTransGen f.ReadAt (s 0) q ∧ Relation.TransGen f.ReadAt q q := by
      refine ⟨s m, Nat.rel_of_forall_rel_succ_of_le _ (fun n => .single (hs n)) m.zero_le, ?_⟩
      have hturn : Relation.TransGen f.ReadAt (s m) (s n) :=
        Nat.rel_of_forall_rel_succ_of_lt _ (fun n => .single (hs n)) hmn
      rwa [← h] at hturn
    -- There are only so many positions, so one of them comes twice.
    obtain ⟨m, n, hne, h⟩ := Finite.exists_ne_map_eq_of_infinite s
    rcases Nat.lt_or_gt_of_ne hne with hmn | hnm
    · exact hcircle m n hmn h
    · exact hcircle n m hnm h.symm
  · rintro ⟨q, hpq, hqq⟩
    rw [endless_iff_not_acc]
    intro hacc
    induction hacc with
    | intro p _ ih =>
      rcases hpq.cases_head with rfl | ⟨r, hpr, hrq⟩
      · obtain ⟨r, hpr, hrp⟩ := Relation.TransGen.head'_iff.1 hqq
        exact ih r hpr hrp
      · exact ih r hpr hrq

/-- Dropping dead variables keeps the instructions at one set of positions: the greatest one in which every
definition is read. All instructions without a destination are there, and a definition is there if the reads
that start from it lead to such an instruction or never end, that is, come to a circle. -/
theorem dropDeadVariables_keeps_greatest (f : Func) :
    ∃ K : Set f.Position, (∀ L, f.keep L = f.dropDeadVariables ↔ L = K) ∧
      (∀ p, (f.instrAt p).dest = none → p ∈ K) ∧ IsGreatest {L | f.SelfSupporting L} K ∧
      ∀ p, (p ∈ K ↔ f.Ends p ∨ f.Endless p) ∧
        (f.Endless p ↔ ∃ q, Relation.ReflTransGen f.ReadAt p q ∧ Relation.TransGen f.ReadAt q q) := by
  have hgreatest := f.isGreatest_kept
  refine ⟨_, fun L => ⟨fun h => ?_, fun h => h ▸ f.keep_kept⟩, fun p hp x hx => ?_, hgreatest,
    fun p => ⟨⟨fun hp => ?_, fun hp => hgreatest.2 f.selfSupporting_chains hp⟩, endless_iff_circle⟩⟩
  · rw [← f.keep_kept] at h
    exact eq_of_keep_eq h
  · cases hp.symm.trans hx
  · rw [or_iff_not_imp_right, endless_iff_not_acc, not_not]
    exact fun hacc => ends_of_acc hgreatest.1 hacc hp

end Func

end BlockIR
