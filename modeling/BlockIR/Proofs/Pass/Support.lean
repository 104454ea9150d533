import BlockIR.Pass.DeadVariable
import Mathlib.Tactic.Lemma
import Mathlib.Tactic.Common

/-! What dropping dead variables keeps: a family of variables supports itself if each of them is read by
an instruction that defines nothing outside the family, and the variables of all such families are the
needed ones. Definitions that only feed each other in a circle are needed. -/

namespace BlockIR

def Supported (is : List Instr) (L : Text → Prop) : Prop :=
  ∀ x, L x → ∃ i ∈ is, x ∈ i.args ∧ ∀ y, i.dest = some y → L y

def Needed (is : List Instr) (x : Text) : Prop :=
  ∃ L, Supported is L ∧ L x

def Instr.Kept (is : List Instr) (i : Instr) : Prop :=
  ∀ x, i.dest = some x → Needed is x

lemma Supported.mono {is js : List Instr} {L : Text → Prop} (h : Supported is L) (hs : is ⊆ js) :
    Supported js L := by
  intro x hx
  obtain ⟨i, hi, ha, hd⟩ := h x hx
  exact ⟨i, hs hi, ha, hd⟩

lemma needed_supported (is : List Instr) : Supported is (Needed is) := by
  rintro x ⟨L, hL, hx⟩
  obtain ⟨i, hi, ha, hd⟩ := hL x hx
  exact ⟨i, hi, ha, fun y hy => ⟨L, hL, hd y hy⟩⟩

lemma Needed.exists_kept {is : List Instr} {x : Text} (h : Needed is x) :
    ∃ i ∈ is, x ∈ i.args ∧ i.Kept is :=
  needed_supported is x h

lemma needed_filter {is : List Instr} {p : Instr → Bool} (hp : ∀ i ∈ is, i.Kept is → p i = true)
    (x : Text) : Needed (is.filter p) x ↔ Needed is x := by
  constructor
  · rintro ⟨L, hL, hx⟩
    exact ⟨L, hL.mono List.filter_sublist.subset, hx⟩
  · intro hx
    refine ⟨Needed is, ?_, hx⟩
    intro y hy
    obtain ⟨i, hi, ha, hk⟩ := hy.exists_kept
    exact ⟨i, List.mem_filter.2 ⟨hi, hp i hi hk⟩, ha, hk⟩

namespace Func

open scoped Classical in
noncomputable def supportedPart (f : Func) : Func :=
  f.mapBlocks (Block.filter fun i => i.Kept f.instrs)

lemma mem_reads {f : Func} {x : Text} : x ∈ f.reads ↔ ∃ i ∈ f.instrs, x ∈ i.args :=
  List.mem_flatMap

lemma neededBy_reads_of_kept {f : Func} {i : Instr} (h : i.Kept f.instrs) :
    i.neededBy f.reads = true := by
  unfold Instr.neededBy
  split
  · rfl
  · rename_i x hx
    obtain ⟨j, hj, ha, _⟩ := (h x hx).exists_kept
    exact decide_eq_true (mem_reads.2 ⟨j, hj, ha⟩)

lemma mapBlocks_filter_instrs (f : Func) (p : Instr → Bool) :
    (f.mapBlocks (Block.filter p)).instrs = f.instrs.filter p := by
  simp [instrs, mapBlocks, Block.filter, List.flatMap_map, List.filter_flatMap]

lemma mapBlocks_filter_filter (f : Func) (p q : Instr → Bool) :
    (f.mapBlocks (Block.filter p)).mapBlocks (Block.filter q) =
      f.mapBlocks (Block.filter fun i => q i && p i) := by
  simp [mapBlocks, Block.filter, Function.comp_def]

lemma mapBlocks_filter_congr {f : Func} {p q : Instr → Bool} (h : ∀ i ∈ f.instrs, p i = q i) :
    f.mapBlocks (Block.filter p) = f.mapBlocks (Block.filter q) := by
  have hb : ∀ b ∈ f.blocks, b.filter p = b.filter q := by
    intro b hb
    have hi : ∀ i ∈ b.instrs, p i = q i := fun i hi => h i (List.mem_flatMap.2 ⟨b, hb, hi⟩)
    simp only [Block.filter, List.filter_congr hi]
  simp only [mapBlocks, List.map_congr_left hb]

lemma mapBlocks_filter_eq_self_iff {f : Func} {p : Instr → Bool} :
    f.mapBlocks (Block.filter p) = f ↔ ∀ i ∈ f.instrs, p i = true := by
  constructor
  · intro h
    have hi := congrArg instrs h
    rw [mapBlocks_filter_instrs] at hi
    exact List.filter_eq_self.1 hi
  · intro h
    rw [mapBlocks_filter_congr (q := fun _ => true) h]
    have hb : Block.filter (fun _ => true) = id := by
      funext b
      exact congrArg (Block.mk b.name) (List.filter_eq_self.2 fun _ _ => rfl)
    simp [mapBlocks, hb]

lemma dropUnread_eq_self_iff {f : Func} :
    f.dropUnread = f ↔ ∀ i ∈ f.instrs, i.neededBy f.reads = true :=
  mapBlocks_filter_eq_self_iff

lemma kept_of_dropUnread_eq {f : Func} (h : f.dropUnread = f) {i : Instr} (hi : i ∈ f.instrs) :
    i.Kept f.instrs := by
  have hall := dropUnread_eq_self_iff.1 h
  have hread : ∀ j ∈ f.instrs, ∀ x, j.dest = some x → x ∈ f.reads := by
    intro j hj x hx
    simpa [Instr.neededBy, hx] using hall j hj
  have hs : Supported f.instrs (· ∈ f.reads) := by
    intro x hx
    obtain ⟨j, hj, ha⟩ := mem_reads.1 hx
    exact ⟨j, hj, ha, hread j hj⟩
  exact fun x hx => ⟨_, hs, hread i hi x hx⟩

lemma dropUnread_instrs (f : Func) : f.dropUnread.instrs = f.instrs.filter (Instr.neededBy f.reads) :=
  f.mapBlocks_filter_instrs _

lemma kept_dropUnread_iff (f : Func) (i : Instr) : i.Kept f.dropUnread.instrs ↔ i.Kept f.instrs := by
  rw [dropUnread_instrs]
  exact forall₂_congr fun x _ => needed_filter (fun _ _ hj => neededBy_reads_of_kept hj) x

lemma dropUnread_supportedPart (f : Func) : f.dropUnread.supportedPart = f.supportedPart := by
  classical
  rw [supportedPart, supportedPart]
  conv_lhs => rw [dropUnread, mapBlocks_filter_filter, ← dropUnread]
  apply mapBlocks_filter_congr
  intro i _
  rw [Bool.eq_iff_iff, Bool.and_eq_true, decide_eq_true_iff, decide_eq_true_iff, kept_dropUnread_iff]
  exact ⟨And.left, fun h => ⟨h, neededBy_reads_of_kept h⟩⟩

theorem dropDeadVariables_eq_supportedPart (f : Func) : f.dropDeadVariables = f.supportedPart := by
  induction f using dropDeadVariables.induct with
  | case1 f _ h =>
    rw [dropDeadVariables_of_eq h]
    refine (mapBlocks_filter_eq_self_iff.2 ?_).symm
    intro i hi
    simpa using kept_of_dropUnread_eq h hi
  | case2 f _ h ih =>
    rw [dropDeadVariables_of_ne h, ih]
    exact f.dropUnread_supportedPart

end Func

end BlockIR
