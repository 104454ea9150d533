import BlockIR.Proofs.Pass.Pruning
import Mathlib.Logic.Function.Basic

namespace BlockIR

variable {V : Type*}

/-- The value of a definition, from the instruction and the values of its arguments. -/
abbrev Meaning (V : Type*) := Instr → List V → V

namespace Instr

def step (m : Meaning V) (ρ : Text → V) (i : Instr) : Text → V :=
  match i.dest with
  | none => ρ
  | some x => Function.update ρ x (m i (i.args.map ρ))

def observation? (ρ : Text → V) (i : Instr) : Option (Instr × List V) :=
  match i.dest with
  | none => some (i, i.args.map ρ)
  | some _ => none

end Instr

def valuesAfter (m : Meaning V) (ρ : Text → V) (is : List Instr) : Text → V :=
  is.foldl (Instr.step m) ρ

def observations (m : Meaning V) : (Text → V) → List Instr → List (Instr × List V)
  | _, [] => []
  | ρ, i :: is => (i.observation? ρ).toList ++ observations m (i.step m ρ) is

def Func.along (f : Func) (path : List Nat) : List Instr :=
  path.flatMap fun k => (f.blocks[k]?.map Block.instrs).getD []

lemma observations_append (m : Meaning V) (ρ : Text → V) (is js : List Instr) :
    observations m ρ (is ++ js) = observations m ρ is ++ observations m (valuesAfter m ρ is) js := by
  induction is generalizing ρ with
  | nil => rfl
  | cons i is ih => simp [observations, valuesAfter, ih]

def Agree (R : Text → Prop) (is : List Instr) (ρ σ : Text → V) : Prop :=
  ∀ x, R x → ρ x = σ x ∨ overwritten x is = true

namespace Agree

variable {R : Text → Prop} {is : List Instr} {i : Instr} {ρ σ : Text → V}

lemma of_eq (h : Agree R [] ρ σ) (is : List Instr) : Agree R is ρ σ := by
  intro x hx
  rcases h x hx with h | h
  · exact .inl h
  · cases h

lemma args (h : Agree R (i :: is) ρ σ) (hr : ∀ x ∈ i.args, R x) : i.args.map ρ = i.args.map σ := by
  refine List.map_congr_left fun x hx => (h x (hr x hx)).resolve_right fun ho => ?_
  exact (overwritten_cons.1 ho).1 hx

lemma step (h : Agree R (i :: is) ρ σ) (hr : ∀ x ∈ i.args, R x) (m : Meaning V) :
    Agree R is (i.step m ρ) (i.step m σ) := by
  have ha := h.args hr
  intro x hx
  cases hd : i.dest with
  | none =>
    simp only [Instr.step, hd]
    refine (h x hx).imp_right fun ho => ?_
    simpa [hd] using (overwritten_cons.1 ho).2
  | some y =>
    simp only [Instr.step, hd, ha]
    by_cases hxy : x = y
    · subst hxy
      exact .inl (by simp)
    · simp only [Function.update_of_ne hxy]
      refine (h x hx).imp_right fun ho => ?_
      simpa [hd, Ne.symm hxy] using (overwritten_cons.1 ho).2

lemma skip (h : Agree R (i :: is) ρ σ) {y : Text} (hd : i.dest = some y)
    (ho : R y → overwritten y is = true) (m : Meaning V) : Agree R is (i.step m ρ) σ := by
  intro x hx
  by_cases hxy : x = y
  · subst hxy
    exact .inr (ho hx)
  · simp only [Instr.step, hd, Function.update_of_ne hxy]
    refine (h x hx).imp_right fun ho => ?_
    simpa [hd, Ne.symm hxy] using (overwritten_cons.1 ho).2

end Agree

lemma Prunes.observations_eq {R : Text → Prop} {is js : List Instr} (h : Prunes R is js)
    (hr : ∀ i ∈ is, ∀ x ∈ i.args, R x) (m : Meaning V) {ρ σ : Text → V} (ha : Agree R is ρ σ) :
    observations m ρ is = observations m σ js ∧
      Agree R [] (valuesAfter m ρ is) (valuesAfter m σ js) := by
  -- `Agree` speaks about the instructions still to come, so it survives a definition that only one side runs.
  induction h generalizing ρ σ with
  | nil => exact ⟨rfl, ha⟩
  | keep i _ ih =>
    have hi := hr i List.mem_cons_self
    obtain ⟨ho, hv⟩ := ih (fun j hj => hr j (List.mem_cons_of_mem i hj)) (ha.step hi m)
    refine ⟨?_, hv⟩
    simp only [observations, ho, Instr.observation?, ha.args hi]
  | @drop _ _ i x hd ho _ ih =>
    obtain ⟨ho, hv⟩ := ih (fun j hj => hr j (List.mem_cons_of_mem i hj)) (ha.skip hd ho m)
    refine ⟨?_, hv⟩
    simpa only [observations, Instr.observation?, hd, Option.toList_none, List.nil_append] using ho

lemma Prunes.run_eq {is js : List Instr} (h : Prunes (fun _ => True) is js) (m : Meaning V) (ρ : Text → V) :
    valuesAfter m ρ js = valuesAfter m ρ is ∧ observations m ρ js = observations m ρ is := by
  have hstart : Agree (fun _ => True) is ρ ρ := fun _ _ => .inl rfl
  obtain ⟨ho, hv⟩ := h.observations_eq (fun _ _ _ _ => trivial) m hstart
  refine ⟨funext fun x => ?_, ho.symm⟩
  -- Behind the last instruction nothing is overwritten any more, so that agreement is equality.
  rcases hv x trivial with hx | hx
  · exact hx.symm
  · cases hx

lemma Block.Prunes.getElem? {R : Text → Prop} {bs cs : List Block}
    (h : List.Forall₂ (Block.Prunes R) bs cs) (k : Nat) :
    BlockIR.Prunes R ((bs[k]?.map Block.instrs).getD []) ((cs[k]?.map Block.instrs).getD []) := by
  induction h generalizing k with
  | nil => exact .nil
  | cons hb _ ih =>
    cases k with
    | zero => exact hb.2
    | succ k => exact ih k

namespace Func

lemma along_subset (f : Func) (k : Nat) : ((f.blocks[k]?.map Block.instrs).getD []) ⊆ f.instrs := by
  intro i hi
  cases hb : f.blocks[k]? with
  | none => simp [hb] at hi
  | some b =>
    rw [hb] at hi
    exact List.mem_flatMap.2 ⟨b, List.mem_of_getElem? hb, hi⟩

lemma PrunesTo.observations_eq {f g : Func} (h : f.PrunesTo g) (m : Meaning V) (path : List Nat)
    {ρ σ : Text → V} (ha : Agree (· ∈ f.reads) [] ρ σ) :
    observations m ρ (f.along path) = observations m σ (g.along path) := by
  obtain ⟨cs, rfl, h⟩ := h
  induction path generalizing ρ σ with
  | nil => rfl
  | cons k path ih =>
    have hk := Block.Prunes.getElem? h k
    have hr : ∀ i ∈ ((f.blocks[k]?.map Block.instrs).getD []), ∀ x ∈ i.args, x ∈ f.reads :=
      fun i hi x hx => mem_reads.2 ⟨i, f.along_subset k hi, hx⟩
    obtain ⟨ho, hv⟩ := hk.observations_eq hr m (ha.of_eq _)
    have hp := ih hv
    simp only [along, List.flatMap_cons, observations_append] at hp ⊢
    rw [ho, hp]

lemma Prunings.observations_eq {f g : Func} (h : Prunings f g) (m : Meaning V) (path : List Nat)
    (ρ : Text → V) : observations m ρ (f.along path) = observations m ρ (g.along path) := by
  induction h with
  | refl => rfl
  | tail _ hp ih => exact ih.trans (hp.observations_eq m path fun x _ => .inl rfl)

end Func

/-- Whatever the definitions mean and wherever the variables start, a block without its dead stores ends with
the same value in every variable, and its instructions that define nothing see the same values in the same
order. -/
theorem Block.run_dropDeadStores (b : Block) (m : Meaning V) (ρ : Text → V) :
    valuesAfter m ρ b.dropDeadStores.instrs = valuesAfter m ρ b.instrs ∧
      observations m ρ b.dropDeadStores.instrs = observations m ρ b.instrs := by
  have hall : Relation.ReflTransGen (BlockIR.Prunes fun _ => True) b.instrs b.dropDeadStores.instrs :=
    dropDeadStores_prunes _ b.instrs
  generalize b.dropDeadStores.instrs = js at hall ⊢
  induction hall with
  | refl => exact ⟨rfl, rfl⟩
  | tail _ hp ih =>
    obtain ⟨hv, ho⟩ := hp.run_eq m ρ
    exact ⟨hv.trans ih.1, ho.trans ih.2⟩

/-- Whatever the definitions mean, wherever the variables start and whichever blocks are run through, a
pipeline leaves every observation as it was. -/
theorem Pipeline.observations_run (ps : Pipeline) (f : Func) (m : Meaning V) (ρ : Text → V)
    (path : List Nat) :
    observations m ρ ((ps.run f).along path) = observations m ρ (f.along path) :=
  ((ps.run_prunings f).observations_eq m path ρ).symm

end BlockIR
