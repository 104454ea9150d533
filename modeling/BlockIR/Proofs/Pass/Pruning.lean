import BlockIR.Pass.Pipeline
import BlockIR.Proofs.Pass.Counting
import BlockIR.Proofs.Pass.Loop
import BlockIR.Proofs.Pass.Overwriting
import Mathlib.Data.List.Forall2

/-! Pruning: leaving out some definitions of variables that are read nowhere, or that are overwritten
before they are read, all at once. Every pass is a row of prunings, and two prunings of a function can be
completed to the same function. -/

namespace BlockIR

/-- Leaving out definitions that are not read, as far as `Read` tells, or that what follows overwrites. -/
inductive Prunes (Read : Text → Prop) : List Instr → List Instr → Prop
  | nil : Prunes Read [] []
  | keep {is js : List Instr} (i : Instr) : Prunes Read is js → Prunes Read (i :: is) (i :: js)
  | drop {is js : List Instr} {i : Instr} {x : Text} : i.dest = some x →
      (Read x → overwritten x is = true) → Prunes Read is js → Prunes Read (i :: is) js

namespace Prunes

variable {R S : Text → Prop} {is js ks : List Instr}

lemma refl (R : Text → Prop) (is : List Instr) : Prunes R is is := by
  induction is with
  | nil => exact .nil
  | cons i is ih => exact .keep i ih

lemma mono (h : Prunes R is js) (hs : ∀ x, S x → R x) : Prunes S is js := by
  induction h with
  | nil => exact .nil
  | keep i _ ih => exact .keep i ih
  | drop hd ho _ ih => exact .drop hd (fun hx => ho (hs _ hx)) ih

lemma append_left (is : List Instr) (h : Prunes R js ks) : Prunes R (is ++ js) (is ++ ks) := by
  induction is with
  | nil => exact h
  | cons i is ih => exact .keep i ih

lemma sublist (h : Prunes R is js) : js.Sublist is := by
  induction h with
  | nil => exact .slnil
  | keep i _ ih => exact ih.cons_cons i
  | drop _ _ _ ih => exact ih.cons _

lemma overwritten {x : Text} (h : Prunes R is js) (hr : R x) (hx : overwritten x is = true) :
    BlockIR.overwritten x js = true := by
  induction h with
  | nil => exact hx
  | keep i _ ih =>
    obtain ⟨ha, hd⟩ := overwritten_cons.1 hx
    exact overwritten_cons.2 ⟨ha, hd.imp_right ih⟩
  | drop hd ho _ ih =>
    obtain ⟨_, hx | hx⟩ := overwritten_cons.1 hx
    · -- The overwriting definition itself is left out, so it is overwritten in its turn.
      rw [hd, Option.some.injEq] at hx
      subst hx
      exact ih (ho hr)
    · exact ih hx

lemma diamond (h : Prunes R is js) (h' : Prunes R is ks) : ∃ ls, Prunes R js ls ∧ Prunes R ks ls := by
  induction h generalizing ks with
  | nil => exact ⟨ks, h', refl R ks⟩
  | keep i hj ih =>
    cases h' with
    | keep _ hk =>
      obtain ⟨ls, hjl, hkl⟩ := ih hk
      exact ⟨i :: ls, .keep i hjl, .keep i hkl⟩
    | drop hd ho hk =>
      obtain ⟨ls, hjl, hkl⟩ := ih hk
      exact ⟨ls, .drop hd (fun hx => hj.overwritten hx (ho hx)) hjl, hkl⟩
  | drop hd ho hj ih =>
    cases h' with
    | keep _ hk =>
      obtain ⟨ls, hjl, hkl⟩ := ih hk
      exact ⟨ls, hjl, .drop hd (fun hx => hk.overwritten hx (ho hx)) hkl⟩
    | drop _ _ hk => exact ih hk

end Prunes

lemma eq_of_diamond {α : Type*} {r : α → α → Prop} (hd : ∀ a b c, r a b → r a c → ∃ d, r b d ∧ r c d)
    {a b c : α} (hb : Relation.ReflTransGen r a b) (hc : Relation.ReflTransGen r a c)
    (hbe : ∀ d, Relation.ReflTransGen r b d → d = b) (hce : ∀ d, Relation.ReflTransGen r c d → d = c) :
    b = c := by
  have hstrip : ∀ a b c, r a b → r a c → ∃ d, Relation.ReflGen r b d ∧ Relation.ReflTransGen r c d := by
    intro a b c hb hc
    obtain ⟨d, hbd, hcd⟩ := hd a b c hb hc
    exact ⟨d, .single hbd, .single hcd⟩
  obtain ⟨d, hbd, hcd⟩ := Relation.church_rosser hstrip hb hc
  rw [← hbe d hbd, hce d hcd]

lemma filter_prunes (xs : List Text) (is : List Instr) :
    Prunes (· ∈ xs) is (is.filter (Instr.neededBy xs)) := by
  induction is with
  | nil => exact .nil
  | cons i is ih =>
    by_cases hi : i.neededBy xs = true
    · rw [List.filter_cons_of_pos hi]
      exact .keep i ih
    · rw [List.filter_cons_of_neg hi]
      cases hd : i.dest with
      | none => simp [Instr.neededBy, hd] at hi
      | some x => exact .drop hd (fun hx => by simp [Instr.neededBy, hd, hx] at hi) ih

lemma dropOverwritten_prunes (R : Text → Prop) (is : List Instr) : Prunes R is (dropOverwritten is) := by
  induction is with
  | nil => exact .nil
  | cons i is ih =>
    rw [dropOverwritten_cons]
    split
    · rename_i h
      obtain ⟨x, hd, ho⟩ := (Option.any_eq_true _ _).1 h
      exact .drop hd (fun _ => ho) ih
    · exact .keep i ih

lemma dropDeadStores_prunes (R : Text → Prop) (is : List Instr) :
    Relation.ReflTransGen (Prunes R) is (dropDeadStores is) :=
  (settles_dropDeadStores is).reaches (dropOverwritten_prunes R)

def Block.Prunes (R : Text → Prop) (b c : Block) : Prop :=
  b.name = c.name ∧ BlockIR.Prunes R b.instrs c.instrs

namespace Block.Prunes

variable {R S : Text → Prop}

lemma refl (R : Text → Prop) (b : Block) : b.Prunes R b :=
  ⟨rfl, .refl R b.instrs⟩

lemma mono {b c : Block} (h : b.Prunes R c) (hs : ∀ x, S x → R x) : b.Prunes S c :=
  ⟨h.1, h.2.mono hs⟩

lemma blocks_diamond {bs cs ds : List Block} (h : List.Forall₂ (Block.Prunes R) bs cs)
    (h' : List.Forall₂ (Block.Prunes R) bs ds) :
    ∃ es, List.Forall₂ (Block.Prunes R) cs es ∧ List.Forall₂ (Block.Prunes R) ds es := by
  induction h generalizing ds with
  | nil =>
    cases h'
    exact ⟨[], .nil, .nil⟩
  | cons hb _ ih =>
    cases h' with
    | cons hb' hbs' =>
      obtain ⟨es, hc, hd⟩ := ih hbs'
      obtain ⟨is, hi, hi'⟩ := hb.2.diamond hb'.2
      exact ⟨⟨_, is⟩ :: es, .cons ⟨rfl, hi⟩ hc, .cons ⟨hb'.1.symm.trans hb.1, hi'⟩ hd⟩

lemma blocks_refl (R : Text → Prop) (bs : List Block) : List.Forall₂ (Block.Prunes R) bs bs :=
  List.forall₂_same.2 fun b _ => refl R b

lemma instrs_subset {bs cs : List Block} (h : List.Forall₂ (Block.Prunes R) bs cs) :
    cs.flatMap Block.instrs ⊆ bs.flatMap Block.instrs := by
  induction h with
  | nil => exact List.Subset.refl _
  | cons hb _ ih =>
    simp only [List.flatMap_cons]
    exact List.append_subset.2 ⟨List.subset_append_of_subset_left _ hb.2.sublist.subset,
      List.subset_append_of_subset_right _ ih⟩

end Block.Prunes

namespace Func

def PrunesTo (f g : Func) : Prop :=
  ∃ cs, g = { f with blocks := cs } ∧ List.Forall₂ (Block.Prunes (· ∈ f.reads)) f.blocks cs

namespace PrunesTo

lemma reads_subset {f g : Func} (h : f.PrunesTo g) : g.reads ⊆ f.reads := by
  obtain ⟨cs, rfl, h⟩ := h
  intro x hx
  obtain ⟨i, hi, ha⟩ := mem_reads.1 hx
  exact mem_reads.2 ⟨i, Block.Prunes.instrs_subset h hi, ha⟩

lemma diamond {f g h : Func} (hg : f.PrunesTo g) (hh : f.PrunesTo h) :
    ∃ k, g.PrunesTo k ∧ h.PrunesTo k := by
  have hsg := hg.reads_subset
  have hsh := hh.reads_subset
  obtain ⟨cs, rfl, hcs⟩ := hg
  obtain ⟨ds, rfl, hds⟩ := hh
  obtain ⟨es, hce, hde⟩ := Block.Prunes.blocks_diamond hcs hds
  exact ⟨{ f with blocks := es }, ⟨es, rfl, hce.imp fun _ _ hb => hb.mono hsg⟩,
    ⟨es, rfl, hde.imp fun _ _ hb => hb.mono hsh⟩⟩

end PrunesTo

abbrev Prunings : Func → Func → Prop :=
  Relation.ReflTransGen PrunesTo

lemma dropUnread_prunesTo (f : Func) : f.PrunesTo f.dropUnread := by
  refine ⟨_, rfl, ?_⟩
  rw [List.forall₂_map_right_iff]
  exact List.forall₂_same.2 fun b _ => ⟨rfl, filter_prunes f.reads b.instrs⟩

lemma dropDeadVariables_prunings (f : Func) : Prunings f f.dropDeadVariables :=
  f.settles_dropDeadVariables.reaches dropUnread_prunesTo

lemma replaceBlock_prunings (f : Func) (as bs : List Block) (name : Text) {is js : List Instr}
    (h : Relation.ReflTransGen (Prunes fun _ => True) is js) :
    Prunings { f with blocks := as ++ Block.mk name is :: bs }
      { f with blocks := as ++ Block.mk name js :: bs } := by
  refine h.lift (fun is => { f with blocks := as ++ Block.mk name is :: bs }) fun is js hp => ?_
  have hb : (Block.mk name is).Prunes (fun _ => True) ⟨name, js⟩ := ⟨rfl, hp⟩
  exact ⟨_, rfl, List.rel_append (Block.Prunes.blocks_refl _ as)
    (.cons (hb.mono fun _ _ => trivial) (Block.Prunes.blocks_refl _ bs))⟩

lemma dropDeadStores_prunings (f : Func) : Prunings f f.dropDeadStores := by
  have h (as bs : List Block) : Prunings { f with blocks := as ++ bs }
      { f with blocks := as ++ bs.map Block.dropDeadStores } := by
    induction bs generalizing as with
    | nil => exact .refl
    | cons b bs ih =>
      have hb := replaceBlock_prunings f as bs b.name (dropDeadStores_prunes _ b.instrs)
      have hbs := ih (as ++ [b.dropDeadStores])
      simp only [List.append_assoc, List.singleton_append] at hbs
      exact hb.trans hbs
  exact h [] f.blocks

end Func

lemma Pass.apply_prunings (p : Pass) (f : Func) : Func.Prunings f (p.apply f) := by
  cases p with
  | deadVariables => exact f.dropDeadVariables_prunings
  | deadVariablesByCount =>
    rw [apply, f.dropDeadVariablesByCount_eq]
    exact f.dropDeadVariables_prunings
  | deadStores => exact f.dropDeadStores_prunings

namespace Pipeline

lemma round_prunings (ps : Pipeline) (f : Func) : Func.Prunings f (round ps f).1 := by
  induction ps generalizing f with
  | nil => exact .refl
  | cons p ps ih => exact (p.apply_prunings f).trans (ih (p.apply f))

lemma run_prunings (ps : Pipeline) (f : Func) : Func.Prunings f (ps.run f) := by
  fun_induction run ps f with
  | case1 f g h =>
    have hr := round_prunings ps f
    rwa [h] at hr
  | case2 f g h ih =>
    have hr := round_prunings ps f
    rw [h] at hr
    exact hr.trans ih

end Pipeline

end BlockIR
