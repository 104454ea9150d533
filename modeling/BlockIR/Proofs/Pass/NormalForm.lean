import BlockIR.Proofs.Pass.Pruning

/-! Trimming: deleting one definition that is read nowhere, or that is overwritten before it is read. In
whatever order a function is trimmed, what remains in the end is the same, and every pipeline with a pass
for dead variables and one for dead stores finds it. -/

namespace BlockIR

def Superseded (x : Text) (is : List Instr) : Prop :=
  ∃ js j ks, is = js ++ j :: ks ∧ j.dest = some x ∧ ∀ i ∈ js ++ [j], x ∉ i.args

lemma overwritten_iff {x : Text} {is : List Instr} : overwritten x is = true ↔ Superseded x is := by
  induction is with
  | nil =>
    constructor
    · intro h
      cases h
    · rintro ⟨js, j, ks, h, _⟩
      simp at h
  | cons i is ih =>
    rw [overwritten_cons, ih]
    constructor
    · rintro ⟨ha, hd | ⟨js, j, ks, rfl, hd, hjs⟩⟩
      · exact ⟨[], i, is, rfl, hd, by simpa using ha⟩
      · exact ⟨i :: js, j, ks, rfl, hd, List.forall_mem_cons.2 ⟨ha, hjs⟩⟩
    · rintro ⟨js, j, ks, h, hd, hjs⟩
      cases js with
      | nil =>
        cases h
        exact ⟨hjs _ (by simp), .inl hd⟩
      | cons i' js =>
        cases h
        obtain ⟨ha, hjs⟩ := List.forall_mem_cons.1 hjs
        exact ⟨ha, .inr ⟨js, j, ks, rfl, hd, hjs⟩⟩

namespace Func

def Trims (f g : Func) : Prop :=
  ∃ as name is i js bs x, f.blocks = as ++ Block.mk name (is ++ i :: js) :: bs ∧
    g = { f with blocks := as ++ Block.mk name (is ++ js) :: bs } ∧
    i.dest = some x ∧ (x ∉ f.reads ∨ Superseded x js)

def Normal (f : Func) : Prop :=
  ∀ g, ¬ f.Trims g

lemma Trims.prunesTo {f g : Func} (h : f.Trims g) : f.PrunesTo g := by
  obtain ⟨as, name, is, i, js, bs, x, hb, rfl, hd, hx⟩ := h
  have hi : Prunes (· ∈ f.reads) (i :: js) js :=
    .drop hd (fun hr => overwritten_iff.2 (hx.resolve_left (not_not_intro hr))) (.refl _ js)
  refine ⟨_, rfl, ?_⟩
  rw [hb]
  exact List.rel_append (Block.Prunes.blocks_refl _ as)
    (.cons ⟨rfl, hi.append_left is⟩ (Block.Prunes.blocks_refl _ bs))

lemma reads_subset_of_trims {f g : Func} (h : Relation.ReflTransGen Trims f g) : g.reads ⊆ f.reads := by
  induction h with
  | refl => exact List.Subset.refl _
  | tail _ ht ih => exact List.Subset.trans ht.prunesTo.reads_subset ih

lemma trims_of_prunes {R : Text → Prop} {js ks : List Instr} (h : Prunes R js ks) (f : Func)
    (as bs : List Block) (name : Text) (is : List Instr)
    (hf : f.blocks = as ++ Block.mk name (is ++ js) :: bs) (hr : ∀ x ∈ f.reads, R x) :
    Relation.ReflTransGen Trims f { f with blocks := as ++ Block.mk name (is ++ ks) :: bs } := by
  -- From the front: what overwrites a definition is then still there when that definition is deleted.
  induction h generalizing f is with
  | nil =>
    rw [← hf]
  | keep i _ ih =>
    have hi := ih f (is ++ [i]) (by simpa using hf) hr
    simpa using hi
  | @drop js ks i x hd ho _ ih =>
    have ht : f.Trims { f with blocks := as ++ Block.mk name (is ++ js) :: bs } := by
      refine ⟨as, name, is, i, js, bs, x, hf, rfl, hd, ?_⟩
      by_cases hx : x ∈ f.reads
      · exact .inr (overwritten_iff.1 (ho (hr x hx)))
      · exact .inl hx
    have hsub := ht.prunesTo.reads_subset
    exact .head ht (ih _ is rfl fun x hx => hr x (hsub hx))

lemma trims_of_blocks_prune {R : Text → Prop} {bs cs : List Block}
    (h : List.Forall₂ (Block.Prunes R) bs cs) (f : Func) (as : List Block)
    (hf : f.blocks = as ++ bs) (hr : ∀ x ∈ f.reads, R x) :
    Relation.ReflTransGen Trims f { f with blocks := as ++ cs } := by
  induction h generalizing f as with
  | nil =>
    rw [← hf]
  | @cons b c bs cs hb _ ih =>
    obtain ⟨name, is⟩ := b
    obtain ⟨_, js⟩ := c
    obtain ⟨rfl, hb⟩ := hb
    have ht := trims_of_prunes hb f as bs name [] hf hr
    have hsub := reads_subset_of_trims ht
    have hrest := ih _ (as ++ [⟨name, js⟩]) (by simp) fun x hx => hr x (hsub hx)
    simp only [List.append_assoc, List.singleton_append] at hrest
    exact ht.trans hrest

lemma trims_iff_prunings {f g : Func} : Relation.ReflTransGen Trims f g ↔ Prunings f g := by
  constructor
  · intro h
    exact h.lift id fun _ _ => Trims.prunesTo
  · intro h
    induction h with
    | refl => exact .refl
    | tail _ hp ih =>
      obtain ⟨cs, rfl, hp⟩ := hp
      exact ih.trans (trims_of_blocks_prune hp _ [] rfl fun _ hx => hx)

lemma Normal.eq_of_prunings {f g : Func} (hf : f.Normal) (h : Prunings f g) : g = f := by
  rcases (trims_iff_prunings.2 h).cases_head with rfl | ⟨k, ht, _⟩
  · rfl
  · exact (hf k ht).elim

lemma Normal.unique {f g h : Func} (hg : Prunings f g) (hng : g.Normal) (hh : Prunings f h)
    (hnh : h.Normal) : g = h :=
  eq_of_diamond (fun _ _ _ => PrunesTo.diamond) hg hh (fun _ => hng.eq_of_prunings)
    (fun _ => hnh.eq_of_prunings)

end Func

lemma not_superseded_of_dropOverwritten_eq {is js : List Instr} {i : Instr} {x : Text}
    (h : dropOverwritten (is ++ i :: js) = is ++ i :: js) (hd : i.dest = some x) : ¬ Superseded x js := by
  rw [← overwritten_iff]
  induction is with
  | nil =>
    intro ho
    have hs := (dropOverwritten_sublist js).length_le
    have hl := congrArg List.length h
    simp [dropOverwritten_cons, hd, ho] at hl
    omega
  | cons k is ih =>
    rw [List.cons_append, dropOverwritten_cons] at h
    split at h
    · have hs := (dropOverwritten_sublist (is ++ i :: js)).length_le
      rw [h, List.length_cons] at hs
      omega
    · exact ih (List.cons.inj h).2

namespace Func

lemma mem_reads_of_dropDeadVariables_eq {f : Func} (h : f.dropDeadVariables = f) {i : Instr}
    (hi : i ∈ f.instrs) {x : Text} (hd : i.dest = some x) : x ∈ f.reads := by
  have hu := f.settles_dropDeadVariables.fixed
  rw [h] at hu
  have hn := dropUnread_eq_self_iff.1 hu i hi
  simpa [Instr.neededBy, hd] using hn

lemma dropOverwritten_of_dropDeadStores_eq {f : Func} (h : f.dropDeadStores = f) {b : Block}
    (hb : b ∈ f.blocks) : dropOverwritten b.instrs = b.instrs := by
  have hbs : f.blocks.map Block.dropDeadStores = f.blocks := congrArg blocks h
  have hi : BlockIR.dropDeadStores b.instrs = b.instrs :=
    congrArg Block.instrs (List.map_inj_left.1 (hbs.trans (List.map_id _).symm) b hb)
  have ho := (settles_dropDeadStores b.instrs).fixed
  rwa [hi] at ho

lemma normal_of_fixed {f : Func} (hv : f.dropDeadVariables = f) (hs : f.dropDeadStores = f) : f.Normal := by
  rintro g ⟨as, name, is, i, js, bs, x, hb, _, hd, hx | hx⟩
  · exact hx (mem_reads_of_dropDeadVariables_eq hv (by simp [instrs, hb]) hd)
  · have hm : Block.mk name (is ++ i :: js) ∈ f.blocks := by simp [hb]
    exact not_superseded_of_dropOverwritten_eq (dropOverwritten_of_dropDeadStores_eq hs hm) hd hx

end Func

namespace Pipeline

def Complete (ps : Pipeline) : Prop :=
  (.deadVariables ∈ ps ∨ .deadVariablesByCount ∈ ps) ∧ .deadStores ∈ ps

instance (ps : Pipeline) : Decidable ps.Complete :=
  inferInstanceAs (Decidable ((_ ∨ _) ∧ _))

lemma apply_eq_of_round {ps : Pipeline} {f : Func} (h : (round ps f).2 = false) :
    (round ps f).1 = f ∧ ∀ p ∈ ps, p.apply f = f := by
  induction ps with
  | nil => exact ⟨rfl, fun p hp => nomatch hp⟩
  | cons p ps ih =>
    simp only [round, Bool.or_eq_false_iff, decide_eq_false_iff_not, not_not] at h ⊢
    obtain ⟨hp, hps⟩ := h
    rw [hp] at hps ⊢
    obtain ⟨hf, hall⟩ := ih hps
    exact ⟨hf, List.forall_mem_cons.2 ⟨hp, hall⟩⟩

lemma apply_run (ps : Pipeline) (f : Func) : ∀ p ∈ ps, p.apply (ps.run f) = ps.run f := by
  fun_induction run ps f with
  | case1 f g h =>
    obtain ⟨hf, hp⟩ := apply_eq_of_round (congrArg Prod.snd h)
    obtain rfl : g = f := by rwa [h] at hf
    exact hp
  | case2 f g h ih => exact ih

lemma Complete.run_normal {ps : Pipeline} (h : ps.Complete) (f : Func) : (ps.run f).Normal := by
  obtain ⟨hv, hs⟩ := h
  refine Func.normal_of_fixed ?_ (ps.apply_run f _ hs)
  rcases hv with hv | hv
  · exact ps.apply_run f _ hv
  · exact (Func.dropDeadVariablesByCount_eq _).symm.trans (ps.apply_run f _ hv)

/-- Any two complete pipelines agree, and what they find is the one function that trimming can end in. -/
theorem run_eq_run_normal_iff (ps qs : Pipeline) (hp : ps.Complete) (hq : qs.Complete) (f : Func) :
    ps.run f = qs.run f ∧
      ∀ g, Relation.ReflTransGen Func.Trims f g ∧ g.Normal ↔ g = standard.run f := by
  have hs : standard.Complete := by decide
  refine ⟨Func.Normal.unique (ps.run_prunings f) (hp.run_normal f) (qs.run_prunings f) (hq.run_normal f), ?_⟩
  intro g
  rw [Func.trims_iff_prunings]
  constructor
  · rintro ⟨hg, hn⟩
    exact Func.Normal.unique hg hn (standard.run_prunings f) (hs.run_normal f)
  · rintro rfl
    exact ⟨standard.run_prunings f, hs.run_normal f⟩

theorem run_eq_run_stores_first :
    let ps : Pipeline := [.deadStores, .deadVariablesByCount]
    let f : Func :=
      { name := "main"
        blocks := [⟨"entry", [{ op := .const, dest := some "a", type := some .int, value := some (.int 1) },
          { op := .id, dest := some "b", type := some .int, args := ["a"] },
          { op := .const, dest := some "b", type := some .int, value := some (.int 2) },
          { op := .print, args := ["b"] }]⟩] }
    ps.Complete ∧ standard.Complete ∧ ps.run f = standard.run f := by
  intro ps f
  have hp : ps.Complete := by decide
  have hs : standard.Complete := by decide
  exact ⟨hp, hs, (run_eq_run_normal_iff ps standard hp hs f).1⟩

end Pipeline

end BlockIR
