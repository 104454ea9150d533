import BlockIR.Proofs.Pass.Deletion

namespace BlockIR

namespace Pass

inductive Yields : Pass → Func → Func → Prop
  | deadVariables {f g : Func} : Settles (scanned Func.dropUnread) f g → Yields .deadVariables f g
  | deadVariablesByCount {f : Func} {queue : List Text} {s : Sweep} : queue.Perm f.unread →
      Sweep.Reaches f.defined (f.sweepFrom queue) s → s.next? f.defined = none →
      Yields .deadVariablesByCount f { f with blocks := unmarkedBlocks f.blocks (s.cells.map Cell.dead) }
  | deadStores {f : Func} {bs : List Block} :
      List.Forall₂ (fun b c => c.name = b.name ∧ Settles (scanned dropOverwritten) b.instrs c.instrs)
        f.blocks bs → Yields .deadStores f { f with blocks := bs }

lemma yields_apply (p : Pass) (f : Func) : p.Yields f (p.apply f) := by
  cases p with
  | deadVariables => exact .deadVariables f.settles_dropDeadVariables
  | deadVariablesByCount =>
    obtain ⟨hr, hn⟩ := Sweep.reaches_finish f.defined (f.sweepFrom f.unread)
    exact .deadVariablesByCount (.refl _) hr hn
  | deadStores =>
    refine .deadStores (List.forall₂_map_right_iff.2 (List.forall₂_same.2 fun b _ => ?_))
    exact ⟨rfl, settles_dropDeadStores b.instrs⟩

lemma Yields.eq_apply {p : Pass} {f g : Func} (h : p.Yields f g) : g = p.apply f := by
  cases h with
  | deadVariables h => exact h.unique f.settles_dropDeadVariables
  | deadVariablesByCount hq hr hn =>
    rw [Func.eq_supportedPart_of_reaches (fun _ => hq.mem_iff) hr hn]
    exact (Func.dropDeadVariablesFrom_eq_supportedPart fun _ => Iff.rfl).symm
  | @deadStores _ bs h =>
    have hblocks : List.Forall₂ (fun b c => Block.dropDeadStores b = c) f.blocks bs := by
      refine h.imp fun b c hc => ?_
      exact congrArg₂ Block.mk hc.1.symm ((settles_dropDeadStores b.instrs).unique hc.2)
    rw [← List.forall₂_map_left_iff (R := Eq), List.forall₂_eq_eq_eq] at hblocks
    rw [← hblocks]
    rfl

lemma yields_iff {p : Pass} {f g : Func} : p.Yields f g ↔ g = p.apply f :=
  ⟨Yields.eq_apply, fun h => h ▸ p.yields_apply f⟩

lemma changes_iff {p : Pass} {f : Func} : p.changes f = true ↔ (p.apply f).size < f.size := by
  refine ⟨size_lt_of_changes, fun h => decide_eq_true fun he => ?_⟩
  rw [he] at h
  exact Nat.lt_irrefl _ h

end Pass

structure Func.Clean (f : Func) : Prop where
  read : ∀ i ∈ f.instrs, ∀ x, i.dest = some x → ∃ j ∈ f.instrs, x ∈ j.args
  stores : ∀ b ∈ f.blocks, ∀ k, ¬ DeadStoreAt b.instrs k

lemma Func.clean_of_fixed {f : Func} (hv : f.dropDeadVariables = f) (hs : f.dropDeadStores = f) : f.Clean where
  read _ hi _ hd := mem_reads.1 (mem_reads_of_dropDeadVariables_eq hv hi hd)
  stores _ hb := not_deadStoreAt_of_dropOverwritten_eq (dropOverwritten_of_dropDeadStores_eq hs hb)

namespace Pipeline

lemma settles_run (ps : Pipeline) (f : Func) : Settles ps.round f (ps.run f) := by
  fun_induction run ps f with
  | case1 f g h => exact .stop h
  | case2 f g h ih => exact .again h ih

lemma round_of_fixed {ps : Pipeline} {f : Func} (h : ∀ p ∈ ps, p.apply f = f) : ps.round f = (f, false) := by
  induction ps with
  | nil => rfl
  | cons p ps ih =>
    obtain ⟨hp, hps⟩ := List.forall_mem_cons.1 h
    simp [round, hp, ih hps]

lemma run_run (ps : Pipeline) (f : Func) : ps.run (ps.run f) = ps.run f :=
  (ps.settles_run _).unique (.stop (round_of_fixed (ps.apply_run f)))

/-- A pipeline ends. None of its passes changes the result, so neither does the pipeline; the loops inside each
pass end as well, and it reports a change where it makes the function smaller. An optimized program is clean. -/
theorem run_settles_clean (ps : Pipeline) (f : Func) :
    Settles ps.round f (ps.run f) ∧
      (∀ p ∈ ps, p.changes (ps.run f) = false ∧ p.apply (ps.run f) = ps.run f) ∧
      ps.run (ps.run f) = ps.run f ∧
      (∀ (p : Pass) (g : Func), (∀ h, p.Yields g h ↔ h = p.apply g) ∧
        (p.changes g = true ↔ (p.apply g).size < g.size)) ∧
      ∀ (q : Program), ∀ g ∈ q.optimize.funcs, g.Clean := by
  refine ⟨ps.settles_run f, fun p hp => ?_, ps.run_run f,
    fun p g => ⟨fun h => Pass.yields_iff, Pass.changes_iff⟩, ?_⟩
  · have hfix := ps.apply_run f p hp
    exact ⟨by simp [Pass.changes, hfix], hfix⟩
  · intro q g hg
    obtain ⟨f, _, rfl⟩ := List.mem_map.1 hg
    exact Func.clean_of_fixed (apply_run _ f .deadVariables (by decide)) (apply_run _ f .deadStores (by decide))

theorem run_settles_clean_two_rounds :
    let const (x : Text) (n : Int64) : Instr :=
      { op := .const, dest := some x, type := some .int, value := some (.int n) }
    let f : Func :=
      { name := "main"
        blocks := [⟨"entry", [const "a" 1, { op := .id, dest := some "b", type := some .int, args := ["a"] },
          const "b" 2, { op := .print, args := ["b"] }]⟩] }
    (standard.round (standard.round f).1).2 = true ∧ Pass.deadVariables ∈ standard ∧
      Pass.deadVariables.changes (standard.run f) = false ∧ standard.run f ∈ (Program.optimize ⟨[f]⟩).funcs ∧
      (standard.run f).Clean := by
  intro const f
  have hround : (standard.round (standard.round f).1).2 = true := by decide +kernel
  have hvariables : Pass.deadVariables ∈ standard := by decide
  have hfuncs : standard.run f ∈ (Program.optimize ⟨[f]⟩).funcs := List.mem_singleton_self _
  obtain ⟨_, hfixed, _, _, hclean⟩ := run_settles_clean standard f
  exact ⟨hround, hvariables, (hfixed _ hvariables).1, hfuncs, hclean _ _ hfuncs⟩

end Pipeline

end BlockIR
