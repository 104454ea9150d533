import BlockIR.Pass.Worklist
import BlockIR.Proofs.Pass.Support
import Mathlib.Logic.Relation

/-! Dropping dead variables by counting. Along a sweep the tally holds the reads of the unmarked cells,
the queue holds the defined variables that nobody reads any more, and only definitions of variables that
are not needed are marked. When the queue is empty, all of those are marked. -/

namespace BlockIR

namespace Cell

def retired (x : Text) (c : Cell) : Cell :=
  if c.defines x then { c with dead := true } else c

@[simp] lemma retired_instr (x : Text) (c : Cell) : (c.retired x).instr = c.instr := by
  unfold retired
  split <;> rfl

lemma defines_iff {x : Text} {c : Cell} : c.defines x = true ↔ c.instr.dest = some x ∧ c.dead = false := by
  simp [defines]

lemma retired_dead {x : Text} {c : Cell} :
    (c.retired x).dead = true ↔ c.dead = true ∨ c.instr.dest = some x := by
  unfold retired
  split
  · rename_i h
    simp [(defines_iff.1 h).1]
  · rename_i h
    cases hd : c.dead <;> simp_all [defines_iff]

end Cell

def liveReads (cs : List Cell) : List Text :=
  cs.flatMap fun c => if c.dead then [] else c.instr.args

lemma mem_liveReads {cs : List Cell} {x : Text} :
    x ∈ liveReads cs ↔ ∃ c ∈ cs, c.dead = false ∧ x ∈ c.instr.args := by
  simp only [liveReads, List.mem_flatMap]
  refine exists_congr fun c => and_congr_right fun _ => ?_
  cases c.dead <;> simp

def givenUp (x : Text) (cs : List Cell) : List Text :=
  cs.flatMap fun c => if c.defines x then c.instr.args else []

lemma count_liveReads (x y : Text) (cs : List Cell) :
    (liveReads cs).count y = (liveReads (cs.map (Cell.retired x))).count y + (givenUp x cs).count y := by
  induction cs with
  | nil => rfl
  | cons c cs ih =>
    have hc : (if c.dead then [] else c.instr.args).count y =
        (if (c.retired x).dead then [] else c.instr.args).count y +
          (if c.defines x then c.instr.args else []).count y := by
      cases hd : c.dead <;> by_cases hx : c.instr.dest = some x <;> simp [Cell.retired, Cell.defines, hd, hx]
    simp only [liveReads, givenUp, List.map_cons, List.flatMap_cons, List.count_append,
      Cell.retired_instr] at ih hc ⊢
    omega

namespace Tally

lemma count_release (defined : List Text) (t : Tally) (x y : Text) :
    (t.release defined x).count y = t.count y - if x = y then 1 else 0 := by
  by_cases h : x = y
  · subst h
    simp [release, count, Table.get?_set]
  · simp [release, count, Table.get?_set, h]

lemma count_releaseAll (defined : List Text) (t : Tally) (xs : List Text) (y : Text) :
    (t.releaseAll defined xs).count y = t.count y - (xs.count y : Int) := by
  induction xs generalizing t with
  | nil => simp [releaseAll]
  | cons x xs ih =>
    have hx := ih (t.release defined x)
    rw [count_release] at hx
    rw [releaseAll, List.foldl_cons, ← releaseAll, hx, List.count_cons]
    by_cases hxy : x = y
    · simp [hxy]
      omega
    · simp [hxy]

lemma mem_release_queue (defined : List Text) (t : Tally) (x y : Text) :
    y ∈ (t.release defined x).queue ↔ y ∈ t.queue ∨ (x = y ∧ t.count y = 1 ∧ y ∈ defined) := by
  have hn : t.count x - 1 = 0 ↔ t.count x = 1 := by omega
  simp only [release, hn]
  by_cases hxy : x = y
  · subst hxy
    split <;> simp_all
  · split <;> simp [hxy, Ne.symm hxy]

lemma mem_releaseAll_queue {defined : List Text} {t : Tally} {xs : List Text} {y : Text}
    (h : (xs.count y : Int) ≤ t.count y) :
    y ∈ (t.releaseAll defined xs).queue ↔
      y ∈ t.queue ∨ (y ∈ xs ∧ t.count y = xs.count y ∧ y ∈ defined) := by
  induction xs generalizing t with
  | nil => simp [releaseAll]
  | cons x xs ih =>
    have hr := count_release defined t x y
    have hm : 0 < xs.count y ↔ y ∈ xs := List.count_pos_iff
    rw [List.count_cons] at h ⊢
    rw [releaseAll, List.foldl_cons, ← releaseAll]
    by_cases hxy : x = y
    · subst hxy
      simp only [if_true, BEq.rfl] at h hr ⊢
      rw [ih (by omega), mem_release_queue, hr, ← hm]
      simp only [true_and, List.mem_cons, true_or]
      constructor
      · rintro ((hq | ⟨hc, hd⟩) | ⟨_, hc, hd⟩)
        · exact .inl hq
        · exact .inr ⟨by omega, hd⟩
        · exact .inr ⟨by omega, hd⟩
      · rintro (hq | ⟨hc, hd⟩)
        · exact .inl (.inl hq)
        · by_cases hpos : 0 < xs.count x
          · exact .inr ⟨hpos, by omega, hd⟩
          · exact .inl (.inr ⟨by omega, hd⟩)
    · have hne : (x == y) = false := by simpa using hxy
      simp only [hxy, hne, if_false, Bool.false_eq_true, Nat.add_zero, Int.sub_zero] at h hr ⊢
      rw [ih (by omega), mem_release_queue, hr]
      simp [hxy, Ne.symm hxy]

end Tally

lemma retire_eq (defined : List Text) (x : Text) (t : Tally) (cs : List Cell) :
    retire defined x t cs = (t.releaseAll defined (givenUp x cs), cs.map (Cell.retired x)) := by
  induction cs generalizing t with
  | nil => rfl
  | cons c cs ih =>
    rw [retire]
    by_cases hc : c.defines x
    · simp [hc, ih, givenUp, Cell.retired, Tally.releaseAll]
    · simp [hc, ih, givenUp, Cell.retired]

namespace Sweep

structure Sound (is : List Instr) (s : Sweep) : Prop where
  instrs : s.cells.map Cell.instr = is
  count : ∀ x, s.tally.count x = (liveReads s.cells).count x
  unread_of_mem : ∀ x ∈ s.tally.queue, x ∉ liveReads s.cells
  not_kept : ∀ c ∈ s.cells, c.dead = true → ¬ c.instr.Kept is
  mem_of_unread : ∀ c ∈ s.cells, c.dead = false → ∀ x, c.instr.dest = some x →
    x ∉ liveReads s.cells → x ∈ s.tally.queue

lemma Sound.mem_instrs {is : List Instr} {s : Sweep} (h : Sound is s) {c : Cell} (hc : c ∈ s.cells) :
    c.instr ∈ is :=
  h.instrs ▸ List.mem_map_of_mem hc

lemma Sound.not_needed {is : List Instr} {s : Sweep} (h : Sound is s) {x : Text}
    (hx : x ∉ liveReads s.cells) : ¬ Needed is x := by
  intro hn
  obtain ⟨i, hi, ha, hk⟩ := hn.exists_kept
  rw [← h.instrs] at hi
  obtain ⟨c, hc, rfl⟩ := List.mem_map.1 hi
  cases hd : c.dead with
  | false => exact hx (mem_liveReads.2 ⟨c, hc, hd, ha⟩)
  | true => exact h.not_kept c hc hd hk

lemma next?_eq_some {defined : List Text} {s t : Sweep} (h : s.next? defined = some t) :
    ∃ x rest, s.tally.queue = x :: rest ∧
      t = ⟨Tally.releaseAll defined ⟨s.tally.uses, rest⟩ (givenUp x s.cells),
        s.cells.map (Cell.retired x)⟩ := by
  unfold next? at h
  split at h
  · cases h
  · rename_i x rest hq
    simp only [retire_eq, Option.some.injEq] at h
    exact ⟨x, rest, hq, h.symm⟩

lemma Sound.next_spec {is : List Instr} {defined : List Text} {s t : Sweep} (h : Sound is s)
    (hs : s.next? defined = some t) :
    ∃ x rest, s.tally.queue = x :: rest ∧ t.cells = s.cells.map (Cell.retired x) ∧
      (∀ y, t.tally.count y = (liveReads t.cells).count y) ∧
      ∀ y, y ∈ t.tally.queue ↔
        y ∈ rest ∨ (y ∈ givenUp x s.cells ∧ y ∉ liveReads t.cells ∧ y ∈ defined) := by
  obtain ⟨x, rest, hq, rfl⟩ := next?_eq_some hs
  have hcount (y : Text) : (⟨s.tally.uses, rest⟩ : Tally).count y =
      (liveReads (s.cells.map (Cell.retired x))).count y + (givenUp x s.cells).count y := by
    have hc := h.count y
    rw [count_liveReads x y] at hc
    exact_mod_cast hc
  refine ⟨x, rest, hq, rfl, ?_, ?_⟩
  · intro y
    rw [Tally.count_releaseAll, hcount, Int.add_sub_cancel]
  · intro y
    have hz : (⟨s.tally.uses, rest⟩ : Tally).count y = (givenUp x s.cells).count y ↔
        y ∉ liveReads (s.cells.map (Cell.retired x)) := by
      rw [← List.count_eq_zero, hcount]
      omega
    rw [Tally.mem_releaseAll_queue (by rw [hcount]; omega), hz]

lemma Sound.next {is : List Instr} {defined : List Text} {s t : Sweep} (h : Sound is s)
    (hd : ∀ i ∈ is, ∀ x, i.dest = some x → x ∈ defined) (hs : s.next? defined = some t) :
    Sound is t := by
  obtain ⟨x, rest, hq, hcells, hcount, hqueue⟩ := h.next_spec hs
  have hle (y : Text) := hcells ▸ count_liveReads x y s.cells
  have hsub (y : Text) (hy : y ∉ liveReads s.cells) : y ∉ liveReads t.cells := by
    have := hle y
    rw [← List.count_eq_zero] at hy ⊢
    omega
  have hx : x ∉ liveReads s.cells := h.unread_of_mem x (hq ▸ List.mem_cons_self)
  refine ⟨?_, hcount, ?_, ?_, ?_⟩
  · rw [hcells, List.map_map, ← h.instrs]
    exact List.map_congr_left fun c _ => Cell.retired_instr x c
  · intro y hy
    rcases (hqueue y).1 hy with hy | ⟨_, hy, _⟩
    · exact hsub y (h.unread_of_mem y (hq ▸ List.mem_cons_of_mem x hy))
    · exact hy
  · intro c' hc' hdead
    rw [hcells] at hc'
    obtain ⟨c, hc, rfl⟩ := List.mem_map.1 hc'
    rw [Cell.retired_instr]
    rcases Cell.retired_dead.1 hdead with hdead | hdest
    · exact h.not_kept c hc hdead
    · exact fun hk => h.not_needed hx (hk x hdest)
  · intro c' hc' hdead y hy hread
    rw [hcells] at hc'
    obtain ⟨c, hc, rfl⟩ := List.mem_map.1 hc'
    rw [Cell.retired_instr] at hy
    have hc' : ¬ (c.dead = true ∨ c.instr.dest = some x) := fun hh => by
      simp [Cell.retired_dead.2 hh] at hdead
    simp only [not_or, Bool.not_eq_true] at hc'
    rw [hqueue]
    by_cases hold : y ∈ liveReads s.cells
    · -- the last reads of `y` were given up in this step
      refine .inr ⟨?_, hread, hd _ (h.mem_instrs hc) y hy⟩
      rw [← List.count_pos_iff] at hold ⊢
      rw [← List.count_eq_zero] at hread
      have := hle y
      omega
    · have hmem := h.mem_of_unread c hc hc'.1 y hy hold
      rw [hq] at hmem
      rcases List.mem_cons.1 hmem with rfl | hmem
      · exact (hc'.2 hy).elim
      · exact .inl hmem

lemma Sound.dead_iff {is : List Instr} {s : Sweep} (h : Sound is s) (hq : s.tally.queue = [])
    {c : Cell} (hc : c ∈ s.cells) : c.dead = true ↔ ¬ c.instr.Kept is := by
  refine ⟨h.not_kept c hc, fun hk => ?_⟩
  have hread : ∀ c ∈ s.cells, c.dead = false → ∀ x, c.instr.dest = some x → x ∈ liveReads s.cells := by
    intro c hc hd x hx
    by_contra hn
    have hm := h.mem_of_unread c hc hd x hx hn
    simp [hq] at hm
  -- With an empty queue the variables that unmarked cells read support themselves.
  have hs : Supported is (· ∈ liveReads s.cells) := by
    intro x hx
    obtain ⟨c, hc, hd, ha⟩ := mem_liveReads.1 hx
    exact ⟨c.instr, h.mem_instrs hc, ha, hread c hc hd⟩
  by_contra hd
  exact hk fun x hx => ⟨_, hs, hread c hc (by simpa using hd) x hx⟩

def Reaches (defined : List Text) : Sweep → Sweep → Prop :=
  Relation.ReflTransGen fun s t => s.next? defined = some t

lemma Sound.reaches {is : List Instr} {defined : List Text} {s t : Sweep} (h : Sound is s)
    (hd : ∀ i ∈ is, ∀ x, i.dest = some x → x ∈ defined) (hr : Reaches defined s t) : Sound is t := by
  induction hr with
  | refl => exact h
  | tail _ hs ih => exact ih.next hd hs

lemma reaches_finish (defined : List Text) (s : Sweep) :
    Reaches defined s (s.finish defined) ∧ (s.finish defined).next? defined = none := by
  fun_induction finish defined s with
  | case1 s h => exact ⟨.refl, h⟩
  | case2 s t h ih => exact ⟨ih.1.head h, ih.2⟩

lemma queue_eq_nil_of_next? {defined : List Text} {s : Sweep} (h : s.next? defined = none) :
    s.tally.queue = [] := by
  unfold next? at h
  split at h
  · assumption
  · cases h

end Sweep

lemma unmarked_append (is : List Instr) (p : Instr → Bool) (marks : List Bool) :
    unmarked is (is.map (fun i => !p i) ++ marks) = is.filter p := by
  induction is with
  | nil => rfl
  | cons i is ih => cases hp : p i <;> simp [unmarked, hp, ih]

lemma unmarkedBlocks_map (bs : List Block) (p : Instr → Bool) :
    unmarkedBlocks bs ((bs.flatMap Block.instrs).map fun i => !p i) = bs.map (Block.filter p) := by
  induction bs with
  | nil => rfl
  | cons b bs ih =>
    simp only [List.flatMap_cons, List.map_append, unmarkedBlocks, unmarked_append, List.map_cons]
    rw [List.drop_left' (by simp), ih]
    rfl

namespace Func

lemma count_uses (f : Func) (x : Text) : (f.uses.get? x).getD 0 = (f.reads.count x : Int) := by
  have h (t : Table Text Int) (xs : List Text) :
      ((xs.foldl (fun t x => t.set x ((t.get? x).getD 0 + 1)) t).get? x).getD 0 =
        (t.get? x).getD 0 + (xs.count x : Int) := by
    induction xs generalizing t with
    | nil => simp
    | cons y xs ih =>
      rw [List.foldl_cons, ih, Table.get?_set, List.count_cons]
      by_cases hy : y = x
      · simp [hy]
        omega
      · simp [hy]
  simpa [uses] using h [] f.reads

lemma mem_unread {f : Func} {x : Text} : x ∈ f.unread ↔ x ∈ f.defined ∧ x ∉ f.reads := by
  simp [unread, count_uses, List.count_eq_zero]

lemma mem_defined {f : Func} {x : Text} : x ∈ f.defined ↔ ∃ i ∈ f.instrs, i.dest = some x :=
  List.mem_filterMap

lemma liveReads_sweepFrom (queue : List Text) (f : Func) :
    liveReads (f.sweepFrom queue).cells = f.reads := by
  simp [liveReads, sweepFrom, reads, List.flatMap_map]

lemma sweepFrom_sound {f : Func} {queue : List Text} (hq : ∀ x, x ∈ queue ↔ x ∈ f.unread) :
    Sweep.Sound f.instrs (f.sweepFrom queue) := by
  have hl := liveReads_sweepFrom queue f
  refine ⟨?_, ?_, ?_, ?_, ?_⟩
  · simp [sweepFrom, Function.comp_def]
  · intro x
    rw [hl]
    exact f.count_uses x
  · intro x hx
    rw [hl]
    exact (mem_unread.1 ((hq x).1 hx)).2
  · intro c hc hd
    obtain ⟨i, _, rfl⟩ := List.mem_map.1 hc
    cases hd
  · intro c hc _ x hx hread
    obtain ⟨i, hi, rfl⟩ := List.mem_map.1 hc
    rw [hl] at hread
    exact (hq x).2 (mem_unread.2 ⟨mem_defined.2 ⟨i, hi, hx⟩, hread⟩)

lemma unmarkedBlocks_eq_supportedPart {f : Func} {s : Sweep} (h : Sweep.Sound f.instrs s)
    (hn : s.next? f.defined = none) :
    { f with blocks := unmarkedBlocks f.blocks (s.cells.map Cell.dead) } = f.supportedPart := by
  classical
  have hm : s.cells.map Cell.dead = f.instrs.map fun i => !decide (i.Kept f.instrs) := by
    conv_rhs => rw [← h.instrs, List.map_map]
    refine List.map_congr_left fun c hc => ?_
    have hd := h.dead_iff (Sweep.queue_eq_nil_of_next? hn) hc
    by_cases hk : c.instr.Kept f.instrs <;> simp_all [h.instrs]
  rw [hm, instrs, unmarkedBlocks_map]
  rfl

lemma eq_supportedPart_of_reaches {f : Func} {queue : List Text} {s : Sweep}
    (hq : ∀ x, x ∈ queue ↔ x ∈ f.unread) (hr : Sweep.Reaches f.defined (f.sweepFrom queue) s)
    (hn : s.next? f.defined = none) :
    { f with blocks := unmarkedBlocks f.blocks (s.cells.map Cell.dead) } = f.supportedPart := by
  have hd : ∀ i ∈ f.instrs, ∀ x, i.dest = some x → x ∈ f.defined :=
    fun i hi x hx => mem_defined.2 ⟨i, hi, hx⟩
  exact unmarkedBlocks_eq_supportedPart ((sweepFrom_sound hq).reaches hd hr) hn

lemma dropDeadVariablesFrom_eq_supportedPart {f : Func} {queue : List Text}
    (hq : ∀ x, x ∈ queue ↔ x ∈ f.unread) : f.dropDeadVariablesFrom queue = f.supportedPart := by
  obtain ⟨hr, hn⟩ := Sweep.reaches_finish f.defined (f.sweepFrom queue)
  exact eq_supportedPart_of_reaches hq hr hn

lemma dropDeadVariablesByCount_eq (f : Func) : f.dropDeadVariablesByCount = f.dropDeadVariables := by
  rw [dropDeadVariables_eq_supportedPart]
  exact dropDeadVariablesFrom_eq_supportedPart fun _ => Iff.rfl

/-- In whatever order the unread variables are queued, the sweep ends, and it leaves what dropping unread
definitions over and over leaves. -/
theorem sweep_ends_dropDeadVariablesFrom_eq (f : Func) (queue : List Text) (hq : queue.Perm f.unread) :
    (∃ s, Sweep.Reaches f.defined (f.sweepFrom queue) s ∧ s.next? f.defined = none) ∧
      f.dropDeadVariablesFrom queue = f.dropDeadVariables := by
  obtain ⟨hr, hn⟩ := Sweep.reaches_finish f.defined (f.sweepFrom queue)
  refine ⟨⟨_, hr, hn⟩, ?_⟩
  rw [dropDeadVariables_eq_supportedPart]
  exact dropDeadVariablesFrom_eq_supportedPart fun _ => hq.mem_iff

theorem sweep_ends_for_reversed_queue :
    let f : Func :=
      { name := "main"
        blocks := [⟨"entry", [{ op := .const, dest := some "a", type := some .int, value := some (.int 1) },
          { op := .id, dest := some "b", type := some .int, args := ["a"] },
          { op := .id, dest := some "c", type := some .int, args := ["c"] },
          { op := .id, dest := some "d", type := some .int, args := ["a"] }]⟩] }
    let queue : List Text := ["d", "b"]
    queue.Perm f.unread ∧ queue ≠ f.unread ∧ f.dropDeadVariablesFrom queue = f.dropDeadVariables := by
  intro f queue
  have hq : queue.Perm f.unread := by decide
  exact ⟨hq, by decide, (sweep_ends_dropDeadVariablesFrom_eq f queue hq).2⟩

end Func

end BlockIR
