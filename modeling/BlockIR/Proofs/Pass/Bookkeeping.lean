import BlockIR.Proofs.Pass.Counting
import Mathlib.Data.List.Perm.Subperm

/-! The books of a sweep, action by action. A variable is taken off the queue, and then the cells are gone
through: each definition of the variable is marked, and its reads are given up one after the other. The tally and
the queue are right after every one of these actions, and no action is taken twice. -/

namespace BlockIR

lemma Tally.release_queue (defined : List Text) (t : Tally) (y : Text) :
    ∃ xs, (t.release defined y).queue = xs ++ t.queue ∧
      (xs = [y] ∧ t.count y = 1 ∧ y ∈ defined ∨ xs = [] ∧ ¬ (t.count y = 1 ∧ y ∈ defined)) := by
  have hn : t.count y - 1 = 0 ↔ t.count y = 1 := by omega
  by_cases h : t.count y = 1 ∧ y ∈ defined
  · exact ⟨[y], by simp [release, h], .inl ⟨rfl, h⟩⟩
  · exact ⟨[], by simp only [release, hn, if_neg h, List.nil_append], .inr ⟨rfl, h⟩⟩

/-- A sweep between two actions. In the turn of a variable some cells have been passed, and of the one that was
marked last some reads are still to be given up. Between two turns all cells are ahead. -/
structure Moment where
  tally : Tally
  turn : Option Text := none
  passed : List Cell := []
  pending : List Text := []
  ahead : List Cell

def Sweep.moment (s : Sweep) : Moment :=
  { tally := s.tally, ahead := s.cells }

namespace Moment

def cells (m : Moment) : List Cell :=
  m.passed ++ m.ahead

inductive Event where
  | take (x : Text)
  | mark (k : Nat)
  | pass
  | release (x : Text) (queued : List Text)
  | rest

namespace Event

@[simp] def taken : Event → List Text
  | take x => [x]
  | _ => []

@[simp] def pushed : Event → List Text
  | release _ xs => xs
  | _ => []

@[simp] def marked : Event → List Nat
  | mark k => [k]
  | _ => []

end Event

variable {defined : List Text}

inductive Step (defined : List Text) : Moment → Event → Moment → Prop
  | take {u : Table Text Int} {x : Text} {q : List Text} {cs : List Cell} :
    Step defined ⟨⟨u, x :: q⟩, none, [], [], cs⟩ (.take x) ⟨⟨u, q⟩, some x, [], [], cs⟩
  | mark {t : Tally} {x : Text} {ps cs : List Cell} {c : Cell} (h : c.defines x = true) :
    Step defined ⟨t, some x, ps, [], c :: cs⟩ (.mark ps.length)
      ⟨t, some x, ps ++ [{ c with dead := true }], c.instr.args, cs⟩
  | pass {t : Tally} {x : Text} {ps cs : List Cell} {c : Cell} (h : c.defines x = false) :
    Step defined ⟨t, some x, ps, [], c :: cs⟩ .pass ⟨t, some x, ps ++ [c], [], cs⟩
  | release {t : Tally} {x y : Text} {ps cs : List Cell} {ys xs : List Text}
    (h : (t.release defined y).queue = xs ++ t.queue) :
    Step defined ⟨t, some x, ps, y :: ys, cs⟩ (.release y xs) ⟨t.release defined y, some x, ps, ys, cs⟩
  | rest {t : Tally} {x : Text} {ps : List Cell} :
    Step defined ⟨t, some x, ps, [], []⟩ .rest ⟨t, none, [], [], ps⟩

inductive Run (defined : List Text) (m : Moment) : List Event → Moment → Prop
  | start : Run defined m [] m
  | step {log : List Event} {n k : Moment} {e : Event} :
    Run defined m log n → Step defined n e k → Run defined m (log ++ [e]) k

def takes (log : List Event) : List Text :=
  log.flatMap Event.taken

def pushes (log : List Event) : List Text :=
  log.flatMap Event.pushed

def marks (log : List Event) : List Nat :=
  log.flatMap Event.marked

@[simp] lemma takes_append (log : List Event) (e : Event) : takes (log ++ [e]) = takes log ++ e.taken := by
  simp [takes]

@[simp] lemma pushes_append (log : List Event) (e : Event) : pushes (log ++ [e]) = pushes log ++ e.pushed := by
  simp [pushes]

@[simp] lemma marks_append (log : List Event) (e : Event) : marks (log ++ [e]) = marks log ++ e.marked := by
  simp [marks]

section Turns

variable {m n k : Moment} {as bs : List Event} {e : Event}

lemma Run.append (h : Run defined m as n) (h' : Run defined n bs k) : Run defined m (as ++ bs) k := by
  induction h' with
  | start => rwa [List.append_nil]
  | step _ hs ih => rw [← List.append_assoc]; exact ih.step hs

lemma Run.single (h : Step defined m e n) : Run defined m [e] n :=
  Run.start.step h

lemma exists_run_releaseAll (defined : List Text) (t : Tally) (x : Text) (ps : List Cell) (ys : List Text)
    (cs : List Cell) :
    ∃ log, Run defined ⟨t, some x, ps, ys, cs⟩ log ⟨t.releaseAll defined ys, some x, ps, [], cs⟩ := by
  induction ys generalizing t with
  | nil => exact ⟨[], .start⟩
  | cons y ys ih =>
    obtain ⟨log, hlog⟩ := ih (t.release defined y)
    obtain ⟨xs, hq, _⟩ := t.release_queue defined y
    exact ⟨_, (Run.single (.release hq)).append hlog⟩

lemma exists_run_retire (defined : List Text) (t : Tally) (x : Text) (ps cs : List Cell) :
    ∃ log, Run defined ⟨t, some x, ps, [], cs⟩ log
      ⟨(retire defined x t cs).1, some x, ps ++ (retire defined x t cs).2, [], []⟩ := by
  induction cs generalizing t ps with
  | nil => exact ⟨[], by simpa [retire] using Run.start⟩
  | cons c cs ih =>
    by_cases hc : c.defines x = true
    · obtain ⟨as, has⟩ := exists_run_releaseAll defined t x (ps ++ [{ c with dead := true }]) c.instr.args cs
      obtain ⟨bs, hbs⟩ := ih (t.releaseAll defined c.instr.args) (ps ++ [{ c with dead := true }])
      have hrun := ((Run.single (.mark hc)).append has).append hbs
      exact ⟨_, by simpa [retire, hc] using hrun⟩
    · obtain ⟨bs, hbs⟩ := ih t (ps ++ [c])
      have hrun := (Run.single (.pass (Bool.eq_false_iff.2 hc))).append hbs
      exact ⟨_, by simpa [retire, hc] using hrun⟩

lemma exists_run_next {s t : Sweep} (h : s.next? defined = some t) : ∃ log, Run defined s.moment log t.moment := by
  obtain ⟨⟨u, queue⟩, cs⟩ := s
  cases queue with
  | nil => cases h
  | cons x q =>
    obtain ⟨log, hlog⟩ := exists_run_retire defined ⟨u, q⟩ x [] cs
    cases h
    exact ⟨_, ((Run.single .take).append hlog).step .rest⟩

lemma exists_run_of_reaches {s t : Sweep} (h : Sweep.Reaches defined s t) :
    ∃ log, Run defined s.moment log t.moment := by
  induction h with
  | refl => exact ⟨[], .start⟩
  | tail _ hs ih =>
    obtain ⟨as, has⟩ := ih
    obtain ⟨bs, hbs⟩ := exists_run_next hs
    exact ⟨_, has.append hbs⟩

def settle (defined : List Text) (m : Moment) : Sweep :=
  match m.turn with
  | none => ⟨m.tally, m.cells⟩
  | some x =>
    let (t, cs) := retire defined x (m.tally.releaseAll defined m.pending) m.ahead
    ⟨t, m.passed ++ cs⟩

lemma Step.reaches_settle (h : Step defined m e n) : Sweep.Reaches defined (m.settle defined) (n.settle defined) := by
  cases h with
  | take => exact .single rfl
  | @mark t x ps cs c hc =>
    have he : settle defined ⟨t, some x, ps, [], c :: cs⟩ =
        settle defined ⟨t, some x, ps ++ [{ c with dead := true }], c.instr.args, cs⟩ := by
      simp [settle, retire, hc, Tally.releaseAll]
    exact he ▸ .refl
  | @pass t x ps cs c hc =>
    have he : settle defined ⟨t, some x, ps, [], c :: cs⟩ = settle defined ⟨t, some x, ps ++ [c], [], cs⟩ := by
      simp [settle, retire, hc, Tally.releaseAll]
    exact he ▸ .refl
  | release _ => exact .refl
  | @rest t x ps =>
    have he : settle defined ⟨t, some x, ps, [], []⟩ = settle defined ⟨t, none, [], [], ps⟩ := by
      simp [settle, cells, retire, Tally.releaseAll]
    exact he ▸ .refl

lemma Run.reaches_settle (h : Run defined m as n) : Sweep.Reaches defined (m.settle defined) (n.settle defined) := by
  induction h with
  | start => exact .refl
  | step _ hs ih => exact ih.trans hs.reaches_settle

end Turns

lemma nodup_eraseDups : (xs : List Text) → xs.eraseDups.Nodup
  | [] => List.nodup_nil
  | x :: xs => by
    rw [List.eraseDups_cons, List.nodup_cons]
    exact ⟨by simp, nodup_eraseDups _⟩
termination_by xs => xs.length
decreasing_by exact Nat.lt_succ_of_le (List.length_filter_le _ xs)

/-- What holds at a moment of a sweep over `f`, after some variables have been taken off the queue, some have been
put on it, and some cells have been marked. -/
structure Books (f : Func) (taken pushed : List Text) (marked : List Nat) (cs : List Cell) (m : Moment) : Prop where
  cells : m.cells = cs
  instrs : cs.map Cell.instr = f.instrs
  count : ∀ x, m.tally.count x = ((liveReads cs ++ m.pending).count x : Nat)
  idle : m.turn = none → m.pending = []
  pushed_nodup : pushed.Nodup
  pushed_perm : pushed.Perm (taken ++ m.tally.queue)
  pushed_unread : ∀ x ∈ pushed, x ∈ f.defined ∧ m.tally.count x = 0
  taken_of_dead : ∀ c ∈ cs, c.dead = true → ∃ x ∈ taken, c.instr.dest = some x
  queued_of_unread : ∀ c ∈ cs, c.dead = false → ∀ x, c.instr.dest = some x → m.tally.count x = 0 →
    x ∈ m.tally.queue ∨ m.turn = some x
  turn_taken : ∀ x, m.turn = some x → x ∈ taken
  dead_of_passed : ∀ x, m.turn = some x → ∀ c ∈ m.passed, c.instr.dest = some x → c.dead = true
  open_of_ahead : ∀ x, m.turn = some x → ∀ c ∈ m.ahead, c.instr.dest = some x → c.dead = false
  marked_nodup : marked.Nodup
  dead_of_marked : ∀ k ∈ marked, ∃ c, cs[k]? = some c ∧ c.dead = true

namespace Books

variable {f : Func} {taken pushed q ys xs : List Text} {marked : List Nat} {m : Moment} {t : Tally} {x y : Text}
  {all ps cs : List Cell} {c : Cell}

lemma nodup_taken (h : Books f taken pushed marked all m) : (taken ++ m.tally.queue).Nodup :=
  h.pushed_perm.nodup_iff.1 h.pushed_nodup

lemma unread_of_taken (h : Books f taken pushed marked all m) (hx : x ∈ taken) :
    x ∈ f.defined ∧ m.tally.count x = 0 :=
  h.pushed_unread x (h.pushed_perm.mem_iff.2 (List.mem_append_left _ hx))

lemma start {queue : List Text} (hq : queue.Perm f.unread) :
    Books f [] queue [] (f.sweepFrom queue).cells (f.sweepFrom queue).moment := by
  have hs : Sweep.Sound f.instrs (f.sweepFrom queue) := Func.sweepFrom_sound fun x => hq.mem_iff
  have hzero (x : Text) : (f.sweepFrom queue).tally.count x = 0 ↔ x ∉ liveReads (f.sweepFrom queue).cells := by
    rw [hs.count, Int.natCast_eq_zero, List.count_eq_zero]
  have hopen : ∀ c ∈ (f.sweepFrom queue).cells, c.dead = false := by simp [Func.sweepFrom]
  exact {
    cells := rfl
    instrs := hs.instrs
    count := fun x => (hs.count x).trans (by simp [Sweep.moment])
    idle := fun _ => rfl
    pushed_nodup := hq.nodup_iff.2 (nodup_eraseDups _)
    pushed_perm := List.Perm.refl queue
    pushed_unread := fun x hx => ⟨(Func.mem_unread.1 (hq.mem_iff.1 hx)).1, (hzero x).2 (hs.unread_of_mem x hx)⟩
    taken_of_dead := fun c hc hdead => by simp [hopen c hc] at hdead
    queued_of_unread := fun c hc hd x hx hcount => .inl (hs.mem_of_unread c hc hd x hx ((hzero x).1 hcount))
    turn_taken := fun _ hx => by cases hx
    dead_of_passed := fun _ hx => by cases hx
    open_of_ahead := fun _ hx => by cases hx
    marked_nodup := List.nodup_nil
    dead_of_marked := fun _ hk => absurd hk List.not_mem_nil }

lemma take {u : Table Text Int} (h : Books f taken pushed marked all ⟨⟨u, x :: q⟩, none, [], [], cs⟩) :
    Books f (taken ++ [x]) pushed marked all ⟨⟨u, q⟩, some x, [], [], cs⟩ := by
  have hnew : x ∉ taken := fun hx =>
    (List.nodup_append.1 h.nodup_taken).2.2 x hx x List.mem_cons_self rfl
  have hcells : cs = all := h.cells
  exact { h with
    idle := fun h => by cases h
    pushed_perm := by simpa using h.pushed_perm
    taken_of_dead := fun c hc hdead => by
      obtain ⟨y, hy, hdest⟩ := h.taken_of_dead c hc hdead
      exact ⟨y, List.mem_append_left _ hy, hdest⟩
    queued_of_unread := fun c hc hopen y hy hcount => by
      rcases h.queued_of_unread c hc hopen y hy hcount with hmem | hturn
      · rcases List.mem_cons.1 hmem with rfl | hmem
        · exact .inr rfl
        · exact .inl hmem
      · cases hturn
    turn_taken := fun y hy => by
      cases hy
      exact List.mem_append_right _ List.mem_cons_self
    dead_of_passed := fun _ _ _ hc => absurd hc List.not_mem_nil
    open_of_ahead := fun y hy c hc hdest => by
      cases hy
      -- A marked cell would define a variable that was taken before.
      by_contra hdead
      obtain ⟨z, hz, hdest'⟩ := h.taken_of_dead c (hcells ▸ hc) (by simpa using hdead)
      exact hnew (Option.some.inj (hdest.symm.trans hdest') ▸ hz) }

lemma mark (h : Books f taken pushed marked all ⟨t, some x, ps, [], c :: cs⟩) (hc : c.defines x = true) :
    Books f taken pushed (marked ++ [ps.length]) (ps ++ { c with dead := true } :: cs)
      ⟨t, some x, ps ++ [{ c with dead := true }], c.instr.args, cs⟩ := by
  obtain ⟨hdest, hopen⟩ := Cell.defines_iff.1 hc
  obtain rfl : ps ++ c :: cs = all := h.cells
  have hmem {d : Cell} (hd : d ∈ ps ++ { c with dead := true } :: cs) :
      d = { c with dead := true } ∨ d ∈ ps ++ c :: cs := by
    simp only [List.mem_append, List.mem_cons] at hd ⊢
    tauto
  have hnew : ps.length ∉ marked := fun hk => by
    obtain ⟨d, hd, hdead⟩ := h.dead_of_marked _ hk
    obtain rfl : c = d := by simpa using hd
    rw [hopen] at hdead
    cases hdead
  have hreads (y : Text) : (liveReads (ps ++ { c with dead := true } :: cs)).count y + c.instr.args.count y =
      (liveReads (ps ++ c :: cs)).count y := by
    simp only [liveReads, List.flatMap_append, List.flatMap_cons, List.count_append, hopen]
    grind
  have hset : ps ++ { c with dead := true } :: cs = (ps ++ c :: cs).set ps.length { c with dead := true } := by simp
  exact { h with
    cells := List.append_assoc ..
    instrs := by simpa using h.instrs
    count := fun y => by
      rw [h.count y, List.append_nil, (hreads y).symm, List.count_append]
    idle := fun h => by cases h
    taken_of_dead := fun d hd hdead => by
      rcases hmem hd with rfl | hd
      · exact ⟨x, h.turn_taken x rfl, hdest⟩
      · exact h.taken_of_dead d hd hdead
    queued_of_unread := fun d hd hd' => by
      rcases hmem hd with rfl | hd
      · cases hd'
      · exact h.queued_of_unread d hd hd'
    dead_of_passed := fun y hy d hd hd' => by
      rcases List.mem_append.1 hd with hd | hd
      · exact h.dead_of_passed y hy d hd hd'
      · rw [List.mem_singleton.1 hd]
    open_of_ahead := fun y hy d hd => h.open_of_ahead y hy d (List.mem_cons_of_mem c hd)
    marked_nodup := (List.perm_append_singleton _ _).nodup_iff.2 (List.nodup_cons.2 ⟨hnew, h.marked_nodup⟩)
    dead_of_marked := fun k hk => by
      rcases List.mem_append.1 hk with hk | hk
      · have hne : ps.length ≠ k := fun he => hnew (he ▸ hk)
        rw [hset, List.getElem?_set_ne hne]
        exact h.dead_of_marked k hk
      · obtain rfl := List.mem_singleton.1 hk
        exact ⟨{ c with dead := true }, by simp, rfl⟩ }

lemma pass (h : Books f taken pushed marked all ⟨t, some x, ps, [], c :: cs⟩) (hc : c.defines x = false) :
    Books f taken pushed marked all ⟨t, some x, ps ++ [c], [], cs⟩ := by
  exact { h with
    cells := (List.append_assoc ..).trans h.cells
    dead_of_passed := fun y hy d hd hd' => by
      rcases List.mem_append.1 hd with hd | hd
      · exact h.dead_of_passed y hy d hd hd'
      · cases hy
        obtain rfl := List.mem_singleton.1 hd
        by_contra hdead
        simp [Cell.defines, hd', hdead] at hc
    open_of_ahead := fun y hy d hd => h.open_of_ahead y hy d (List.mem_cons_of_mem c hd) }

lemma release (h : Books f taken pushed marked all ⟨t, some x, ps, y :: ys, cs⟩)
    (hq : (t.release f.defined y).queue = xs ++ t.queue) :
    Books f taken (pushed ++ xs) marked all ⟨t.release f.defined y, some x, ps, ys, cs⟩ := by
  have hcount (z : Text) : (t.release f.defined y).count z = t.count z - if y = z then 1 else 0 :=
    t.count_release f.defined y z
  have hlast (z : Text) : t.count z = ((liveReads all ++ ys).count z : Nat) + if y = z then 1 else 0 := by
    rw [h.count z, List.count_append, List.count_append, List.count_cons]
    by_cases hz : y = z
    · simp only [hz, BEq.rfl, if_true]
      omega
    · simp only [hz, beq_iff_eq, if_false]
      omega
  obtain ⟨xs', hq', hxs⟩ := t.release_queue f.defined y
  obtain rfl : xs = xs' := List.append_cancel_right (hq.symm.trans hq')
  -- What was put on the queue before is not read any more, not even by the cell that gives up its reads.
  have hold : ∀ z ∈ pushed, y ≠ z := by
    rintro _ hz rfl
    have hzero : t.count y = 0 := (h.pushed_unread y hz).2
    have hsome := hlast y
    rw [if_pos rfl] at hsome
    omega
  exact { h with
    count := fun z => by
      rw [hcount, hlast]
      simp
    idle := fun h => by cases h
    pushed_nodup := by
      rcases hxs with ⟨rfl, _⟩ | ⟨rfl, _⟩
      · refine (List.perm_append_singleton _ _).nodup_iff.2 (List.nodup_cons.2 ⟨?_, h.pushed_nodup⟩)
        exact fun hy => hold y hy rfl
      · rw [List.append_nil]
        exact h.pushed_nodup
    pushed_perm := by
      rw [hq]
      refine (h.pushed_perm.append_right xs).trans ?_
      rw [List.append_assoc]
      exact List.perm_append_comm.append_left taken
    pushed_unread := fun z hz => by
      rcases List.mem_append.1 hz with hz | hz
      · obtain ⟨hdefined, hzero⟩ := h.pushed_unread z hz
        rw [hcount, if_neg (hold z hz)]
        exact ⟨hdefined, by simpa using hzero⟩
      · rcases hxs with ⟨rfl, hone, hdefined⟩ | ⟨rfl, _⟩
        · obtain rfl := List.mem_singleton.1 hz
          exact ⟨hdefined, by rw [hcount, hone]; simp⟩
        · cases hz
    queued_of_unread := fun d hd hopen z hz hzero => by
      rw [hcount] at hzero
      rw [hq, List.mem_append]
      by_cases hyz : y = z
      · subst hyz
        rw [if_pos rfl] at hzero
        have hone : t.count y = 1 := by omega
        have hdefined : y ∈ f.defined := Func.mem_defined.2 ⟨_, h.instrs ▸ List.mem_map_of_mem hd, hz⟩
        rcases hxs with ⟨rfl, _⟩ | ⟨_, hnot⟩
        · exact .inl (.inl List.mem_cons_self)
        · exact absurd ⟨hone, hdefined⟩ hnot
      · rw [if_neg hyz, Int.sub_zero] at hzero
        exact (h.queued_of_unread d hd hopen z hz hzero).imp_left .inr }

lemma rest (h : Books f taken pushed marked all ⟨t, some x, ps, [], []⟩) :
    Books f taken pushed marked all ⟨t, none, [], [], ps⟩ := by
  have hcells : ps = all := (List.append_nil ps).symm.trans h.cells
  exact { h with
    cells := hcells
    idle := fun _ => rfl
    queued_of_unread := fun d hd hopen y hy hcount => by
      rcases h.queued_of_unread d hd hopen y hy hcount with hmem | hturn
      · exact .inl hmem
      · have hdead := h.dead_of_passed y hturn d (hcells ▸ hd) hy
        rw [hopen] at hdead
        cases hdead
    turn_taken := fun _ hx => by cases hx
    dead_of_passed := fun _ hx => by cases hx
    open_of_ahead := fun _ hx => by cases hx }

lemma step {n : Moment} {e : Event} (h : Books f taken pushed marked all m) (hs : Step f.defined m e n) :
    ∃ all', Books f (taken ++ e.taken) (pushed ++ e.pushed) (marked ++ e.marked) all' n := by
  cases hs with
  | take => exact ⟨all, by simpa using h.take⟩
  | mark hc => exact ⟨_, by simpa using h.mark hc⟩
  | pass hc => exact ⟨all, by simpa using h.pass hc⟩
  | release hq => exact ⟨all, by simpa using h.release hq⟩
  | rest => exact ⟨all, by simpa using h.rest⟩

lemma of_run {queue : List Text} (hq : queue.Perm f.unread) {log : List Event}
    (hr : Run f.defined (f.sweepFrom queue).moment log m) :
    Books f (takes log) (queue ++ pushes log) (marks log) m.cells m := by
  have hbooks : ∃ all, Books f (takes log) (queue ++ pushes log) (marks log) all m := by
    induction hr with
    | start => exact ⟨_, by simpa [takes, pushes, marks] using start hq⟩
    | step _ hs ih =>
      obtain ⟨all, hall⟩ := ih
      obtain ⟨all', hall'⟩ := hall.step hs
      exact ⟨all', by simpa using hall'⟩
  obtain ⟨all, hall⟩ := hbooks
  exact hall.cells ▸ hall

end Books

end Moment

namespace Func

open Moment

/-- The loop is gone through action by action, and its states are the moments between two turns. At all moments
the tally holds the reads of the unmarked cells and those that are about to be given up, marked cells define
variables that are not read, and a variable that is not read and has an unmarked definition is on the queue or
has its turn. In the whole run no variable is put on the queue twice, no cell is marked twice, and there is at most
one turn for each variable that is defined. -/
theorem sweep_keeps_books (f : Func) (queue : List Text) (hq : queue.Perm f.unread) :
    (∀ s, Sweep.Reaches f.defined (f.sweepFrom queue) s ↔
      ∃ log, Run f.defined (f.sweepFrom queue).moment log s.moment) ∧
    ∀ log m, Run f.defined (f.sweepFrom queue).moment log m →
      m.cells.map Cell.instr = f.instrs ∧
      (∀ x, 0 ≤ m.tally.count x ∧ m.tally.count x = ((liveReads m.cells).count x + m.pending.count x : Nat)) ∧
      (m.turn = none → m.pending = []) ∧
      (queue ++ pushes log).Nodup ∧
      (∀ c ∈ m.cells, c.dead = true → ∃ x, c.instr.dest = some x ∧ m.tally.count x = 0) ∧
      (∀ c ∈ m.cells, c.dead = false → ∀ x, c.instr.dest = some x → m.tally.count x = 0 →
        x ∈ m.tally.queue ∨ m.turn = some x) ∧
      (∀ x, m.turn = some x → ∀ c ∈ m.ahead, c.instr.dest = some x → c.dead = false) ∧
      (marks log).Nodup ∧
      (takes log).Nodup ∧ takes log ⊆ f.defined ∧ (takes log).length ≤ f.defined.eraseDups.length := by
  refine ⟨fun s => ⟨exists_run_of_reaches, fun ⟨log, hlog⟩ => hlog.reaches_settle⟩, fun log m hr => ?_⟩
  have h := Books.of_run hq hr
  have htaken : (takes log).Nodup := (List.nodup_append.1 h.nodup_taken).1
  have hdefined : takes log ⊆ f.defined := fun x hx => (h.unread_of_taken hx).1
  refine ⟨h.instrs, fun x => ?_, h.idle, h.pushed_nodup, ?_, h.queued_of_unread, h.open_of_ahead, h.marked_nodup, htaken,
    hdefined, ?_⟩
  · rw [h.count x, List.count_append]
    exact ⟨Int.natCast_nonneg _, rfl⟩
  · intro c hc hdead
    obtain ⟨x, hx, hdest⟩ := h.taken_of_dead c hc hdead
    exact ⟨x, hdest, (h.unread_of_taken hx).2⟩
  · exact (htaken.subperm fun x hx => List.mem_eraseDups.2 (hdefined hx)).length_le

theorem sweep_keeps_books_cascade :
    let define (x : Text) (args : List Text) : Instr :=
      { op := .call, dest := some x, type := some .int, args, funcs := ["f"] }
    let f : Func :=
      { name := "main"
        blocks := [⟨"entry", [define "a" [], define "a" ["c"], define "c" [], define "b" ["a", "a"]]⟩,
          ⟨"exit", [define "d" ["b", "a"], define "g" ["b"], define "e" ["e"], { op := .ret, args := ["e"] }]⟩] }
    let queue : List Text := ["g", "d"]
    let s : Sweep := (f.sweepFrom queue).finish f.defined
    queue.Perm f.unread ∧ f.defined.eraseDups.length = 6 ∧
      ∃ log, Run f.defined (f.sweepFrom queue).moment log s.moment ∧ (queue ++ pushes log).Nodup ∧
        (marks log).Nodup ∧ (takes log).length ≤ 6 ∧ ∀ x, s.tally.count x = (liveReads s.cells).count x := by
  intro define f queue s
  have hq : queue.Perm f.unread := by decide +kernel
  have hsize : f.defined.eraseDups.length = 6 := by decide +kernel
  obtain ⟨hreaches, hbooks⟩ := sweep_keeps_books f queue hq
  obtain ⟨log, hlog⟩ := (hreaches s).1 (Sweep.reaches_finish f.defined (f.sweepFrom queue)).1
  obtain ⟨_, hcount, _, hpushed, _, _, _, hmarked, _, _, hturns⟩ := hbooks log s.moment hlog
  have hreads (x : Text) : s.tally.count x = (liveReads s.cells).count x := by
    simpa [Sweep.moment, Moment.cells] using (hcount x).2
  exact ⟨hq, hsize, log, hlog, hpushed, hmarked, Nat.le_trans hturns (Nat.le_of_eq hsize), hreads⟩

end Func

end BlockIR
