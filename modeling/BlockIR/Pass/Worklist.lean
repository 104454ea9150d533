import BlockIR.Pass.DeadVariable
import BlockIR.Table

/-! Dead variables by counting. A variable that nobody reads any more is queued, and taking it off the
queue marks its definitions, which gives up the reads they made. -/

namespace BlockIR

structure Cell where
  instr : Instr
  dead : Bool := false
deriving DecidableEq

namespace Cell

def defines (x : Text) (c : Cell) : Bool :=
  c.instr.dest = some x && !c.dead

end Cell

structure Tally where
  uses : Table Text Int
  queue : List Text
deriving DecidableEq

namespace Tally

def count (t : Tally) (x : Text) : Int :=
  (t.uses.get? x).getD 0

def release (defined : List Text) (t : Tally) (x : Text) : Tally :=
  let n := t.count x - 1
  { uses := t.uses.set x n
    queue := if n = 0 ∧ x ∈ defined then x :: t.queue else t.queue }

def releaseAll (defined : List Text) (t : Tally) (xs : List Text) : Tally :=
  xs.foldl (release defined) t

theorem releaseAll_queue_length (defined : List Text) (t : Tally) (xs : List Text) :
    (t.releaseAll defined xs).queue.length ≤ t.queue.length + xs.length := by
  induction xs generalizing t with
  | nil => exact Nat.le_refl _
  | cons x xs ih =>
    have hx : (t.release defined x).queue.length ≤ t.queue.length + 1 := by
      simp only [release]
      split
      · exact Nat.le_refl _
      · exact Nat.le_succ _
    have hxs := ih (t.release defined x)
    rw [List.length_cons]
    exact Nat.le_trans hxs (by omega)

end Tally

def retire (defined : List Text) (x : Text) : Tally → List Cell → Tally × List Cell
  | t, [] => (t, [])
  | t, c :: cs =>
    if c.defines x then
      let (t, cs) := retire defined x (t.releaseAll defined c.instr.args) cs
      (t, { c with dead := true } :: cs)
    else
      let (t, cs) := retire defined x t cs
      (t, c :: cs)

def openReads : List Cell → Nat
  | [] => 0
  | c :: cs => (if c.dead then 0 else c.instr.args.length) + openReads cs

theorem retire_measure (defined : List Text) (x : Text) (t : Tally) (cs : List Cell) :
    (retire defined x t cs).1.queue.length + openReads (retire defined x t cs).2 ≤
      t.queue.length + openReads cs := by
  induction cs generalizing t with
  | nil => exact Nat.le_refl _
  | cons c cs ih =>
    rw [retire]
    split
    · rename_i hc
      have hd : c.dead = false := by simp_all [Cell.defines]
      have hq := t.releaseAll_queue_length defined c.instr.args
      have hr := ih (t.releaseAll defined c.instr.args)
      simp only [openReads, hd, Bool.false_eq_true, if_false, if_true] at hr ⊢
      omega
    · have hr := ih t
      simp only [openReads] at hr ⊢
      omega

structure Sweep where
  tally : Tally
  cells : List Cell
deriving DecidableEq

namespace Sweep

def next? (defined : List Text) (s : Sweep) : Option Sweep :=
  match s.tally.queue with
  | [] => none
  | x :: rest =>
    let (tally, cells) := retire defined x { s.tally with queue := rest } s.cells
    some ⟨tally, cells⟩

def size (s : Sweep) : Nat :=
  s.tally.queue.length + openReads s.cells

theorem size_lt_of_next? {defined : List Text} {s t : Sweep} (h : s.next? defined = some t) :
    t.size < s.size := by
  unfold next? at h
  split at h
  · cases h
  · rename_i x rest hq
    cases h
    have hm := retire_measure defined x { s.tally with queue := rest } s.cells
    simp only [size, hq, List.length_cons] at hm ⊢
    omega

def finish (defined : List Text) (s : Sweep) : Sweep :=
  match _h : s.next? defined with
  | none => s
  | some t => t.finish defined
termination_by s.size
decreasing_by exact size_lt_of_next? _h

end Sweep

def unmarkedBlocks : List Block → List Bool → List Block
  | [], _ => []
  | b :: bs, marks =>
    ⟨b.name, unmarked b.instrs marks⟩ :: unmarkedBlocks bs (marks.drop b.instrs.length)

theorem unmarkedBlocks_thin (bs : List Block) (marks : List Bool) :
    BlocksThin (unmarkedBlocks bs marks) bs := by
  induction bs generalizing marks with
  | nil => exact .nil
  | cons b bs ih => exact .cons ⟨rfl, unmarked_sublist b.instrs marks⟩ (ih _)

namespace Func

def defined (f : Func) : List Text :=
  f.instrs.filterMap Instr.dest

def uses (f : Func) : Table Text Int :=
  f.reads.foldl (fun t x => t.set x ((t.get? x).getD 0 + 1)) []

def unread (f : Func) : List Text :=
  let uses := f.uses
  (f.defined.filter fun x => (uses.get? x).getD 0 = 0).eraseDups

def sweepFrom (queue : List Text) (f : Func) : Sweep :=
  ⟨⟨f.uses, queue⟩, f.instrs.map fun i => ⟨i, false⟩⟩

def dropDeadVariablesFrom (queue : List Text) (f : Func) : Func :=
  let s := (f.sweepFrom queue).finish f.defined
  { f with blocks := unmarkedBlocks f.blocks (s.cells.map Cell.dead) }

def dropDeadVariablesByCount (f : Func) : Func :=
  f.dropDeadVariablesFrom f.unread

theorem dropDeadVariablesFrom_thins (queue : List Text) (f : Func) :
    (f.dropDeadVariablesFrom queue).Thins f :=
  ⟨rfl, rfl, rfl, unmarkedBlocks_thin f.blocks _⟩

end Func

end BlockIR
