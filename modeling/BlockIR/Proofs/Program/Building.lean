import BlockIR.Program.Builder
import Mathlib.Tactic.Lemma
import Mathlib.Tactic.Common
import Mathlib.Tactic.MkIffOfInductiveProp

/-! What blocks a stream of labels and instructions is cut into. Blocks that are not empty and have no
terminator before their last instruction are the ones that can come out, and they come out of their own
labels and instructions. -/

namespace BlockIR

@[mk_iff]
structure Block.Cut (b : Block) : Prop where
  nonempty : b.instrs ≠ []
  last : ∀ i ∈ b.instrs.dropLast, i.isTerminator = false

def Block.items (b : Block) : List Item :=
  .label b.name :: b.instrs.map .instr

def Item.Has (Q : Instr → Prop) (N : Text → Prop) : Item → Prop
  | .label x => N x
  | .instr i => Q i

def Item.instr? : Item → Option Instr
  | .label _ => none
  | .instr i => some i

namespace BlockBuilder

variable {b : BlockBuilder}

lemma close_of_pending (h : b.pending = []) : b.close = b := by
  simp [close, h]

lemma close_of_pending_ne (h : b.pending ≠ []) :
    b.close = ⟨b.finished ++ [⟨b.label?.getD (numbered b.finished.length), b.pending⟩], [], none⟩ := by
  simp [close, h]

@[simp] lemma close_pending : b.close.pending = [] := by
  by_cases h : b.pending = []
  · rw [close_of_pending h, h]
  · rw [close_of_pending_ne h]

@[simp] lemma close_close : b.close.close = b.close :=
  close_of_pending close_pending

lemma close_add (i : Instr) :
    (b.add i).close = ({ b with pending := b.pending ++ [i] } : BlockBuilder).close := by
  unfold add
  split
  · exact close_close
  · rfl

lemma foldl_feed_instrs {is : List Instr} (h : ∀ i ∈ is, i.isTerminator = false) :
    (is.map Item.instr).foldl feed b = { b with pending := b.pending ++ is } := by
  induction is generalizing b with
  | nil => simp
  | cons i is ih =>
    obtain ⟨hi, his⟩ := List.forall_mem_cons.1 h
    simp [feed, add, hi, ih his]

lemma foldl_feed_items {k : Block} (hk : k.Cut) :
    (k.items.foldl feed b).close = ⟨b.close.finished ++ [k], [], none⟩ := by
  obtain ⟨x, is⟩ := k
  obtain ⟨init, i, rfl⟩ : ∃ init i, is = init ++ [i] := ⟨_, _, (List.dropLast_concat_getLast hk.nonempty).symm⟩
  have hinit : ∀ j ∈ init, j.isTerminator = false := by simpa using hk.last
  simp only [Block.items, List.map_append, List.map_cons, List.map_nil, List.foldl_cons, List.foldl_append,
    List.foldl_nil, foldl_feed_instrs hinit]
  simp only [feed, close_add]
  rw [close_of_pending_ne (by simp)]
  simp [label]

lemma foldl_feed_blocks {ks : List Block} (hk : ∀ k ∈ ks, k.Cut) :
    ((ks.flatMap Block.items).foldl feed b).close.finished = b.close.finished ++ ks := by
  -- A label closes what came before it, so a block only sees the builder as it is when closed.
  induction ks generalizing b with
  | nil => simp
  | cons k ks ih =>
    obtain ⟨hk, hks⟩ := List.forall_mem_cons.1 hk
    rw [List.flatMap_cons, List.foldl_append, ih hks, foldl_feed_items hk]
    simp

structure Sound (Q : Instr → Prop) (N : Text → Prop) (b : BlockBuilder) : Prop where
  finished : ∀ k ∈ b.finished, k.Cut ∧ (∀ i ∈ k.instrs, Q i) ∧ N k.name
  pending : ∀ i ∈ b.pending, i.isTerminator = false ∧ Q i
  label : ∀ x ∈ b.label?, N x

variable {Q : Instr → Prop} {N : Text → Prop}

lemma Sound.finish (h : b.Sound Q N) (hN : ∀ n, N (numbered n)) {is : List Instr} (hne : is ≠ [])
    (hlast : ∀ i ∈ is.dropLast, i.isTerminator = false) (hQ : ∀ i ∈ is, Q i) :
    (⟨b.finished ++ [⟨b.label?.getD (numbered b.finished.length), is⟩], [], none⟩ : BlockBuilder).Sound Q N := by
  refine ⟨List.forall_mem_append.2 ⟨h.finished, ?_⟩, by simp, by simp⟩
  have hname : N (b.label?.getD (numbered b.finished.length)) := by
    cases hl : b.label? with
    | none => exact hN _
    | some x => exact h.label x hl
  simpa using ⟨⟨hne, hlast⟩, hQ, hname⟩

lemma Sound.close (h : b.Sound Q N) (hN : ∀ n, N (numbered n)) : b.close.Sound Q N := by
  by_cases hp : b.pending = []
  · rwa [close_of_pending hp]
  · rw [close_of_pending_ne hp]
    exact h.finish hN hp (fun i hi => (h.pending i (List.dropLast_subset _ hi)).1)
      fun i hi => (h.pending i hi).2

lemma Sound.feed (h : b.Sound Q N) (hN : ∀ n, N (numbered n)) {t : Item} (ht : t.Has Q N) :
    (b.feed t).Sound Q N := by
  cases t with
  | label x =>
    have hx : N x := ht
    have hc := h.close hN
    exact ⟨hc.finished, hc.pending, by simpa [BlockBuilder.feed, BlockBuilder.label] using hx⟩
  | instr i =>
    have hi : Q i := ht
    have hQ : ∀ j ∈ b.pending ++ [i], Q j :=
      List.forall_mem_append.2 ⟨fun j hj => (h.pending j hj).2, by simpa using hi⟩
    simp only [BlockBuilder.feed, add]
    split
    · rw [close_of_pending_ne (by simp)]
      exact h.finish hN (by simp) (by simpa using fun j hj => (h.pending j hj).1) hQ
    · rename_i hterm
      refine ⟨h.finished, List.forall_mem_append.2 ⟨h.pending, ?_⟩, h.label⟩
      simpa using And.intro (Bool.eq_false_iff.2 hterm) hi

lemma Sound.foldl_feed (h : b.Sound Q N) (hN : ∀ n, N (numbered n)) {ts : List Item}
    (ht : ∀ t ∈ ts, t.Has Q N) : (ts.foldl BlockBuilder.feed b).Sound Q N := by
  induction ts generalizing b with
  | nil => exact h
  | cons t ts ih =>
    obtain ⟨ht, hts⟩ := List.forall_mem_cons.1 ht
    exact ih (h.feed hN ht) hts

def content (b : BlockBuilder) : List Instr :=
  b.finished.flatMap Block.instrs ++ b.pending

lemma content_close : b.close.content = b.content := by
  by_cases h : b.pending = []
  · rw [close_of_pending h]
  · rw [close_of_pending_ne h]
    simp [content]

lemma content_feed (t : Item) : (b.feed t).content = b.content ++ t.instr?.toList := by
  cases t with
  | label x =>
    have hl : (b.feed (.label x)).content = b.close.content := rfl
    rw [hl, content_close]
    simp [Item.instr?]
  | instr i =>
    have hadd : (b.add i).content = b.content ++ [i] := by
      unfold add
      split
      · rw [content_close]
        simp [content]
      · simp [content]
    exact hadd

lemma content_foldl_feed (ts : List Item) :
    (ts.foldl feed b).content = b.content ++ ts.filterMap Item.instr? := by
  induction ts generalizing b with
  | nil => simp
  | cons t ts ih =>
    rw [List.foldl_cons, ih, content_feed]
    cases ht : t.instr? <;> simp [ht]

end BlockBuilder

namespace Block

lemma flatMap_instrs_ofItems (ts : List Item) :
    (ofItems ts).flatMap instrs = ts.filterMap Item.instr? := by
  have h := BlockBuilder.content_foldl_feed (b := {}) ts
  rw [← BlockBuilder.content_close] at h
  simpa [BlockBuilder.content, ofItems, BlockBuilder.blocks] using h

lemma ofItems_items {ks : List Block} (hk : ∀ k ∈ ks, k.Cut) : ofItems (ks.flatMap items) = ks := by
  have h := BlockBuilder.foldl_feed_blocks (b := {}) hk
  rw [BlockBuilder.close_of_pending (b := {}) rfl] at h
  exact h

lemma ofItems_sound {Q : Instr → Prop} {N : Text → Prop} (hN : ∀ n, N (BlockBuilder.numbered n))
    {ts : List Item} (ht : ∀ t ∈ ts, t.Has Q N) : ∀ k ∈ ofItems ts, k.Cut ∧ (∀ i ∈ k.instrs, Q i) ∧ N k.name := by
  have h0 : BlockBuilder.Sound Q N {} := ⟨by simp, by simp, by simp⟩
  exact ((h0.foldl_feed hN ht).close hN).finished

lemma cut_of_mem_ofItems {ts : List Item} {b : Block} (h : b ∈ ofItems ts) : b.Cut := by
  have hall : ∀ t ∈ ts, t.Has (fun _ => True) (fun _ => True) := fun t _ => by cases t <;> trivial
  exact (ofItems_sound (fun _ => trivial) hall b h).1

end Block

end BlockIR
