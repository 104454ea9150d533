import BlockIR.Pass.DeadStore
import Mathlib.Tactic.Lemma
import Mathlib.Tactic.Common

/-! The scan for overwritten definitions marks a definition if and only if the first instruction after it that
mentions its variable writes it without reading it. -/

namespace BlockIR

/-- Whether the first of some instructions that mentions `x` writes it without reading it. -/
def overwritten (x : Text) : List Instr → Bool
  | [] => false
  | i :: is => if x ∈ i.args then false else if i.dest = some x then true else overwritten x is

lemma overwritten_cons {x : Text} {i : Instr} {is : List Instr} :
    overwritten x (i :: is) = true ↔ x ∉ i.args ∧ (i.dest = some x ∨ overwritten x is = true) := by
  by_cases ha : x ∈ i.args <;> by_cases hd : i.dest = some x <;> simp [overwritten, ha, hd]

lemma Table.get?_foldl_erase {κ α : Type} [DecidableEq κ] (t : Table κ α) (xs : List κ) (x : κ) :
    (xs.foldl erase t).get? x = if x ∈ xs then none else t.get? x := by
  induction xs generalizing t with
  | nil => simp
  | cons y xs ih =>
    rw [List.foldl_cons, ih, get?_erase]
    by_cases hx : x ∈ xs <;> by_cases hy : x = y <;> simp [hx, hy, eq_comm]

namespace StoreScan

variable {s : StoreScan} {k j : Nat} {i : Instr} {is : List Instr} {x : Text}

def Marked (s : StoreScan) (j : Nat) : Prop :=
  s.dead[j]? = some true

def Bounded (s : StoreScan) : Prop :=
  ∀ x j, s.pending.get? x = some j → j < s.dead.length

@[simp] lemma length_dead_step (s : StoreScan) (k : Nat) (i : Instr) :
    (s.step k i).dead.length = s.dead.length := by
  unfold step
  cases i.dest with
  | none => rfl
  | some x =>
    simp only [write]
    split
    · rfl
    · exact List.length_set

@[simp] lemma length_dead_run (s : StoreScan) (k : Nat) (is : List Instr) :
    (s.run k is).dead.length = s.dead.length := by
  induction is generalizing s k with
  | nil => rfl
  | cons i is ih => rw [run, ih, length_dead_step]

lemma pending_read {xs : List Text} :
    (s.read xs).pending.get? x = some j ↔ x ∉ xs ∧ s.pending.get? x = some j := by
  rw [read, Table.get?_foldl_erase]
  by_cases hx : x ∈ xs <;> simp [hx]

lemma pending_step : (s.step k i).pending.get? x = some j ↔
    i.dest = some x ∧ j = k ∨ i.dest ≠ some x ∧ x ∉ i.args ∧ s.pending.get? x = some j := by
  unfold step
  cases i.dest with
  | none => simp [pending_read]
  | some y =>
    by_cases hy : y = x
    · simp [write, Table.get?_set, hy, eq_comm]
    · simp [write, Table.get?_set, hy, pending_read]

lemma marked_write (h : s.Bounded) : (s.write k x).Marked j ↔ s.Marked j ∨ s.pending.get? x = some j := by
  unfold write Marked
  cases hp : s.pending.get? x with
  | none => simp
  | some m =>
    have hm : m < s.dead.length := h x m hp
    by_cases hj : m = j
    · subst hj
      simp [hm]
    · simp [hj]

lemma Bounded.read (h : s.Bounded) (xs : List Text) : (s.read xs).Bounded :=
  fun x j hx => h x j (pending_read.1 hx).2

lemma marked_step (h : s.Bounded) : (s.step k i).Marked j ↔
    s.Marked j ∨ ∃ x, i.dest = some x ∧ x ∉ i.args ∧ s.pending.get? x = some j := by
  unfold step
  cases i.dest with
  | none => simp [Marked, read]
  | some y =>
    simp only [marked_write (h.read i.args), pending_read]
    simp [Marked, read]

lemma Bounded.step (h : s.Bounded) (hk : k < s.dead.length) (i : Instr) : (s.step k i).Bounded := by
  intro x j hx
  rw [length_dead_step]
  rcases pending_step.1 hx with ⟨_, rfl⟩ | ⟨_, _, hj⟩
  · exact hk
  · exact h x j hj

lemma marked_run (h : s.Bounded) (hk : k + is.length ≤ s.dead.length) : (s.run k is).Marked j ↔
    s.Marked j ∨ (∃ x, s.pending.get? x = some j ∧ overwritten x is = true) ∨
      ∃ m i x, j = k + m ∧ is[m]? = some i ∧ i.dest = some x ∧ overwritten x (is.drop (m + 1)) = true := by
  -- Over the instructions to come, since they alone decide about what is pending.
  induction is generalizing s k with
  | nil => simp [run, overwritten]
  | cons i is ih =>
    rw [List.length_cons] at hk
    rw [run, ih (h.step (by omega) i) (by rw [length_dead_step]; omega), marked_step h]
    constructor
    · rintro ((hs | ⟨x, hd, ha, hp⟩) | ⟨x, hp, ho⟩ | ⟨m, i', x, rfl, hi, hd, ho⟩)
      · exact .inl hs
      · exact .inr (.inl ⟨x, hp, overwritten_cons.2 ⟨ha, .inl hd⟩⟩)
      · rcases pending_step.1 hp with ⟨hd, rfl⟩ | ⟨_, ha, hp⟩
        · exact .inr (.inr ⟨0, i, x, rfl, rfl, hd, ho⟩)
        · exact .inr (.inl ⟨x, hp, overwritten_cons.2 ⟨ha, .inr ho⟩⟩)
      · exact .inr (.inr ⟨m + 1, i', x, by omega, hi, hd, ho⟩)
    · rintro (hs | ⟨x, hp, ho⟩ | ⟨_ | m, i', x, rfl, hi, hd, ho⟩)
      · exact .inl (.inl hs)
      · obtain ⟨ha, ho⟩ := overwritten_cons.1 ho
        by_cases hd : i.dest = some x
        · exact .inl (.inr ⟨x, hd, ha, hp⟩)
        · exact .inr (.inl ⟨x, pending_step.2 (.inr ⟨hd, ha, hp⟩), ho.resolve_left hd⟩)
      · cases hi
        exact .inr (.inl ⟨x, pending_step.2 (.inl ⟨hd, rfl⟩), ho⟩)
      · exact .inr (.inr ⟨m, i', x, by omega, hi, hd, ho⟩)

end StoreScan

def storeMarks : List Instr → List Bool
  | [] => []
  | i :: is => (i.dest.any fun x => overwritten x is) :: storeMarks is

lemma length_storeMarks (is : List Instr) : (storeMarks is).length = is.length := by
  induction is with
  | nil => rfl
  | cons i is ih => rw [storeMarks, List.length_cons, List.length_cons, ih]

lemma getElem?_storeMarks {is : List Instr} {m : Nat} : (storeMarks is)[m]? = some true ↔
    ∃ i x, is[m]? = some i ∧ i.dest = some x ∧ overwritten x (is.drop (m + 1)) = true := by
  induction is generalizing m with
  | nil => simp [storeMarks]
  | cons i is ih =>
    cases m with
    | zero => simp [storeMarks, Option.any_eq_true]
    | succ m => simpa [storeMarks] using ih

lemma eq_of_getElem?_true {as bs : List Bool} (hl : as.length = bs.length)
    (h : ∀ m : Nat, as[m]? = some true ↔ bs[m]? = some true) : as = bs := by
  refine List.ext_getElem hl fun m ha hb => ?_
  have hm := h m
  rw [List.getElem?_eq_getElem ha, List.getElem?_eq_getElem hb, Option.some.injEq, Option.some.injEq] at hm
  exact Bool.eq_iff_iff.2 hm

lemma dead_ofInstrs (is : List Instr) : (StoreScan.ofInstrs is).dead = storeMarks is := by
  refine eq_of_getElem?_true (by simp [StoreScan.ofInstrs, length_storeMarks]) fun m => ?_
  have hb : ({ dead := List.replicate is.length false } : StoreScan).Bounded := by
    intro x j hx
    cases hx
  have hm : (StoreScan.ofInstrs is).Marked m ↔ _ := StoreScan.marked_run hb (by simp)
  rw [StoreScan.Marked] at hm
  rw [hm, getElem?_storeMarks]
  simp [StoreScan.Marked, List.getElem?_replicate]

lemma dropOverwritten_cons (i : Instr) (is : List Instr) : dropOverwritten (i :: is) =
    if i.dest.any fun x => overwritten x is then dropOverwritten is else i :: dropOverwritten is := by
  rw [dropOverwritten, dropOverwritten, dead_ofInstrs, dead_ofInstrs, storeMarks, unmarked]

end BlockIR
