import BlockIR.FlowGraph
import BlockIR.Proofs.Except
import BlockIR.Proofs.Instr.Shape
import Mathlib.Data.List.Find

/-! What the flow graph reads of a function. Of a block with no terminator before its last instruction it
reads the name and the terminator, and instructions that have the shapes of their operations have all the
labels that it asks for. -/

namespace BlockIR

namespace Block

variable {b c : Block}

def exit? (b : Block) : Option Instr :=
  b.instrs.find? Instr.isTerminator

lemma exit?_eq_last? (h : ∀ i ∈ b.instrs.dropLast, i.isTerminator = false) :
    b.exit? = b.last?.filter Instr.isTerminator := by
  unfold exit? last?
  rcases List.eq_nil_or_concat b.instrs with hb | ⟨is, i, hb⟩
  · simp [hb]
  · rw [hb] at h ⊢
    have his : is.find? Instr.isTerminator = none := by simpa using h
    cases hi : i.isTerminator <;> simp [List.find?_append, Option.filter, his, hi]

lemma targets_of_not_terminator (h : ∀ i ∈ b.last?, i.isTerminator = false) (next : Text) :
    b.targets next = .ok [next] := by
  unfold targets
  split
  · rfl
  · rename_i i hi
    have ht := h i hi
    split <;> simp_all [Instr.isTerminator, Op.isTerminator]

lemma targets_eq_of_last? (h : b.last?.filter Instr.isTerminator = c.last?.filter Instr.isTerminator) :
    b.targets = c.targets := by
  funext next
  cases hb : b.last?.filter Instr.isTerminator with
  | none =>
    have hno {k : Block} (hk : k.last?.filter Instr.isTerminator = none) :
        ∀ i ∈ k.last?, i.isTerminator = false := by
      simpa [Option.filter_eq_none_iff] using hk
    rw [targets_of_not_terminator (hno hb), targets_of_not_terminator (hno (h ▸ hb))]
  | some i =>
    have hbi := (Option.filter_eq_some_iff.1 hb).1
    have hci := (Option.filter_eq_some_iff.1 (h ▸ hb)).1
    simp only [targets, hbi, hci]

/-- Where a block leads that another one follows: to the one label of its final jump, to the two of its final
branch in order, or else to the next block. -/
inductive LeadsTo (b : Block) (next : Text) : List Text → Prop
  | jump {i : Instr} {x : Text} : b.last? = some i → i.op = .jmp → i.labels = [x] → LeadsTo b next [x]
  | branch {i : Instr} {x y : Text} : b.last? = some i → i.op = .br → i.labels = [x, y] → LeadsTo b next [x, y]
  | fall : (∀ i ∈ b.last?, i.op ≠ .jmp ∧ i.op ≠ .br) → LeadsTo b next [next]

lemma exists_leadsTo (h : ∀ i ∈ b.instrs, i.shapeFault? = none) (next : Text) :
    ∃ xs, b.targets next = .ok xs ∧ b.LeadsTo next xs := by
  unfold targets
  split
  · rename_i hb
    exact ⟨_, rfl, .fall (by simp [hb])⟩
  · rename_i i hi
    have hl := (Instr.shapeFault?_eq_none_iff.1 (h i (List.mem_of_getLast? hi))).labels
    split
    · rename_i hop
      rw [hop] at hl
      obtain ⟨x, hx⟩ := List.length_eq_one_iff.1 hl
      exact ⟨[x], by simp [Instr.label, hx, bind, Except.bind, pure, Except.pure], .jump hi hop hx⟩
    · rename_i hop
      rw [hop] at hl
      obtain ⟨x, y, hxy⟩ := List.length_eq_two.1 hl
      exact ⟨[x, y], by simp [Instr.label, hxy, bind, Except.bind, pure, Except.pure], .branch hi hop hxy⟩
    · rename_i hjmp hbr
      exact ⟨_, rfl, .fall (by simpa [hi] using ⟨hjmp, hbr⟩)⟩

def IsEntry (b : Block) (next : Option Block) (xs : List Text) : Prop :=
  match next with
  | none => xs = []
  | some c => b.LeadsTo c.name xs

end Block

namespace FlowGraph

lemma edges_congr {bs cs : List Block}
    (h : List.Forall₂ (fun b c => b.name = c.name ∧ b.targets = c.targets) bs cs) : edges bs = edges cs := by
  induction h with
  | nil => rfl
  | cons hb hbs ih =>
    cases hbs with
    | nil => simp [edges, hb.1]
    | cons hc _ => simp only [edges, hb.1, hb.2, hc.1, ih]

lemma exists_edges {bs : List Block} (h : ∀ b ∈ bs, ∀ i ∈ b.instrs, i.shapeFault? = none) :
    ∃ es, edges bs = .ok es ∧ Table.keys es = bs.map Block.name ∧
      ∀ (i : Nat) (b : Block), bs[i]? = some b → ∃ xs, (b.name, xs) ∈ es ∧ b.IsEntry bs[i + 1]? xs := by
  fun_induction edges bs with
  | case1 => exact ⟨[], rfl, rfl, by simp⟩
  | case2 b =>
    refine ⟨_, rfl, rfl, ?_⟩
    rintro (_ | i) c hc
    · cases hc
      exact ⟨[], List.mem_cons_self, rfl⟩
    · cases hc
  | case3 b c bs ih =>
    obtain ⟨hb, hbs⟩ := List.forall_mem_cons.1 h
    obtain ⟨xs, hxs, hleads⟩ := Block.exists_leadsTo hb c.name
    obtain ⟨es, hes, hkeys, hentries⟩ := ih hbs
    refine ⟨(b.name, xs) :: es, bind_eq_ok.2 ⟨xs, hxs, bind_eq_ok.2 ⟨es, hes, rfl⟩⟩, congrArg (b.name :: ·) hkeys, ?_⟩
    rintro (_ | i) d hd
    · cases hd
      exact ⟨xs, List.mem_cons_self, hleads⟩
    · obtain ⟨ys, hys, hnext⟩ := hentries i d hd
      exact ⟨ys, List.mem_cons_of_mem _ hys, hnext⟩

end FlowGraph

end BlockIR
