import BlockIR.Proofs.Number.Decimal
import BlockIR.Proofs.Program.Cutting
import BlockIR.Proofs.Program.Flow

namespace BlockIR

namespace Table

variable {κ α : Type} [DecidableEq κ]

lemma set_of_not_mem {t : Table κ α} {x : κ} (h : x ∉ t.keys) (a : α) : t.set x a = t ++ [(x, a)] := by
  induction t with
  | nil => rfl
  | cons e t ih =>
    obtain ⟨hne, ht⟩ := not_or.1 (mt List.mem_cons.2 h)
    simp [set, Ne.symm hne, ih ht]

lemma foldl_set_of_nodup {t es : Table κ α} (h : (t ++ es).keys.Nodup) :
    es.foldl (fun t e => t.set e.1 e.2) t = t ++ es := by
  induction es generalizing t with
  | nil => simp
  | cons e es ih =>
    have hnew : e.1 ∉ t.keys := by
      rw [keys, List.map_append, List.map_cons] at h
      exact fun hmem => (List.nodup_append.1 h).2.2 _ hmem _ List.mem_cons_self rfl
    rw [List.foldl_cons, set_of_not_mem hnew, ih (by rwa [List.append_assoc]), List.append_assoc]
    rfl

lemma get?_of_mem {t : Table κ α} (h : t.keys.Nodup) {x : κ} {a : α} (hx : (x, a) ∈ t) : t.get? x = some a := by
  induction t with
  | nil => cases hx
  | cons e t ih =>
    obtain ⟨y, b⟩ := e
    obtain ⟨hnew, ht⟩ := List.nodup_cons.1 h
    rcases List.mem_cons.1 hx with he | hx
    · cases he
      simp [get?]
    · have hne : y ≠ x := by
        rintro rfl
        exact hnew (List.mem_map.2 ⟨_, hx, rfl⟩)
      simp [get?, hne, ih ht hx]

end Table

namespace Text

lemma lex_of_bytesLe {as bs : List UInt8} (h : bytesLe as bs) (hne : as ≠ bs) : List.Lex (· < ·) as bs := by
  induction as generalizing bs with
  | nil =>
    cases bs with
    | nil => exact absurd rfl hne
    | cons b bs => exact .nil
  | cons a as ih =>
    cases bs with
    | nil => cases h
    | cons b bs =>
      simp only [bytesLe] at h
      split at h
      · exact .rel (UInt8.lt_iff_toNat_lt.2 ‹_›)
      · split at h
        · cases h
        · obtain rfl : a = b := UInt8.toNat_inj.1 (by omega)
          exact .cons (ih h fun he => hne (congrArg (a :: ·) he))

lemma sorted_lex {xs : List Text} (h : xs.Nodup) :
    (sorted xs).Pairwise fun s t => List.Lex (· < ·) s.bytes t.bytes := by
  have hnodup : (sorted xs).Nodup := (sorted_perm xs).nodup_iff.2 h
  refine ((pairwise_sorted xs).and hnodup).imp ?_
  rintro s t ⟨hle, hne⟩
  exact lex_of_bytesLe hle fun he => hne (bytes_injective he)

end Text

namespace BlockBuilder

lemma numbered_injective {m n : Nat} (h : (numbered m : Text) = numbered n) : m = n := by
  have hlists := congrArg String.toList (Text.plain.inj h)
  simp only [numbered, Decimal.ofNat, String.toList_append, String.toList_ofList] at hlists
  exact Decimal.digits_injective (List.append_cancel_left hlists)

end BlockBuilder

/-- A name of the kind that blocks without a label get. -/
def Text.IsNumbered (x : Text) : Prop :=
  ∃ ds, ds ≠ [] ∧ (∀ c ∈ ds, Decimal.isDigit c = true) ∧ x = .plain ("block_" ++ String.ofList ds)

lemma Text.isNumbered_plain {s : String} : (plain s).IsNumbered ↔ s.toList.take 6 = "block_".toList ∧
    s.toList.drop 6 ≠ [] ∧ (s.toList.drop 6).all Decimal.isDigit = true := by
  constructor
  · rintro ⟨ds, hne, hd, h⟩
    obtain rfl : s = "block_" ++ String.ofList ds := plain.inj h
    simpa using ⟨hne, hd⟩
  · rintro ⟨htake, hne, hd⟩
    refine ⟨_, hne, List.all_eq_true.1 hd, congrArg plain (String.toList_injective ?_)⟩
    rw [String.toList_append, ← htake, String.toList_ofList, List.take_append_drop]

instance : DecidablePred Text.IsNumbered
  | .plain _ => decidable_of_iff _ Text.isNumbered_plain.symm
  | .broken _ _ => isFalse fun ⟨_, _, _, h⟩ => Text.noConfusion h

lemma BlockBuilder.isNumbered_numbered (n : Nat) : Text.IsNumbered (numbered n) :=
  ⟨Decimal.digits n, Decimal.digits_ne_nil n, Decimal.isDigit_of_mem_digits, rfl⟩

def Item.label? : Item → Option Text
  | .label x => some x
  | .instr _ => none

lemma Labelled.labels_ofItemsAfter (xs : List Text) (ts : List Item) :
    (ofItemsAfter xs ts).flatMap labels <+: xs ++ ts.filterMap Item.label? := by
  induction ts generalizing xs with
  | nil => exact List.nil_prefix
  | cons t ts ih =>
    cases t with
    | label x => simpa [ofItemsAfter, Item.label?] using ih (xs ++ [x])
    | instr i => simpa [ofItemsAfter, Item.label?, List.filterMap_cons] using ih []

namespace Block

lemma name_of_group (k : Nat) (g : List Labelled) {x : Text}
    (h : (g.head?.bind (·.labels.getLast?)).getD (BlockBuilder.numbered k) = x) :
    x ∈ g.flatMap Labelled.labels ∨ x = BlockBuilder.numbered k := by
  cases hx : g.head?.bind (·.labels.getLast?) with
  | none =>
    rw [hx] at h
    exact .inr h.symm
  | some y =>
    rw [hx] at h
    obtain rfl : y = x := h
    obtain ⟨a, ha, hy⟩ := Option.bind_eq_some_iff.1 hx
    exact .inl (List.mem_flatMap.2 ⟨a, List.mem_of_mem_head? ha, List.mem_of_getLast? hy⟩)

lemma name_of_mem_ofGroups {k : Nat} {gs : List (List Labelled)} {b : Block} (hb : b ∈ ofGroups k gs) :
    b.name ∈ gs.flatten.flatMap Labelled.labels ∨ ∃ n, k ≤ n ∧ b.name = BlockBuilder.numbered n := by
  induction gs generalizing k with
  | nil => cases hb
  | cons g gs ih =>
    rw [List.flatten_cons, List.flatMap_append, List.mem_append]
    rcases List.mem_cons.1 hb with rfl | hb
    · exact (name_of_group k g rfl).imp .inl fun hname => ⟨k, Nat.le_refl k, hname⟩
    · exact (ih hb).imp .inr fun ⟨n, hn, hname⟩ => ⟨n, by omega, hname⟩

lemma nodup_names_ofGroups {k : Nat} {gs : List (List Labelled)} (hl : (gs.flatten.flatMap Labelled.labels).Nodup)
    (hn : ∀ x ∈ gs.flatten.flatMap Labelled.labels, ¬ x.IsNumbered) : ((ofGroups k gs).map name).Nodup := by
  induction gs generalizing k with
  | nil => exact List.nodup_nil
  | cons g gs ih =>
    rw [List.flatten_cons, List.flatMap_append] at hl hn
    obtain ⟨_, hlater, hdisjoint⟩ := List.nodup_append.1 hl
    obtain ⟨hng, hngs⟩ := List.forall_mem_append.1 hn
    refine List.nodup_cons.2 ⟨fun hmem => ?_, ih hlater hngs⟩
    obtain ⟨b, hb, hname⟩ := List.mem_map.1 hmem
    rcases name_of_group k g hname.symm with hfirst | hfirst
    · rcases name_of_mem_ofGroups hb with hb | ⟨n, _, hb⟩
      · exact hdisjoint _ hfirst _ hb rfl
      · exact hng _ hfirst (hb ▸ BlockBuilder.isNumbered_numbered n)
    · rcases name_of_mem_ofGroups hb with hb | ⟨n, hlt, hb⟩
      · exact hngs _ hb (hfirst ▸ BlockBuilder.isNumbered_numbered k)
      · have := BlockBuilder.numbered_injective (hfirst.symm.trans hb)
        omega

lemma nodup_names_ofItems {ts : List Item} (hl : (ts.filterMap Item.label?).Nodup)
    (hn : ∀ x ∈ ts.filterMap Item.label?, ¬ x.IsNumbered) : ((ofItems ts).map name).Nodup := by
  have hlabels : ((Labelled.ofItems ts).splitBy Labelled.joins).flatten.flatMap Labelled.labels <+:
      ts.filterMap Item.label? := by
    rw [List.flatten_splitBy]
    exact Labelled.labels_ofItemsAfter [] ts
  rw [ofItems_eq_ofGroups]
  exact nodup_names_ofGroups (hlabels.sublist.nodup hl) fun x hx => hn x (hlabels.subset hx)

end Block

namespace Decode

def label? : Tree → Option Text
  | .object fields =>
    match Table.get? fields "op", Table.get? fields "label" with
    | none, some (.text x) => some x
    | _, _ => none
  | _ => none

def labels : Tree → List Text
  | .object fields => (((Table.get? fields "instrs").bind Tree.items?).getD []).filterMap label?
  | _ => []

lemma ItemRecord.label? {t : Tree} {it : Item} (h : ItemRecord t it) : Decode.label? t = it.label? := by
  cases h with
  | instr hi =>
    obtain ⟨t, ht, _⟩ := hi.op
    simp [Decode.label?, ht, Item.label?]
  | label hop hx =>
    obtain ⟨t, ht, hx⟩ := hx
    cases t <;> cases hx
    simp [Decode.label?, hop, ht, Item.label?]

lemma ItemRecord.shaped {t : Tree} {it : Item} (h : ItemRecord t it) :
    it.Has (fun i => i.shapeFault? = none) fun _ => True := by
  cases h with
  | instr hi => exact hi.shape
  | label _ _ => trivial

lemma Reads.labels {ts : List Tree} {its : List Item} (h : Reads item ts its) :
    ts.filterMap label? = its.filterMap Item.label? := by
  induction h with
  | nil => rfl
  | cons hit _ ih => rw [List.filterMap_cons, List.filterMap_cons, (item_ok.1 hit).label?, ih]

lemma Reads.shaped {ts : List Tree} {its : List Item} (h : Reads item ts its) :
    ∀ it ∈ its, it.Has (fun i => i.shapeFault? = none) fun _ => True := by
  induction h with
  | nil => simp
  | cons hit _ ih => exact List.forall_mem_cons.2 ⟨(item_ok.1 hit).shaped, ih⟩

lemma MayHave.items {fields : Table String Tree} {key : String} {ts : Option (List Tree)}
    (h : MayHave asList fields key ts) : (fields.get? key).bind Tree.items? = ts := by
  cases ts with
  | none => rw [show fields.get? key = none from h, Option.bind_none]
  | some ts =>
    obtain ⟨t, ht, hts⟩ := h
    rw [ht, Option.bind_some]
    unfold asList asListAt at hts
    split at hts
    · cases hts
      assumption
    · cases hts

lemma FuncRecord.exists_items {t : Tree} {f : Func} (h : FuncRecord t f) : ∃ its, f.blocks = Block.ofItems its ∧
    labels t = its.filterMap Item.label? ∧ ∀ it ∈ its, it.Has (fun i => i.shapeFault? = none) fun _ => True := by
  obtain @⟨fields, x, ps, ret, ts, its, _, _, _, hts, hits⟩ := h
  refine ⟨its, rfl, ?_, ?_⟩
  · rw [labels, hts.items, Reads.labels hits]
  · exact Reads.shaped hits

/-- If the labels of a function record differ from each other and from the names that blocks without a label
get, then its blocks have different names, and the flow graph has one entry for each of them. -/
theorem func_flowGraph_entries (t : Tree) (f : Func) (h : func t = .ok f) (hl : (labels t).Nodup)
    (hn : ∀ x ∈ labels t, ¬ x.IsNumbered) : (f.blocks.map Block.name).Nodup ∧
    ∃ g, f.flowGraph = .ok g ∧ g.keys = f.blocks.map Block.name ∧
      (∀ (i : Nat) (b : Block), f.blocks[i]? = some b →
        ∃ xs, g.get? b.name = some xs ∧ b.IsEntry f.blocks[i + 1]? xs) ∧
      g.nodes.Perm (f.blocks.map Block.name) ∧
      g.nodes.Pairwise fun x y => List.Lex (· < ·) x.bytes y.bytes := by
  obtain ⟨its, hblocks, hlabels, hshaped⟩ := (func_ok.1 h).exists_items
  rw [hlabels] at hl hn
  have hnodup : (f.blocks.map Block.name).Nodup := hblocks ▸ Block.nodup_names_ofItems hl hn
  have hinstrs : ∀ b ∈ f.blocks, ∀ i ∈ b.instrs, i.shapeFault? = none := by
    intro b hb
    rw [hblocks] at hb
    exact (Block.ofItems_sound (fun _ => trivial) hshaped b hb).2.1
  obtain ⟨es, hes, hkeys, hentries⟩ := FlowGraph.exists_edges hinstrs
  have hgraph : FlowGraph.ofEdges es = es := Table.foldl_set_of_nodup (t := []) (hkeys ▸ hnodup)
  refine ⟨hnodup, es, ?_, hkeys, ?_, ?_, ?_⟩
  · rw [Func.flowGraph, hes, Except.map, hgraph]
  · intro i b hb
    obtain ⟨xs, hxs, hnext⟩ := hentries i b hb
    exact ⟨xs, Table.get?_of_mem (hkeys ▸ hnodup) hxs, hnext⟩
  · exact hkeys ▸ Text.sorted_perm _
  · exact Text.sorted_lex (hkeys ▸ hnodup)

theorem func_flowGraph_entries_lookalikes :
    let record (op : String) (labels : List Text) : Tree :=
      .object [("op", .text op), ("labels", .texts labels), ("args", .texts (if op = "br" then ["c"] else []))]
    let label (x : String) : Tree := .object [("label", .text x)]
    let t : Tree := .object [("name", .text "f"), ("instrs", .list
      [record "nop" [], label "block_", record "jmp" ["b"], record "nop" [], label "b",
        record "br" ["block_", "block_-1"], label "block_x", label "block_-1", record "ret" [], record "nop" []])]
    let graph : List (Text × List Text) := [("block_0", ["block_"]), ("block_", ["b"]), ("block_2", ["b"]),
      ("b", ["block_", "block_-1"]), ("block_-1", ["block_5"]), ("block_5", [])]
    labels t = ["block_", "b", "block_x", "block_-1"] ∧ (∀ x ∈ labels t, ¬ x.IsNumbered) ∧
      ∃ f g, func t = .ok f ∧ (f.blocks.map Block.name).Nodup ∧ f.flowGraph = .ok g ∧ g = graph ∧
        g.nodes.Pairwise fun x y => List.Lex (· < ·) x.bytes y.bytes := by
  intro record label t graph
  have hl : labels t = ["block_", "b", "block_x", "block_-1"] := by decide +kernel
  have hn : ∀ x ∈ labels t, ¬ x.IsNumbered := by
    rw [hl]
    decide +kernel
  have hgraph : ((func t).toOption.bind fun f => f.flowGraph.toOption) = some graph := by decide +kernel
  cases hf : func t with
  | error e =>
    rw [hf] at hgraph
    cases hgraph
  | ok f =>
    obtain ⟨hnodup, g, hg, _, _, _, hsorted⟩ := func_flowGraph_entries t f hf (by rw [hl]; decide) hn
    rw [hf] at hgraph
    simp only [Except.toOption, Option.bind_some, hg] at hgraph
    exact ⟨hl, hn, f, g, rfl, hnodup, hg, Option.some.inj hgraph, hsorted⟩

end Decode

end BlockIR
