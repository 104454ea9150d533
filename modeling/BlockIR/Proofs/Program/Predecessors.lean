import BlockIR.Proofs.Program.Successors

namespace BlockIR

namespace Table

variable {κ α : Type} [DecidableEq κ] {s t : Table κ α} {x y : κ} {a : α}

lemma keys_set_of_mem (h : x ∈ t.keys) (a : α) : (t.set x a).keys = t.keys := by
  induction t with
  | nil => cases h
  | cons e t ih =>
    obtain ⟨y, b⟩ := e
    by_cases hy : y = x
    · simp [set, keys, hy]
    · have hx : x ∈ keys t := (List.mem_cons.1 h).resolve_left (Ne.symm hy)
      simp only [set, hy, if_false]
      exact congrArg (y :: ·) (ih hx)

lemma mem_keys_set : y ∈ (t.set x a).keys ↔ y = x ∨ y ∈ t.keys := by
  by_cases hx : x ∈ t.keys
  · rw [keys_set_of_mem hx]
    exact ⟨.inr, fun h => h.elim (· ▸ hx) id⟩
  · simp [set_of_not_mem hx, keys, or_comm]

lemma nodup_keys_set (h : t.keys.Nodup) (x : κ) (a : α) : (t.set x a).keys.Nodup := by
  by_cases hx : x ∈ t.keys
  · rwa [keys_set_of_mem hx]
  · rw [set_of_not_mem hx, keys, List.map_append]
    exact (List.perm_append_singleton x t.keys).nodup_iff.2 (List.nodup_cons.2 ⟨hx, h⟩)

lemma mem_of_get? (h : t.get? x = some a) : (x, a) ∈ t := by
  induction t with
  | nil => cases h
  | cons e t ih =>
    obtain ⟨y, b⟩ := e
    by_cases hy : y = x
    · simp only [get?, hy, if_true, Option.some.injEq] at h
      rw [hy, h]
      exact List.mem_cons_self
    · simp only [get?, hy, if_false] at h
      exact List.mem_cons_of_mem _ (ih h)

lemma mem_keys_of_get? (h : t.get? x = some a) : x ∈ t.keys :=
  List.mem_map.2 ⟨_, mem_of_get? h, rfl⟩

lemma get?_eq_of_perm (h : s.Perm t) (ht : t.keys.Nodup) : s.get? = t.get? := by
  have hs : s.keys.Nodup := (h.map Prod.fst).nodup_iff.2 ht
  funext x
  ext a
  exact ⟨fun hx => get?_of_mem ht (h.subset (mem_of_get? hx)),
    fun hx => get?_of_mem hs (h.symm.subset (mem_of_get? hx))⟩

end Table

namespace Text

lemma sorted_eq {xs ys : List Text} (h : xs.Perm ys) (hs : ys.Pairwise fun s t => le s t) : sorted xs = ys :=
  ((sorted_perm xs).trans h).eq_of_pairwise (fun _ _ _ _ => le_antisymm) (pairwise_sorted xs) hs

end Text

namespace FlowGraph

variable {g h : FlowGraph} {u v x y : Text} {xs ys : List Text}

lemma successors_touch : (h.touch x).successors v = h.successors v := by
  unfold touch
  split
  · rfl
  · rename_i hx
    by_cases hv : x = v
    · subst hv
      rw [Option.not_isSome_iff_eq_none] at hx
      simp [successors, Table.get?_set, hx]
    · simp [successors, Table.get?_set, hv]

lemma mem_keys_touch : v ∈ (h.touch x).keys ↔ v = x ∨ v ∈ h.keys := by
  unfold touch
  split
  · rename_i hx
    obtain ⟨a, ha⟩ := Option.isSome_iff_exists.1 hx
    exact ⟨.inr, fun hv => hv.elim (· ▸ Table.mem_keys_of_get? ha) id⟩
  · exact Table.mem_keys_set

lemma successors_addEdge :
    (addEdge x h y).successors v = h.successors v ++ List.replicate ([y].count v) x := by
  by_cases hv : y = v
  · simp [addEdge, successors, Table.get?_set, hv]
  · simp [addEdge, successors, Table.get?_set, hv]

lemma successors_foldl_addEdge :
    (ys.foldl (addEdge x) h).successors v = h.successors v ++ List.replicate (ys.count v) x := by
  induction ys generalizing h with
  | nil => simp
  | cons y ys ih =>
    rw [List.foldl_cons, ih, successors_addEdge, List.append_assoc, List.replicate_append_replicate,
      ← List.count_append, List.singleton_append]

lemma mem_keys_foldl_addEdge : v ∈ (ys.foldl (addEdge x) h).keys ↔ v ∈ ys ∨ v ∈ h.keys := by
  induction ys generalizing h with
  | nil => simp
  | cons y ys ih => rw [List.foldl_cons, ih, addEdge, Table.mem_keys_set, List.mem_cons, or_left_comm, or_assoc]

lemma nodup_keys_foldl_addEdge (hh : h.keys.Nodup) : (ys.foldl (addEdge x) h).keys.Nodup := by
  induction ys generalizing h with
  | nil => exact hh
  | cons y ys ih => exact ih (Table.nodup_keys_set hh _ _)

def turn (g h : FlowGraph) (x : Text) : FlowGraph :=
  (g.successors x).foldl (addEdge x) (h.touch x)

lemma predecessors_eq (g : FlowGraph) : g.predecessors = g.nodes.foldl g.turn [] := rfl

lemma successors_turn :
    (g.turn h x).successors v = h.successors v ++ List.replicate ((g.successors x).count v) x := by
  rw [turn, successors_foldl_addEdge, successors_touch]

lemma mem_keys_turn : v ∈ (g.turn h x).keys ↔ v = x ∨ v ∈ g.successors x ∨ v ∈ h.keys := by
  rw [turn, mem_keys_foldl_addEdge, mem_keys_touch, or_left_comm]

lemma nodup_keys_turn (hh : h.keys.Nodup) : (g.turn h x).keys.Nodup := by
  refine nodup_keys_foldl_addEdge ?_
  unfold touch
  split
  · exact hh
  · exact Table.nodup_keys_set hh x []

lemma successors_foldl_turn : (xs.foldl g.turn h).successors v =
    h.successors v ++ xs.flatMap fun x => List.replicate ((g.successors x).count v) x := by
  induction xs generalizing h with
  | nil => simp
  | cons x xs ih => rw [List.foldl_cons, ih, successors_turn, List.append_assoc, List.flatMap_cons]

lemma mem_keys_foldl_turn :
    v ∈ (xs.foldl g.turn h).keys ↔ (∃ x ∈ xs, v = x ∨ v ∈ g.successors x) ∨ v ∈ h.keys := by
  induction xs generalizing h with
  | nil => simp
  | cons x xs ih =>
    rw [List.foldl_cons, ih, mem_keys_turn, List.exists_mem_cons_iff]
    simp only [or_assoc, or_left_comm]

lemma nodup_keys_foldl_turn (hh : h.keys.Nodup) : (xs.foldl g.turn h).keys.Nodup := by
  induction xs generalizing h with
  | nil => exact hh
  | cons x xs ih => exact ih (nodup_keys_turn hh)

lemma successors_predecessors (g : FlowGraph) (v : Text) : g.predecessors.successors v =
    g.nodes.flatMap fun x => List.replicate ((g.successors x).count v) x := by
  rw [predecessors_eq, successors_foldl_turn]
  rfl

lemma mem_nodes : x ∈ g.nodes ↔ x ∈ g.keys :=
  (Text.sorted_perm _).mem_iff

lemma successors_of_not_mem (hx : x ∉ g.keys) : g.successors x = [] := by
  unfold successors
  cases hg : g.get? x with
  | none => rfl
  | some ys => exact absurd (Table.mem_keys_of_get? hg) hx

lemma count_flatMap_replicate {n : Text → Nat} (hxs : xs.Nodup) :
    (xs.flatMap fun x => List.replicate (n x) x).count u = if u ∈ xs then n u else 0 := by
  induction xs with
  | nil => rfl
  | cons x xs ih =>
    obtain ⟨hx, hxs⟩ := List.nodup_cons.1 hxs
    rw [List.flatMap_cons, List.count_append, ih hxs, List.count_replicate]
    by_cases hu : x = u
    · subst hu
      simp [hx]
    · simp [hu, Ne.symm hu]

lemma count_predecessors (hg : g.keys.Nodup) (u v : Text) :
    (g.predecessors.successors v).count u = (g.successors u).count v := by
  have hnodes : g.nodes.Nodup := (Text.sorted_perm _).nodup_iff.2 hg
  rw [successors_predecessors, count_flatMap_replicate hnodes]
  split
  · rfl
  · rename_i hu
    rw [successors_of_not_mem (mt mem_nodes.2 hu), List.count_nil]

lemma pairwise_predecessors (g : FlowGraph) (v : Text) :
    (g.predecessors.successors v).Pairwise fun x y => Text.le x y := by
  rw [successors_predecessors, List.pairwise_flatMap]
  refine ⟨fun x _ => ?_, (Text.pairwise_sorted _).imp ?_⟩
  · refine List.pairwise_replicate.2 (.inr ?_)
    simpa using Text.le_total x x
  · intro x y hxy a ha b hb
    rwa [List.eq_of_mem_replicate ha, List.eq_of_mem_replicate hb]

lemma mem_keys_predecessors : v ∈ g.predecessors.keys ↔ v ∈ g.keys ∨ ∃ u, v ∈ g.successors u := by
  rw [predecessors_eq, mem_keys_foldl_turn]
  constructor
  · rintro (⟨x, hx, rfl | hv⟩ | hv)
    · exact .inl (mem_nodes.1 hx)
    · exact .inr ⟨x, hv⟩
    · cases hv
  · rintro (hv | ⟨u, hv⟩)
    · exact .inl ⟨v, mem_nodes.2 hv, .inl rfl⟩
    · refine .inl ⟨u, mem_nodes.2 ?_, .inr hv⟩
      by_contra hu
      rw [successors_of_not_mem hu] at hv
      cases hv

lemma predecessors_eq_of_perm (hg : g.keys.Nodup) (hh : h.Perm g) : h.predecessors = g.predecessors := by
  have hkeys : h.keys.Perm g.nodes := (hh.map Prod.fst).trans (Text.sorted_perm _).symm
  have hnodes : h.nodes = g.nodes := Text.sorted_eq hkeys (Text.pairwise_sorted _)
  have hturn : h.turn = g.turn := by
    funext k x
    rw [turn, turn, successors, successors, Table.get?_eq_of_perm hh hg]
  rw [predecessors_eq, predecessors_eq, hnodes, hturn]

/-- The lists of predecessors hold every edge of the graph once for each time it is listed. There is one for
every block and for every name that a block leads to, it is in lexicographic order, and the order in which the
entries of the graph are met has no influence. -/
theorem predecessors_transpose (g : FlowGraph) (hg : g.keys.Nodup) :
    (∀ u v, (g.predecessors.successors v).count u = (g.successors u).count v) ∧
    g.predecessors.keys.Nodup ∧
    (∀ v, v ∈ g.predecessors.keys ↔ v ∈ g.keys ∨ ∃ u, v ∈ g.successors u) ∧
    (∀ v, (g.predecessors.successors v).Pairwise fun x y => x = y ∨ List.Lex (· < ·) x.bytes y.bytes) ∧
    ∀ h : FlowGraph, h.Perm g → h.predecessors = g.predecessors := by
  refine ⟨count_predecessors hg, nodup_keys_foldl_turn List.nodup_nil, fun v => mem_keys_predecessors, ?_,
    fun h hh => predecessors_eq_of_perm hg hh⟩
  intro v
  refine (pairwise_predecessors g v).imp fun {x y} hxy => ?_
  by_cases he : x = y
  · exact .inl he
  · exact .inr (Text.lex_of_bytesLe hxy fun hb => he (Text.bytes_injective hb))

lemma nodup_keys_ofEdges (es : List (Text × List Text)) : (ofEdges es).keys.Nodup := by
  have hset (t : FlowGraph) (ht : t.keys.Nodup) : (es.foldl (fun g e => g.set e.1 e.2) t).keys.Nodup := by
    induction es generalizing t with
    | nil => exact ht
    | cons e es ih => exact ih _ (Table.nodup_keys_set ht e.1 e.2)
  exact hset [] List.nodup_nil

lemma nodup_keys_of_flowGraph {f : Func} (hf : f.flowGraph = .ok g) : g.keys.Nodup := by
  obtain ⟨es, _, rfl⟩ := map_eq_ok.1 hf
  exact nodup_keys_ofEdges es

theorem predecessors_transpose_dangling :
    let branch (x y : Text) : Instr := { op := .br, args := ["p"], labels := [x, y] }
    let f : Func :=
      { name := "f"
        blocks := [⟨"b", [branch "b" "b"]⟩, ⟨"c", [branch "b" "a"]⟩, ⟨"a", [branch "a" "gone"]⟩, ⟨"d", []⟩] }
    let g : FlowGraph := [("b", ["b", "b"]), ("c", ["b", "a"]), ("a", ["a", "gone"]), ("d", [])]
    let turned : FlowGraph := [("a", ["a", "c"]), ("gone", ["a"]), ("b", ["b", "b", "c"]), ("c", []), ("d", [])]
    f.flowGraph = .ok g ∧ g.keys.Nodup ∧ g.predecessors = turned ∧
      (∀ u v, (turned.successors v).count u = (g.successors u).count v) ∧ predecessors g.reverse = turned := by
  intro branch f g turned
  have hf : f.flowGraph = .ok g := toOption_eq_some.1 (by decide +kernel)
  have hg : g.keys.Nodup := nodup_keys_of_flowGraph hf
  have hnodes : g.nodes = ["a", "b", "c", "d"] := Text.sorted_eq (by decide) (by decide +kernel)
  have hturned : g.predecessors = turned := by
    rw [predecessors_eq, hnodes]
    decide +kernel
  obtain ⟨hcount, _, _, _, horder⟩ := predecessors_transpose g hg
  rw [hturned] at hcount horder
  exact ⟨hf, hg, hturned, hcount, horder _ (List.reverse_perm g)⟩

end FlowGraph

end BlockIR
