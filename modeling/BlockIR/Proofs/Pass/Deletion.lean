import BlockIR.Proofs.Pass.NormalForm

namespace BlockIR

/-- The instruction at `k` defines a variable that a later one, at `n`, defines again, and none after `k` and
up to `n` reads it. -/
def DeadStoreAt (is : List Instr) (k : Nat) : Prop :=
  ∃ (x : Text) (i j : Instr) (n : Nat), is[k]? = some i ∧ i.dest = some x ∧ k < n ∧ is[n]? = some j ∧
    j.dest = some x ∧ ∀ m l, k < m → m ≤ n → is[m]? = some l → x ∉ l.args

lemma eq_append_cons_of_getElem? {is : List Instr} {k : Nat} {i : Instr} (h : is[k]? = some i) :
    ∃ as bs, is = as ++ i :: bs ∧ as.length = k := by
  obtain ⟨hk, rfl⟩ := List.getElem?_eq_some_iff.1 h
  refine ⟨is.take k, is.drop (k + 1), ?_, List.length_take_of_le (by omega)⟩
  rw [List.getElem_cons_drop, List.take_append_drop]

lemma superseded_iff_getElem? {x : Text} {is : List Instr} : Superseded x is ↔
    ∃ (n : Nat) (j : Instr), is[n]? = some j ∧ j.dest = some x ∧
      ∀ m l, m ≤ n → is[m]? = some l → x ∉ l.args := by
  have htake {js ks : List Instr} {j : Instr} {m : Nat} (hm : m ≤ js.length) :
      (js ++ j :: ks)[m]? = (js ++ [j])[m]? := by
    rw [← List.singleton_append, ← List.append_assoc, List.getElem?_append_left (by simp; omega)]
  constructor
  · rintro ⟨js, j, ks, rfl, hd, ha⟩
    refine ⟨js.length, j, by simp, hd, ?_⟩
    intro m l hm hl
    apply ha l
    exact List.mem_of_getElem? ((htake hm).symm.trans hl)
  · rintro ⟨n, j, hj, hd, ha⟩
    obtain ⟨js, ks, rfl, rfl⟩ := eq_append_cons_of_getElem? hj
    refine ⟨js, j, ks, rfl, hd, ?_⟩
    intro i hi
    obtain ⟨m, hm⟩ := List.mem_iff_getElem?.1 hi
    have hle : m ≤ js.length := by
      have := (List.getElem?_eq_some_iff.1 hm).1
      simpa [Nat.lt_succ_iff] using this
    exact ha m i hle ((htake hle).trans hm)

lemma deadStoreAt_length_iff {is js : List Instr} {i : Instr} :
    DeadStoreAt (is ++ i :: js) is.length ↔ ∃ x, i.dest = some x ∧ Superseded x js := by
  have hjs (m : Nat) : (is ++ i :: js)[is.length + m + 1]? = js[m]? := by
    rw [Nat.add_assoc, List.getElem?_append_right (by omega), Nat.add_sub_cancel_left, List.getElem?_cons_succ]
  simp only [DeadStoreAt, superseded_iff_getElem?]
  constructor
  · rintro ⟨x, _, j, n, hi, hd, hn, hj, hdj, ha⟩
    obtain ⟨n, rfl⟩ := Nat.exists_eq_add_of_lt hn
    obtain rfl : i = _ := by simpa using hi
    refine ⟨x, hd, n, j, (hjs n).symm.trans hj, hdj, fun m l hm hl => ?_⟩
    exact ha (is.length + m + 1) l (by omega) (by omega) ((hjs m).trans hl)
  · rintro ⟨x, hd, n, j, hj, hdj, ha⟩
    refine ⟨x, i, j, is.length + n + 1, by simp, hd, by omega, (hjs n).trans hj, hdj, fun m l hm hn hl => ?_⟩
    obtain ⟨m, rfl⟩ := Nat.exists_eq_add_of_lt hm
    exact ha m l (by omega) ((hjs m).symm.trans hl)

def DeletesStore (is js : List Instr) : Prop :=
  ∃ k, DeadStoreAt is k ∧ js = is.eraseIdx k

lemma deletesStore_iff {is js : List Instr} : DeletesStore is js ↔
    ∃ as i bs x, is = as ++ i :: bs ∧ js = as ++ bs ∧ i.dest = some x ∧ Superseded x bs := by
  have herase (as bs : List Instr) (i : Instr) : (as ++ i :: bs).eraseIdx as.length = as ++ bs := by
    simp [List.eraseIdx_append_of_length_le]
  constructor
  · rintro ⟨k, hk, rfl⟩
    obtain ⟨_, i, _, _, hi, _⟩ := id hk
    obtain ⟨as, bs, rfl, rfl⟩ := eq_append_cons_of_getElem? hi
    obtain ⟨x, hd, hs⟩ := deadStoreAt_length_iff.1 hk
    exact ⟨as, i, bs, x, rfl, herase as bs i, hd, hs⟩
  · rintro ⟨as, i, bs, x, rfl, rfl, hd, hs⟩
    exact ⟨as.length, deadStoreAt_length_iff.2 ⟨x, hd, hs⟩, (herase as bs i).symm⟩

lemma DeletesStore.prunes {R : Text → Prop} {is js : List Instr} (h : DeletesStore is js) : Prunes R is js := by
  obtain ⟨as, i, bs, x, rfl, rfl, hd, hs⟩ := deletesStore_iff.1 h
  exact Prunes.append_left as (.drop hd (fun _ => overwritten_iff.2 hs) (.refl R bs))

lemma Prunes.deletesStores {js ks : List Instr} (h : Prunes (fun _ => True) js ks) (is : List Instr) :
    Relation.ReflTransGen DeletesStore (is ++ js) (is ++ ks) := by
  -- From the front: what overwrites a definition is then still there when that definition is deleted.
  induction h generalizing is with
  | nil => exact .refl
  | keep i _ ih => simpa using ih (is ++ [i])
  | @drop js ks i x hd ho _ ih =>
    have hx : DeletesStore (is ++ i :: js) (is ++ js) :=
      deletesStore_iff.2 ⟨is, i, js, x, rfl, rfl, hd, overwritten_iff.1 (ho trivial)⟩
    exact .head hx (ih is)

lemma deletesStores_iff {is js : List Instr} : Relation.ReflTransGen DeletesStore is js ↔
    Relation.ReflTransGen (Prunes fun _ => True) is js := by
  constructor
  · intro h
    exact h.lift id fun _ _ => DeletesStore.prunes
  · intro h
    induction h with
    | refl => exact .refl
    | tail _ hp ih => exact ih.trans (hp.deletesStores [])

lemma not_deadStoreAt_of_dropOverwritten_eq {is : List Instr} (h : dropOverwritten is = is) (k : Nat) :
    ¬ DeadStoreAt is k := by
  intro hk
  obtain ⟨as, i, bs, x, rfl, _, hd, hs⟩ := deletesStore_iff.1 ⟨k, hk, rfl⟩
  exact not_superseded_of_dropOverwritten_eq h hd hs

lemma eq_of_prunes_of_not_deadStoreAt {is js : List Instr} (hn : ∀ k, ¬ DeadStoreAt is k)
    (h : Relation.ReflTransGen (Prunes fun _ => True) is js) : js = is := by
  rcases (deletesStores_iff.2 h).cases_head with rfl | ⟨_, ⟨k, hk, _⟩, _⟩
  · rfl
  · exact (hn k hk).elim

namespace Block

def DeletesStore (b c : Block) : Prop :=
  c.name = b.name ∧ BlockIR.DeletesStore b.instrs c.instrs

lemma deletesStores_iff {b c : Block} : Relation.ReflTransGen DeletesStore b c ↔
    c.name = b.name ∧ Relation.ReflTransGen BlockIR.DeletesStore b.instrs c.instrs := by
  constructor
  · intro h
    induction h with
    | refl => exact ⟨rfl, .refl⟩
    | tail _ hc ih => exact ⟨hc.1.trans ih.1, ih.2.tail hc.2⟩
  · obtain ⟨x, js⟩ := c
    rintro ⟨rfl, h⟩
    exact h.lift (Block.mk b.name) fun _ _ hd => ⟨rfl, hd⟩

/-- However dead stores are deleted one by one from a block until there is none, what remains is the block
that dropping them scan by scan leaves. -/
theorem deletesStores_end_iff_eq (b c : Block) :
    Relation.ReflTransGen DeletesStore b c ∧ (∀ k, ¬ DeadStoreAt c.instrs k) ↔ c = b.dropDeadStores := by
  have hprunes := dropDeadStores_prunes (fun _ => True) b.instrs
  have hnone := not_deadStoreAt_of_dropOverwritten_eq (settles_dropDeadStores b.instrs).fixed
  rw [deletesStores_iff, BlockIR.deletesStores_iff]
  constructor
  · rintro ⟨⟨hname, h⟩, hn⟩
    have hinstrs : c.instrs = BlockIR.dropDeadStores b.instrs :=
      eq_of_diamond (fun _ _ _ => Prunes.diamond) h hprunes (fun _ => eq_of_prunes_of_not_deadStoreAt hn)
        (fun _ => eq_of_prunes_of_not_deadStoreAt hnone)
    exact congrArg₂ Block.mk hname hinstrs
  · rintro rfl
    exact ⟨⟨rfl, hprunes⟩, hnone⟩

end Block

end BlockIR
