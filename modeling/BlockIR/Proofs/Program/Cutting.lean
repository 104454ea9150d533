import BlockIR.Proofs.Decode.Schema
import BlockIR.Proofs.Program.Building
import Mathlib.Data.List.SplitBy

namespace BlockIR

structure Labelled where
  labels : List Text
  instr : Instr
deriving DecidableEq

namespace Labelled

def ofItemsAfter (xs : List Text) : List Item → List Labelled
  | [] => []
  | .label x :: ts => ofItemsAfter (xs ++ [x]) ts
  | .instr i :: ts => ⟨xs, i⟩ :: ofItemsAfter [] ts

def ofItems (ts : List Item) : List Labelled :=
  ofItemsAfter [] ts

def joins (a b : Labelled) : Bool :=
  !a.instr.isTerminator && b.labels.isEmpty

lemma joins_iff {a b : Labelled} : a.joins b = true ↔ a.instr.isTerminator = false ∧ b.labels = [] := by
  simp [joins]

lemma joins_eq_false_iff {a b : Labelled} :
    a.joins b = false ↔ a.instr.isTerminator = true ∨ b.labels ≠ [] := by
  simp [joins, or_iff_not_imp_left]

lemma labels_head_ofItemsAfter {xs : List Text} {ts : List Item} {a : Labelled}
    (h : a ∈ (ofItemsAfter xs ts).head?) : xs <+: a.labels := by
  induction ts generalizing xs with
  | nil => cases h
  | cons t ts ih =>
    cases t with
    | label x => exact (List.prefix_append xs [x]).trans (ih h)
    | instr i =>
      cases h
      exact List.prefix_rfl

lemma map_instr_ofItemsAfter (xs : List Text) (ts : List Item) :
    (ofItemsAfter xs ts).map instr = ts.filterMap Item.instr? := by
  induction ts generalizing xs with
  | nil => rfl
  | cons t ts ih => cases t <;> simp [ofItemsAfter, List.filterMap_cons, Item.instr?, ih]

end Labelled

namespace Block

def ofGroups : Nat → List (List Labelled) → List Block
  | _, [] => []
  | k, g :: gs =>
    ⟨(g.head?.bind (·.labels.getLast?)).getD (BlockBuilder.numbered k), g.map Labelled.instr⟩ ::
      ofGroups (k + 1) gs

lemma length_ofGroups (k : Nat) (gs : List (List Labelled)) : (ofGroups k gs).length = gs.length := by
  induction gs generalizing k with
  | nil => rfl
  | cons g gs ih => simp [ofGroups, ih]

lemma ofGroups_append (k : Nat) (gs hs : List (List Labelled)) :
    ofGroups k (gs ++ hs) = ofGroups k gs ++ ofGroups (k + gs.length) hs := by
  induction gs generalizing k with
  | nil => rfl
  | cons g gs ih =>
    simp only [List.cons_append, ofGroups, ih, List.length_cons]
    rw [Nat.add_assoc, Nat.add_comm 1]

end Block

namespace BlockBuilder

def between (bs : List Block) (g : List Labelled) (xs : List Text) : BlockBuilder :=
  ⟨bs, g.map Labelled.instr, ((g.head?.map Labelled.labels).getD xs).getLast?⟩

variable {bs : List Block} {g : List Labelled} {xs : List Text}

lemma close_between (hg : g ≠ []) :
    (between bs g xs).close = between (bs ++ Block.ofGroups bs.length [g]) [] [] := by
  obtain ⟨a, g, rfl⟩ := List.exists_cons_of_ne_nil hg
  rw [close_of_pending_ne (by simp [between])]
  rfl

lemma label_between (hg : g ≠ []) (x : Text) :
    (between bs g xs).label x = between (bs ++ Block.ofGroups bs.length [g]) [] [x] := by
  rw [label, close_between hg]
  rfl

lemma add_between (i : Instr) : (between bs g xs).add i =
    if i.isTerminator then between (bs ++ Block.ofGroups bs.length [g ++ [⟨xs, i⟩]]) [] []
    else between bs (g ++ [⟨xs, i⟩]) [] := by
  have hnext : ({ between bs g xs with pending := (between bs g xs).pending ++ [i] } : BlockBuilder) =
      between bs (g ++ [⟨xs, i⟩]) [] := by
    cases g <;> simp [between]
  rw [add, hnext, close_between (by simp)]

structure Open (g : List Labelled) (xs : List Text) : Prop where
  chain : g.IsChain fun a b => a.joins b = true
  last : ∀ a ∈ g.getLast?, a.instr.isTerminator = false
  labels : g ≠ [] → xs = []

lemma Open.empty (xs : List Text) : Open [] xs :=
  ⟨.nil, by simp, by simp⟩

lemma Open.chain_concat (h : Open g xs) (i : Instr) :
    (g ++ [Labelled.mk xs i]).IsChain fun a b => a.joins b = true := by
  apply List.isChain_append.2 ⟨h.chain, .singleton _, ?_⟩
  intro a ha b hb
  obtain rfl : Labelled.mk xs i = b := by simpa using hb
  exact Labelled.joins_iff.2 ⟨h.last a ha, h.labels (List.ne_nil_of_mem (List.mem_of_mem_getLast? ha))⟩

lemma Open.concat (h : Open g xs) {i : Instr} (hi : i.isTerminator = false) : Open (g ++ [⟨xs, i⟩]) [] :=
  ⟨h.chain_concat i, by simp [hi], fun _ => rfl⟩

lemma ofGroups_splitBy_append {as : List Labelled} (hg : g ≠ []) (hc : g.IsChain fun a b => a.joins b = true)
    (h : ∀ a ∈ g.getLast?, ∀ b ∈ as.head?, a.joins b = false) :
    bs ++ Block.ofGroups bs.length ((g ++ as).splitBy Labelled.joins) =
      (bs ++ Block.ofGroups bs.length [g]) ++
        Block.ofGroups (bs ++ Block.ofGroups bs.length [g]).length (as.splitBy Labelled.joins) := by
  rw [List.splitBy_append h, List.splitBy_of_isChain hg hc, Block.ofGroups_append, List.append_assoc,
    List.length_append, Block.length_ofGroups]

lemma blocks_foldl_feed (bs : List Block) (ts : List Item) (h : Open g xs) : (ts.foldl feed (between bs g xs)).blocks =
    bs ++ Block.ofGroups bs.length ((g ++ Labelled.ofItemsAfter xs ts).splitBy Labelled.joins) := by
  induction ts generalizing bs g xs with
  | nil =>
    rw [List.foldl_nil, Labelled.ofItemsAfter, List.append_nil, blocks]
    by_cases hg : g = []
    · subst hg
      simp [Block.ofGroups, between, close]
    · rw [close_between hg, List.splitBy_of_isChain hg h.chain, between]
  | cons t ts ih =>
    cases t with
    | label x =>
      rw [List.foldl_cons, feed, Labelled.ofItemsAfter]
      by_cases hg : g = []
      · subst hg
        have hlabel : (between bs [] xs).label x = between bs [] (xs ++ [x]) := by
          simp [between, label, close]
        rw [hlabel, ih bs (.empty _)]
      · have hend : ∀ a ∈ g.getLast?, ∀ b ∈ (Labelled.ofItemsAfter [x] ts).head?, a.joins b = false := by
          intro a _ b hb
          apply Labelled.joins_eq_false_iff.2
          exact .inr ((Labelled.labels_head_ofItemsAfter hb).ne_nil (by simp))
        rw [label_between hg, ih _ (.empty _), h.labels hg, List.nil_append, List.nil_append,
          ofGroups_splitBy_append hg h.chain hend]
    | instr i =>
      rw [List.foldl_cons, feed, add_between, Labelled.ofItemsAfter,
        List.append_cons g _ (Labelled.ofItemsAfter [] ts)]
      cases hi : i.isTerminator with
      | false => exact ih bs (h.concat hi)
      | true =>
        have hend : ∀ a ∈ (g ++ [Labelled.mk xs i]).getLast?, ∀ b ∈ (Labelled.ofItemsAfter [] ts).head?,
            a.joins b = false := by
          intro a ha b _
          obtain rfl : Labelled.mk xs i = a := by simpa using ha
          exact Labelled.joins_eq_false_iff.2 (.inl hi)
        rw [if_pos rfl, ih _ (.empty _), List.nil_append, ofGroups_splitBy_append (by simp) (h.chain_concat i) hend]

end BlockBuilder

namespace Block

lemma ofItems_eq_ofGroups (ts : List Item) :
    ofItems ts = ofGroups 0 ((Labelled.ofItems ts).splitBy Labelled.joins) :=
  BlockBuilder.blocks_foldl_feed [] ts (.empty [])

def numberAt : List Block → Nat → Nat
  | [], _ => 0
  | b :: bs, n => if n < b.instrs.length then 0 else numberAt bs (n - b.instrs.length) + 1

lemma numberAt_cons_of_lt {b : Block} {n : Nat} (h : n < b.instrs.length) (bs : List Block) :
    numberAt (b :: bs) n = 0 :=
  if_pos h

lemma numberAt_cons_length_add (b : Block) (bs : List Block) (n : Nat) :
    numberAt (b :: bs) (b.instrs.length + n) = numberAt bs n + 1 := by
  rw [numberAt, if_neg (by omega), Nat.add_sub_cancel_left]

lemma joins_eq_false_of_next {g : List Labelled} {gs : List (List Labelled)} (hne : [] ∉ gs)
    (h : ∀ l ∈ gs.head?, ∃ hg hl, (g.getLast hg).joins (l.head hl) = false) {a b : Labelled}
    (ha : a ∈ g.getLast?) (hb : b ∈ gs.flatten.head?) : a.joins b = false := by
  obtain _ | ⟨l, gs⟩ := gs
  · cases hb
  · obtain ⟨hg, hl, hjoins⟩ := h l rfl
    obtain rfl : g.getLast hg = a := by
      rw [List.getLast?_eq_some_getLast hg] at ha
      exact Option.some.inj ha
    rw [List.flatten_cons, List.head?_append_of_ne_nil _ hl, List.head?_eq_some_head hl] at hb
    rwa [Option.some.inj hb] at hjoins

lemma numberAt_ofGroups_iff {gs : List (List Labelled)} (hne : [] ∉ gs)
    (hin : ∀ g ∈ gs, g.IsChain fun a b => a.joins b = true)
    (hout : gs.IsChain fun g l => ∃ hg hl, (g.getLast hg).joins (l.head hl) = false) {k n : Nat}
    {a b : Labelled} (ha : gs.flatten[n]? = some a) (hb : gs.flatten[n + 1]? = some b) :
    numberAt (ofGroups k gs) n = numberAt (ofGroups k gs) (n + 1) ↔ a.joins b = true := by
  induction gs generalizing k n with
  | nil => simp at ha
  | cons g gs ih =>
    rw [List.mem_cons, not_or] at hne
    obtain ⟨hing, hin⟩ := List.forall_mem_cons.1 hin
    obtain ⟨hnext, hout⟩ := List.isChain_cons.1 hout
    rw [List.flatten_cons] at ha hb
    have hhere {m : Nat} (hm : m < g.length) : numberAt (ofGroups k (g :: gs)) m = 0 :=
      numberAt_cons_of_lt (by simpa using hm) _
    have hlater (m : Nat) : numberAt (ofGroups k (g :: gs)) (g.length + m) =
        numberAt (ofGroups (k + 1) gs) m + 1 := by
      simpa [ofGroups] using numberAt_cons_length_add ⟨_, g.map Labelled.instr⟩ (ofGroups (k + 1) gs) m
    rcases Nat.lt_trichotomy (n + 1) g.length with hlt | heq | hgt
    · -- Both are in this group.
      rw [List.getElem?_append_left (by omega)] at ha hb
      obtain ⟨_, rfl⟩ := List.getElem?_eq_some_iff.1 ha
      obtain ⟨_, rfl⟩ := List.getElem?_eq_some_iff.1 hb
      rw [hhere (by omega), hhere hlt]
      exact iff_of_true rfl (hing.getElem n hlt)
    · -- One is the last of this group, the other the first of the next.
      rw [List.getElem?_append_left (by omega), show n = g.length - 1 by omega,
        ← List.getLast?_eq_getElem?] at ha
      rw [List.getElem?_append_right (by omega), heq, Nat.sub_self, ← List.head?_eq_getElem?] at hb
      have hfirst := hlater 0
      rw [Nat.add_zero] at hfirst
      rw [joins_eq_false_of_next hne.2 hnext ha hb, hhere (by omega), heq, hfirst]
      simp
    · -- Both are in later groups.
      obtain ⟨m, rfl⟩ := Nat.exists_eq_add_of_le (Nat.le_of_lt_succ hgt)
      rw [List.getElem?_append_right (by omega), Nat.add_sub_cancel_left] at ha
      rw [Nat.add_assoc, List.getElem?_append_right (by omega), Nat.add_sub_cancel_left] at hb
      rw [Nat.add_assoc, hlater, hlater, Nat.add_right_cancel_iff]
      exact ih hne.2 hin hout ha hb

lemma name_of_ofGroups {gs : List (List Labelled)} (hne : [] ∉ gs) {j k : Nat} {b : Block}
    (hb : (ofGroups j gs)[k]? = some b) :
    ∃ a, gs.flatten[(((ofGroups j gs).take k).flatMap instrs).length]? = some a ∧
      b.name = a.labels.getLast?.getD (BlockBuilder.numbered (j + k)) := by
  induction gs generalizing j k with
  | nil => simp [ofGroups] at hb
  | cons g gs ih =>
    rw [List.mem_cons, not_or] at hne
    rw [ofGroups] at hb ⊢
    cases k with
    | zero =>
      obtain ⟨a, g, rfl⟩ := List.exists_cons_of_ne_nil (Ne.symm hne.1)
      cases hb
      exact ⟨a, rfl, rfl⟩
    | succ k =>
      obtain ⟨a, ha, hn⟩ := ih hne.2 hb
      refine ⟨a, ?_, ?_⟩
      · simpa [List.getElem?_append_right] using ha
      · rw [hn, Nat.add_assoc, Nat.add_comm 1]

/-- What it is to cut a stream into blocks at its boundaries. -/
structure Cuts (ts : List Item) (bs : List Block) : Prop where
  content : bs.flatMap instrs = ts.filterMap Item.instr?
  nonempty : ∀ b ∈ bs, b.instrs ≠ []
  /-- Two instructions, one right after the other, share a block if no terminator and no label parts them. -/
  together : ∀ n a b, (Labelled.ofItems ts)[n]? = some a → (Labelled.ofItems ts)[n + 1]? = some b →
    (numberAt bs n = numberAt bs (n + 1) ↔ a.instr.isTerminator = false ∧ b.labels = [])
  /-- The last label in front of a block's first instruction is its name, even if it is empty. -/
  name : ∀ k b, bs[k]? = some b → ∃ a, (Labelled.ofItems ts)[((bs.take k).flatMap instrs).length]? = some a ∧
    b.name = a.labels.getLast?.getD (BlockBuilder.numbered k)

lemma cuts_ofItems (ts : List Item) : Cuts ts (ofItems ts) where
  content := flatMap_instrs_ofItems ts
  nonempty _ hb := (cut_of_mem_ofItems hb).nonempty
  together n a b ha hb := by
    rw [ofItems_eq_ofGroups, ← Labelled.joins_iff]
    rw [← List.flatten_splitBy Labelled.joins (Labelled.ofItems ts)] at ha hb
    exact numberAt_ofGroups_iff (List.nil_notMem_splitBy _ _) (fun _ => List.isChain_of_mem_splitBy)
      (List.isChain_getLast_head_splitBy _ _) ha hb
  name k b hb := by
    rw [ofItems_eq_ofGroups] at hb ⊢
    simpa using name_of_ofGroups (List.nil_notMem_splitBy _ _) hb

lemma length_le_of_numberAt {b c : Block} {bs cs : List Block} (hc : c.instrs ≠ [])
    (h : ∀ n, n + 1 < b.instrs.length → numberAt (b :: bs) n = numberAt (b :: bs) (n + 1) →
      numberAt (c :: cs) n = numberAt (c :: cs) (n + 1)) : b.instrs.length ≤ c.instrs.length := by
  by_contra hlt
  have hpos := List.length_pos_of_ne_nil hc
  obtain ⟨n, hn⟩ : ∃ n, c.instrs.length = n + 1 := ⟨c.instrs.length - 1, by omega⟩
  have hb : numberAt (b :: bs) n = numberAt (b :: bs) (n + 1) := by
    rw [numberAt_cons_of_lt (by omega), numberAt_cons_of_lt (by omega)]
  have hnext := numberAt_cons_length_add c cs 0
  have hsame := h n (by omega) hb
  rw [Nat.add_zero, hn] at hnext
  rw [hnext, numberAt_cons_of_lt (by omega)] at hsame
  omega

lemma map_instrs_eq_of_numberAt {bs cs : List Block} (hb : ∀ b ∈ bs, b.instrs ≠ [])
    (hc : ∀ c ∈ cs, c.instrs ≠ []) (hi : bs.flatMap instrs = cs.flatMap instrs)
    (h : ∀ n, n + 1 < (bs.flatMap instrs).length →
      (numberAt bs n = numberAt bs (n + 1) ↔ numberAt cs n = numberAt cs (n + 1))) :
    bs.map instrs = cs.map instrs := by
  induction bs generalizing cs with
  | nil =>
    cases cs with
    | nil => rfl
    | cons c cs => simp_all
  | cons b bs ih =>
    cases cs with
    | nil => simp_all
    | cons c cs =>
      obtain ⟨hb, hbs⟩ := List.forall_mem_cons.1 hb
      obtain ⟨hc, hcs⟩ := List.forall_mem_cons.1 hc
      have hbl : b.instrs.length ≤ ((b :: bs).flatMap instrs).length := by simp
      have hcl : c.instrs.length ≤ ((b :: bs).flatMap instrs).length := by
        rw [hi]
        simp
      have hlen : b.instrs.length = c.instrs.length :=
        Nat.le_antisymm (length_le_of_numberAt hc fun n hn => (h n (by omega)).1)
          (length_le_of_numberAt hb fun n hn => (h n (by omega)).2)
      obtain ⟨hinstrs, hrest⟩ := List.append_inj hi hlen
      rw [List.map_cons, List.map_cons, hinstrs, ih hbs hcs hrest fun n hn => ?_]
      have hn' := h (b.instrs.length + n) (by rw [List.flatMap_cons, List.length_append]; omega)
      rw [Nat.add_assoc, numberAt_cons_length_add, numberAt_cons_length_add, hlen, numberAt_cons_length_add,
        numberAt_cons_length_add] at hn'
      simpa using hn'

lemma Cuts.unique {ts : List Item} {bs cs : List Block} (hb : Cuts ts bs) (hc : Cuts ts cs) : bs = cs := by
  have hlen : (bs.flatMap instrs).length = (Labelled.ofItems ts).length := by
    rw [hb.content, ← Labelled.map_instr_ofItemsAfter [], List.length_map]
    rfl
  have hinstrs : bs.map instrs = cs.map instrs := by
    apply map_instrs_eq_of_numberAt hb.nonempty hc.nonempty (hb.content.trans hc.content.symm)
    intro n hn
    have h1 := List.getElem?_eq_getElem (l := Labelled.ofItems ts) (i := n) (by omega)
    have h2 := List.getElem?_eq_getElem (l := Labelled.ofItems ts) (i := n + 1) (by omega)
    exact (hb.together n _ _ h1 h2).trans (hc.together n _ _ h1 h2).symm
  have hstart (k : Nat) : (bs.take k).flatMap instrs = (cs.take k).flatMap instrs := by
    rw [List.flatMap_def, List.flatMap_def, List.map_take, List.map_take, hinstrs]
  apply List.ext_getElem (by simpa using congrArg List.length hinstrs)
  intro k hk hk'
  obtain ⟨a, ha, hname⟩ := hb.name k _ (List.getElem?_eq_getElem hk)
  obtain ⟨a', ha', hname'⟩ := hc.name k _ (List.getElem?_eq_getElem hk')
  rw [hstart k, ha', Option.some.injEq] at ha
  subst ha
  have hinstr : bs[k].instrs = cs[k].instrs := by
    have hmap := congrArg (·[k]?) hinstrs
    simpa [List.getElem?_eq_getElem hk, List.getElem?_eq_getElem hk'] using hmap
  exact congrArg₂ Block.mk (hname.trans hname'.symm) hinstr

/-- The blocks of a stream are the only ones that cut it at its boundaries, and they are what decoding gives for
records that are read as the stream. -/
theorem cuts_iff_ofItems_decode (ts : List Item) (bs : List Block) (records : List Tree) :
    (Cuts ts bs ↔ bs = ofItems ts) ∧
      (Decode.blocks records = .ok bs ↔ ∃ us, List.Forall₂ Decode.ItemRecord records us ∧ Cuts us bs) := by
  have hcuts (us : List Item) : Cuts us bs ↔ bs = ofItems us :=
    ⟨fun h => h.unique (cuts_ofItems us), fun h => h ▸ cuts_ofItems us⟩
  refine ⟨hcuts ts, ?_⟩
  simp only [Decode.blocks_eq, Decode.each, bind_eq_ok, Decode.eachFrom_ok, Decode.Reads, Decode.item_ok, hcuts]
  apply exists_congr
  intro us
  apply and_congr_right
  intro _
  exact ⟨fun h => by cases h; rfl, fun h => h ▸ rfl⟩

-- Of the first two labels the second counts, the last label names nothing.
example :
    let nop : Instr := { op := .nop }
    let ret : Instr := { op := .ret }
    ofItems [.label "a", .label "", .instr nop, .instr ret, .instr nop, .label "b", .instr ret, .label "c"] =
      [⟨"", [nop, ret]⟩, ⟨"block_1", [nop]⟩, ⟨"b", [ret]⟩] := by
  decide +kernel

end Block

end BlockIR
